import Mathlib.Data.List.Nodup
import Mathlib.Logic.Function.Basic

/-! # A free list in the array that it indexes

`next i` is the entry after `i`; entry 0 is the head, and 0 ends the list.  `push` and
`pop` are the two operations at the head. -/
set_option autoImplicit false
namespace Stardust.Lib.FreeList

def push (next : Nat → Nat) (entry : Nat) : Nat → Nat :=
  Function.update (Function.update next entry (next 0)) 0 entry

/-- Takes `next 0` off, when the list is not empty. -/
def pop (next : Nat → Nat) : Nat → Nat := Function.update next 0 (next (next 0))

/-- The entries after `start` are `entries`. -/
def Linked (next : Nat → Nat) : Nat → List Nat → Prop
  | start, [] => next start = 0
  | start, entry :: rest => next start = entry ∧ Linked next entry rest

/-- The list holds `entries`, in this order. -/
structure Holds (next : Nat → Nat) (entries : List Nat) : Prop where
  linked : Linked next 0 entries
  nonzero : 0 ∉ entries
  nodup : entries.Nodup

variable {next other : Nat → Nat} {start entry : Nat} {entries rest : List Nat}

theorem Linked.congr (linked : Linked next start entries) (here : other start = next start)
    (same : ∀ i ∈ entries, other i = next i) : Linked other start entries := by
  induction entries generalizing start with
  | nil => exact here.trans linked
  | cons entry rest ih =>
    refine ⟨here.trans linked.1, ih linked.2 (same entry List.mem_cons_self) fun i member => ?_⟩
    exact same i (List.mem_cons_of_mem entry member)

theorem push_pop : push (pop next) (next 0) = next := by
  funext i
  unfold push pop
  by_cases head : i = 0
  · rw [head, Function.update_self]
  · rw [Function.update_of_ne head]
    by_cases first : i = next 0
    · rw [first, Function.update_self, Function.update_self]
    · rw [Function.update_of_ne first, Function.update_of_ne head]

theorem Holds.empty (zero : next 0 = 0) : Holds next [] := ⟨zero, nofun, List.nodup_nil⟩

theorem Holds.push (holds : Holds next entries) (nonzero : entry ≠ 0) (fresh : entry ∉ entries) :
    Holds (push next entry) (entry :: entries) := by
  refine ⟨⟨Function.update_self .., ?_⟩, ?_, List.nodup_cons.mpr ⟨fresh, holds.nodup⟩⟩
  · have first : FreeList.push next entry entry = next 0 := by
      rw [FreeList.push, Function.update_of_ne nonzero, Function.update_self]
    have kept : ∀ i ∈ entries, FreeList.push next entry i = next i := by
      intro i member
      have some : i ≠ 0 := fun zero => holds.nonzero (zero ▸ member)
      have old : i ≠ entry := fun same => fresh (same ▸ member)
      rw [FreeList.push, Function.update_of_ne some, Function.update_of_ne old]
    have linked := holds.linked
    cases entries with
    | nil => exact first.trans linked
    | cons head rest =>
      refine ⟨first.trans linked.1, linked.2.congr (kept head List.mem_cons_self) fun i member => ?_⟩
      exact kept i (List.mem_cons_of_mem head member)
  · intro member
    rcases List.mem_cons.mp member with zero | old
    · exact nonzero zero.symm
    · exact holds.nonzero old

theorem Holds.pop (holds : Holds next (entry :: rest)) :
    next 0 = entry ∧ Holds (pop next) rest := by
  obtain ⟨⟨head, linked⟩, nonzero, nodup⟩ := holds
  have some : 0 ∉ rest := fun zero => nonzero (List.mem_cons_of_mem entry zero)
  have kept : ∀ i ∈ rest, FreeList.pop next i = next i := by
    intro i member
    have inside : i ≠ 0 := fun zero => some (zero ▸ member)
    rw [FreeList.pop, Function.update_of_ne inside]
  have first : FreeList.pop next 0 = next entry := by
    rw [FreeList.pop, Function.update_self, head]
  refine ⟨head, ?_, some, (List.nodup_cons.mp nodup).2⟩
  cases rest with
  | nil => exact first.trans linked
  | cons second rest =>
    refine ⟨first.trans linked.1, linked.2.congr (kept second List.mem_cons_self) fun i member => ?_⟩
    exact kept i (List.mem_cons_of_mem second member)

theorem Holds.head_eq_zero (holds : Holds next entries) : next 0 = 0 ↔ entries = [] := by
  cases entries with
  | nil => exact ⟨fun _ => rfl, fun _ => holds.linked⟩
  | cons entry rest =>
    constructor
    · intro zero
      have head := holds.linked.1
      exact absurd (head.symm.trans zero) fun same => holds.nonzero (same ▸ List.mem_cons_self)
    · nofun

/-- All of a list are put, one after the other. -/
theorem Holds.pushes (added : List Nat) (holds : Holds next entries) (nonzero : 0 ∉ added)
    (nodup : added.Nodup) (fresh : ∀ entry ∈ added, entry ∉ entries) :
    Holds (added.foldl FreeList.push next) (added.reverse ++ entries) := by
  induction added generalizing next entries with
  | nil => exact holds
  | cons entry rest ih =>
    have some : entry ≠ 0 := fun zero => nonzero (zero ▸ List.mem_cons_self)
    have once := List.nodup_cons.mp nodup
    rw [List.foldl_cons, List.reverse_cons, List.append_assoc]
    apply ih (holds.push some (fresh entry List.mem_cons_self))
    · exact fun zero => nonzero (List.mem_cons_of_mem entry zero)
    · exact once.2
    · intro i member here
      rcases List.mem_cons.mp here with same | old
      · exact once.1 (same ▸ member)
      · exact fresh i (List.mem_cons_of_mem entry member) old

end Stardust.Lib.FreeList
