import Mathlib.Algebra.BigOperators.Group.Finset.Basic
import Mathlib.Algebra.Order.BigOperators.Group.Finset
import Mathlib.Algebra.Order.Ring.Nat
import Mathlib.Algebra.Group.Int.Defs
import Mathlib.Logic.Function.Basic

/-! # A crowd of threads

Any number of threads, each at a place of its program.  A weight says how much a place
counts for; the total of a weight changes with a step of one thread by what that thread's
place counted before and counts after.  Invariants that count threads are equations
between totals and shared variables, and a step is then linear arithmetic. -/
set_option autoImplicit false
namespace Stardust.Lib

universe u v

structure Crowd (τ : Type u) (Place : Type v) where
  members : Finset τ
  place : τ → Place

variable {τ : Type u} {Place : Type v} {c : Crowd τ Place} {t u : τ} {p : Place} {w : Place → Nat}

def Crowd.total (w : Place → Nat) (c : Crowd τ Place) : Nat := ∑ t ∈ c.members, w (c.place t)

/-- A lock, taken or not, next to the number of threads that have it. -/
def held (taken : Bool) : Nat := if taken then 1 else 0

theorem held_le (taken : Bool) : held taken ≤ 1 := by
  cases taken <;> decide

section Totals

/-- Each thread counts for no more than all do. -/
theorem Crowd.le_total (member : t ∈ c.members) : w (c.place t) ≤ c.total w :=
  Finset.single_le_sum (f := fun t => w (c.place t)) (fun _ _ => Nat.zero_le _) member

theorem Crowd.exists_of_pos (positive : 0 < c.total w) : ∃ t ∈ c.members, 0 < w (c.place t) := by
  obtain ⟨t, member, some_⟩ := Finset.exists_ne_zero_of_sum_ne_zero (Nat.ne_of_gt positive)
  exact ⟨t, member, Nat.pos_of_ne_zero some_⟩

theorem Crowd.total_eq_zero : c.total w = 0 ↔ ∀ t ∈ c.members, w (c.place t) = 0 := Finset.sum_eq_zero_iff

theorem Crowd.total_le {v : Place → Nat} (less : ∀ p, v p ≤ w p) : c.total v ≤ c.total w :=
  Finset.sum_le_sum fun t _ => less (c.place t)

theorem Crowd.total_add (v w : Place → Nat) : c.total (fun p => v p + w p) = c.total v + c.total w :=
  Finset.sum_add_distrib

/-- A weight of one for every place counts the threads. -/
theorem Crowd.total_one : c.total (fun _ => 1) = c.members.card := (Finset.card_eq_sum_ones _).symm

/-- All threads at one place. -/
theorem Crowd.total_of_all (all : ∀ t ∈ c.members, c.place t = p) : c.total w = c.members.card * w p := by
  refine Finset.sum_const_nat fun t member => ?_
  rw [all t member]

/-- The threads that a yes-or-no weight leaves out. -/
theorem Crowd.total_compl (small : ∀ p, w p ≤ 1) : c.total (fun p => 1 - w p) + c.total w = c.members.card := by
  rw [← Crowd.total_add, ← Crowd.total_one]
  exact Finset.sum_congr rfl fun t _ => Nat.sub_add_cancel (small (c.place t))

/-- A yes-or-no weight that adds up to the number of threads is one at each. -/
theorem Crowd.eq_one_of_full (small : ∀ p, w p ≤ 1) (full : c.members.card ≤ c.total w) (member : t ∈ c.members) :
    w (c.place t) = 1 := by
  have rest := Crowd.total_compl (c := c) small
  have out := Crowd.le_total (w := fun p => 1 - w p) member
  have := small (c.place t)
  omega

end Totals

section Moves
variable [DecidableEq τ]

def Crowd.move (c : Crowd τ Place) (t : τ) (p : Place) : Crowd τ Place :=
  { c with place := Function.update c.place t p }

@[simp] theorem Crowd.members_move : (c.move t p).members = c.members := rfl

@[simp] theorem Crowd.place_move_self : (c.move t p).place t = p := Function.update_self ..

theorem Crowd.place_move_other (other : u ≠ t) : (c.move t p).place u = c.place u := Function.update_of_ne other ..

/-- The step of one thread moves its weight. -/
theorem Crowd.total_move (w : Place → Nat) (member : t ∈ c.members) (p : Place) :
    (c.move t p).total w + w (c.place t) = c.total w + w p := by
  have rest : ∑ u ∈ c.members.erase t, w ((c.move t p).place u) = ∑ u ∈ c.members.erase t, w (c.place u) := by
    refine Finset.sum_congr rfl fun u inside => ?_
    rw [Crowd.place_move_other (Finset.ne_of_mem_erase inside)]
  have after := Finset.add_sum_erase c.members (fun u => w ((c.move t p).place u)) member
  have before := Finset.add_sum_erase c.members (fun u => w (c.place u)) member
  rw [rest, Crowd.place_move_self] at after
  unfold Crowd.total
  rw [Crowd.members_move, ← after, ← before]
  omega

/-- Two threads count for no more than all do. -/
theorem Crowd.pair_le_total (member : t ∈ c.members) (alsoMember : u ∈ c.members) (other : u ≠ t) :
    w (c.place t) + w (c.place u) ≤ c.total w := by
  have split := Finset.add_sum_erase c.members (fun u => w (c.place u)) member
  have part : w (c.place u) ≤ ∑ u ∈ c.members.erase t, w (c.place u) :=
    Finset.single_le_sum (f := fun u => w (c.place u)) (fun _ _ => Nat.zero_le _)
      (Finset.mem_erase.mpr ⟨other, alsoMember⟩)
  unfold Crowd.total
  omega

/-- All but one thread count, and it is `t` that does not. -/
theorem Crowd.eq_one_of_others (small : ∀ p, w p ≤ 1) (full : c.members.card ≤ c.total w + 1)
    (member : t ∈ c.members) (zero : w (c.place t) = 0) (alsoMember : u ∈ c.members) (other : u ≠ t) :
    w (c.place u) = 1 := by
  have rest := Crowd.total_compl (c := c) small
  have out := Crowd.pair_le_total (w := fun p => 1 - w p) member alsoMember other
  have := small (c.place u)
  omega

end Moves

end Stardust.Lib
