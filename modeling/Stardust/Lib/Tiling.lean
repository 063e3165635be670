import Mathlib.Algebra.BigOperators.Group.List.Basic
import Mathlib.Algebra.GroupWithZero.Nat
import Mathlib.Data.List.Nodup
import Mathlib.Data.List.Pairwise
import Mathlib.Logic.Function.Basic

/-! # Blocks that tile an interval

`Tiled size start blocks stop`: the blocks, named by their first address, follow
each other from `start` to `stop`, each `size` long.  Cutting a block in two and
joining two neighbours keep the tiling. -/
set_option autoImplicit false
namespace Stardust.Lib

def Tiled (size : Nat → Nat) (start : Nat) : List Nat → Nat → Prop
  | [], stop => start = stop
  | a :: rest, stop => a = start ∧ Tiled size (start + size a) rest stop

section Rules
variable {size other : Nat → Nat} {start stop : Nat} {blocks xs ys : List Nat}

theorem Tiled.congr (tiled : Tiled size start blocks stop)
    (agree : ∀ a ∈ blocks, other a = size a) : Tiled other start blocks stop := by
  induction blocks generalizing start with
  | nil => exact tiled
  | cons a rest ih =>
    obtain ⟨first, tail⟩ := tiled
    refine ⟨first, ?_⟩
    rw [agree a (List.mem_cons_self ..)]
    exact ih tail fun b member => agree b (List.mem_cons_of_mem a member)

theorem tiled_append : Tiled size start (xs ++ ys) stop ↔
    ∃ mid, Tiled size start xs mid ∧ Tiled size mid ys stop := by
  induction xs generalizing start with
  | nil =>
    constructor
    · intro tail
      exact ⟨start, rfl, tail⟩
    · rintro ⟨mid, same, tail⟩
      rw [show start = mid from same]
      exact tail
  | cons a rest ih =>
    simp only [List.cons_append, Tiled, ih]
    constructor
    · rintro ⟨first, mid, left, right⟩
      exact ⟨mid, ⟨first, left⟩, right⟩
    · rintro ⟨mid, ⟨first, left⟩, right⟩
      exact ⟨first, mid, left, right⟩

theorem Tiled.start_le_stop (tiled : Tiled size start blocks stop) : start ≤ stop := by
  induction blocks generalizing start with
  | nil => exact Nat.le_of_eq tiled
  | cons a rest ih =>
    have tail := ih tiled.2
    omega

theorem Tiled.bounds (tiled : Tiled size start blocks stop) {a : Nat} (member : a ∈ blocks) :
    start ≤ a ∧ a + size a ≤ stop := by
  induction blocks generalizing start with
  | nil => contradiction
  | cons b rest ih =>
    obtain ⟨first, tail⟩ := tiled
    rcases List.mem_cons.mp member with rfl | later
    · have bound := tail.start_le_stop
      omega
    · have bounds := ih tail later
      omega

/-- Blocks of sizes that a number divides lie at multiples of it. -/
theorem Tiled.dvd {d : Nat} (tiled : Tiled size start blocks stop) (first : d ∣ start)
    (each : ∀ a ∈ blocks, d ∣ size a) : ∀ a ∈ blocks, d ∣ a := by
  induction blocks generalizing start with
  | nil => exact fun a member => nomatch member
  | cons b rest ih =>
    obtain ⟨same, tail⟩ := tiled
    have later := ih tail (Nat.dvd_add first (each b (List.mem_cons_self ..)))
      fun a member => each a (List.mem_cons_of_mem b member)
    intro a member
    rcases List.mem_cons.mp member with rfl | inRest
    · exact same ▸ first
    · exact later a inRest

theorem Tiled.ordered (tiled : Tiled size start blocks stop) :
    blocks.Pairwise fun a b => a + size a ≤ b := by
  induction blocks generalizing start with
  | nil => exact List.Pairwise.nil
  | cons a rest ih =>
    obtain ⟨first, tail⟩ := tiled
    refine List.pairwise_cons.mpr ⟨fun b member => ?_, ih tail⟩
    have bounds := tail.bounds member
    omega

theorem Tiled.apart (tiled : Tiled size start blocks stop) {a b : Nat} (left : a ∈ blocks)
    (right : b ∈ blocks) (different : a ≠ b) : a + size a ≤ b ∨ b + size b ≤ a := by
  have separate : blocks.Pairwise fun a b => a + size a ≤ b ∨ b + size b ≤ a :=
    tiled.ordered.imp Or.inl
  have symmetric : Std.Symm fun a b => a + size a ≤ b ∨ b + size b ≤ a := ⟨fun _ _ => Or.symm⟩
  exact separate.forall left right different

theorem Tiled.nodup (tiled : Tiled size start blocks stop) (positive : ∀ a ∈ blocks, 0 < size a) :
    blocks.Nodup := by
  refine tiled.ordered.imp_of_mem fun left _ ordered same => ?_
  have nonempty := positive _ left
  omega

theorem Tiled.sum (tiled : Tiled size start blocks stop) :
    start + (blocks.map size).sum = stop := by
  induction blocks generalizing start with
  | nil => exact tiled
  | cons a rest ih =>
    have tail := ih tiled.2
    rw [List.map_cons, List.sum_cons]
    omega

theorem Tiled.length_le (tiled : Tiled size start blocks stop) {least : Nat}
    (large : ∀ a ∈ blocks, least ≤ size a) : start + blocks.length * least ≤ stop := by
  induction blocks generalizing start with
  | nil => simpa using Nat.le_of_eq tiled
  | cons a rest ih =>
    have first := large a (List.mem_cons_self ..)
    have tail := ih tiled.2 fun b member => large b (List.mem_cons_of_mem a member)
    rw [List.length_cons, Nat.succ_mul]
    omega

/-- A block ends where the tiling ends or where the next block begins. -/
theorem Tiled.neighbour {a : Nat} (tiled : Tiled size start (xs ++ a :: ys) stop) :
    (ys = [] ∧ a + size a = stop) ∨ ∃ zs, ys = (a + size a) :: zs := by
  obtain ⟨mid, _, first, tail⟩ := tiled_append.mp tiled
  rw [← first] at tail
  cases ys with
  | nil => exact Or.inl ⟨rfl, tail⟩
  | cons b zs => exact Or.inr ⟨zs, by rw [tail.1]⟩

theorem Tiled.split {a k : Nat} (tiled : Tiled size start (xs ++ a :: ys) stop)
    (cut : k ≤ size a) (keptSize : other a = k) (newSize : other (a + k) = size a - k)
    (agree : ∀ b ∈ xs ++ ys, other b = size b) :
    Tiled other start (xs ++ a :: (a + k) :: ys) stop := by
  obtain ⟨mid, left, first, tail⟩ := tiled_append.mp tiled
  refine tiled_append.mpr ⟨mid, left.congr fun b member => agree b (List.mem_append_left ys member),
    first, ?_⟩
  rw [keptSize]
  refine ⟨by rw [first], ?_⟩
  rw [newSize, show mid + k + (size a - k) = mid + size a by omega]
  exact tail.congr fun b member => agree b (List.mem_append_right xs member)

theorem Tiled.merge {a b : Nat} (tiled : Tiled size start (xs ++ a :: b :: ys) stop)
    (joined : other a = size a + size b) (agree : ∀ c ∈ xs ++ ys, other c = size c) :
    Tiled other start (xs ++ a :: ys) stop := by
  obtain ⟨mid, left, first, second, tail⟩ := tiled_append.mp tiled
  refine tiled_append.mpr ⟨mid, left.congr fun c member => agree c (List.mem_append_left ys member),
    first, ?_⟩
  rw [joined, ← Nat.add_assoc]
  exact tail.congr fun c member => agree c (List.mem_append_right xs member)

end Rules

end Stardust.Lib
