import Mathlib.Algebra.Group.End
import Mathlib.Data.List.Nodup
import Mathlib.Data.List.Perm.Subperm
import Mathlib.Order.Interval.Set.Defs

/-! # Rearranged segments

Arrays are functions of the index.  `Rearranges first last f g` says that `g` has the
entries of `f`, those from `first` to `last` in any order and the others in place.
`mirrored` is what swaps from both ends of a segment inwards leave, also where they have
met and go on. -/
set_option autoImplicit false
namespace Stardust.Lib

universe u

variable {α : Type u}

def Rearranges (first last : Int) (f g : Int → α) : Prop :=
  ∃ place : Equiv.Perm Int, (∀ k, ¬(first ≤ k ∧ k ≤ last) → place k = k) ∧ ∀ k, g k = f (place k)

section Rules
variable {first last : Int} {f g h : Int → α}

theorem Rearranges.refl (first last : Int) (f : Int → α) : Rearranges first last f f :=
  ⟨1, fun _ _ => rfl, fun _ => rfl⟩

theorem Rearranges.trans (before : Rearranges first last f g) (after : Rearranges first last g h) :
    Rearranges first last f h := by
  obtain ⟨place, fixed, same⟩ := before
  obtain ⟨next, fixed', same'⟩ := after
  refine ⟨place * next, ?_, ?_⟩
  · intro k outside
    rw [Equiv.Perm.mul_apply, fixed' k outside, fixed k outside]
  · intro k
    rw [same', same, Equiv.Perm.mul_apply]

theorem Rearranges.mono {low high : Int} (inner : Rearranges first last f g) (below : low ≤ first)
    (above : last ≤ high) : Rearranges low high f g := by
  obtain ⟨place, fixed, same⟩ := inner
  exact ⟨place, fun k outside => fixed k (by omega), same⟩

theorem Rearranges.outside (rearranged : Rearranges first last f g) {k : Int} (outside : k < first ∨ last < k) :
    g k = f k := by
  obtain ⟨place, fixed, same⟩ := rearranged
  rw [same, fixed k (by omega)]

/-- A fact about all the entries of the segment. -/
theorem Rearranges.forall {p : α → Prop} (rearranged : Rearranges first last f g)
    (all : ∀ k, first ≤ k → k ≤ last → p (f k)) {k : Int} (low : first ≤ k) (high : k ≤ last) : p (g k) := by
  obtain ⟨place, fixed, same⟩ := rearranged
  rw [same]
  have inside : first ≤ place k ∧ place k ≤ last := by
    by_contra outside
    have moved := place.injective (fixed (place k) outside)
    rw [moved] at outside
    exact outside ⟨low, high⟩
  exact all _ inside.1 inside.2

theorem rearranges_swap (f : Int → α) {a b : Int} (lowA : first ≤ a) (highA : a ≤ last) (lowB : first ≤ b)
    (highB : b ≤ last) : Rearranges first last f (f ∘ Equiv.swap a b) := by
  refine ⟨Equiv.swap a b, ?_, fun _ => rfl⟩
  intro k outside
  exact Equiv.swap_apply_of_ne_of_ne (by omega) (by omega)

/-- The list of the entries is permuted. -/
theorem Rearranges.perm {n : Nat} (rearranged : Rearranges 0 ((n : Int) - 1) f g) :
    ((List.range n).map fun k : Nat => g k).Perm ((List.range n).map fun k : Nat => f k) := by
  obtain ⟨place, fixed, same⟩ := rearranged
  have inside : ∀ {k : Int}, 0 ≤ k → k < n → 0 ≤ place k ∧ place k < n := by
    intro k low high
    by_contra outside
    have moved := place.injective (fixed (place k) (by omega))
    omega
  have indices : ((List.range n).map fun k : Nat => (place k).toNat).Perm (List.range n) := by
    have distinct : ((List.range n).map fun k : Nat => (place k).toNat).Nodup := by
      refine List.Nodup.map_on ?_ List.nodup_range
      intro a inA b inB equal
      have first := inside (k := a) (by omega) (by simpa using inA)
      have second := inside (k := b) (by omega) (by simpa using inB)
      have places : place a = place b := by omega
      exact Int.ofNat_inj.mp (place.injective places)
    refine (List.subperm_of_subset distinct ?_).perm_of_length_le (by simp)
    intro index member
    obtain ⟨k, inRange, rfl⟩ := List.mem_map.mp member
    have within := inside (k := k) (by omega) (by simpa using inRange)
    rw [List.mem_range]
    omega
  have entries : ((List.range n).map fun k : Nat => g k) =
      ((List.range n).map fun k : Nat => (place k).toNat).map fun k : Nat => f k := by
    rw [List.map_map]
    refine List.map_congr_left fun k member => ?_
    have within := inside (k := k) (by omega) (by simpa using member)
    rw [same, Function.comp_apply, Int.toNat_of_nonneg within.1]
  rw [entries]
  exact indices.map _

end Rules

/-! ## Swaps from both ends -/

/-- `n` swaps of `first, first + 1, ..` with `last, last - 1, ..`: entries that are reached
from both ends are back in place. -/
def mirrored (first last : Int) (n : Nat) (f : Int → α) (k : Int) : α :=
  if (first ≤ k ∧ k < first + n) ↔ (last - n < k ∧ k ≤ last) then f k else f (first + last - k)

section Mirrored
variable {first last : Int} {n : Nat} {f : Int → α} {p : α → Prop}

theorem mirrored_zero : mirrored first last 0 f = f := by
  funext k
  unfold mirrored
  rw [if_pos (by omega)]

theorem mirrored_succ (room : first + n ≤ last) :
    mirrored first last n f ∘ Equiv.swap (first + n) (last - n) = mirrored first last (n + 1) f := by
  funext k
  rw [Function.comp_apply, Equiv.swap_apply_def]
  unfold mirrored
  by_cases low : k = first + n
  · rw [if_pos low]
    by_cases middle : first + n = last - n
    · rw [if_pos (by omega), if_pos (by omega), low, middle]
    · by_cases crossed : last - n < first + n
      · rw [if_neg (by omega), if_pos (by omega)]
        congr 1
        omega
      · rw [if_pos (by omega), if_neg (by omega)]
        congr 1
        omega
  · rw [if_neg low]
    by_cases high : k = last - n
    · rw [if_pos high]
      by_cases crossed : last - n < first + n
      · rw [if_neg (by omega), if_pos (by omega)]
        congr 1
        omega
      · rw [if_pos (by omega), if_neg (by omega)]
        congr 1
        omega
    · rw [if_neg high]
      by_cases even : (first ≤ k ∧ k < first + n) ↔ (last - n < k ∧ k ≤ last)
      · rw [if_pos even, if_pos (by omega)]
      · rw [if_neg even, if_neg (by omega)]

theorem mirrored_rearranges (room : n = 0 ∨ first + n ≤ last + 1) :
    Rearranges first last f (mirrored first last n f) := by
  induction n with
  | zero =>
    rw [mirrored_zero]
    exact Rearranges.refl first last f
  | succ n ih =>
    rw [← mirrored_succ (by omega)]
    exact (ih (by omega)).trans (rearranges_swap _ (by omega) (by omega) (by omega) (by omega))

/-- A run at the low end is moved to the high end. -/
theorem mirrored_high (run : ∀ k, first ≤ k → k < first + n → p (f k)) {k : Int}
    (low : last - n < k) (high : k ≤ last) : p (mirrored first last n f k) := by
  unfold mirrored
  split
  · exact run k (by omega) (by omega)
  · exact run _ (by omega) (by omega)

theorem mirrored_low (run : ∀ k, last - n < k → k ≤ last → p (f k)) {k : Int}
    (low : first ≤ k) (high : k < first + n) : p (mirrored first last n f k) := by
  unfold mirrored
  split
  · exact run k (by omega) (by omega)
  · exact run _ (by omega) (by omega)

end Mirrored

end Stardust.Lib
