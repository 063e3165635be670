import Mathlib.Algebra.Group.Nat.Defs
import Mathlib.Data.Nat.Bitwise
import Mathlib.Logic.Function.Basic

/-! # Bits packed into an array of machine words

`bitAt words i` reads bit `i` of an array of `w`-bit words.  The masks are the
two that range edits are written with: `(1 << k) - 1` has exactly the bits below
`k`, and `-(1 << k)` exactly the bits from `k` on. -/
set_option autoImplicit false
namespace Stardust.Lib

variable {w : Nat}

theorem getLsbD_lowMask {k : Nat} (inside : k < w) (i : Nat) :
    ((1#w <<< k) - 1#w).getLsbD i = decide (i < k) := by
  have width : 0 < w := by omega
  have oneLt : 1 < 2 ^ w := Nat.one_lt_two_pow (by omega)
  have powLt : 2 ^ k < 2 ^ w := Nat.pow_lt_pow_right (by decide) inside
  have powPos : 0 < 2 ^ k := Nat.two_pow_pos k
  have value : ((1#w <<< k) - 1#w).toNat = 2 ^ k - 1 := by
    rw [← BitVec.twoPow_eq, BitVec.toNat_sub, BitVec.toNat_twoPow_of_lt inside,
      BitVec.toNat_ofNat, Nat.mod_eq_of_lt oneLt]
    rw [show 2 ^ w - 1 + 2 ^ k = 2 ^ k - 1 + 2 ^ w by omega, Nat.add_mod_right]
    exact Nat.mod_eq_of_lt (by omega)
  rw [← BitVec.testBit_toNat, value, Nat.testBit_two_pow_sub_one]

theorem getLsbD_highMask {k : Nat} (inside : k < w) (i : Nat) :
    (-(1#w <<< k)).getLsbD i = (decide (i < w) && decide (k ≤ i)) := by
  have complement : -(1#w <<< k) = ~~~((1#w <<< k) - 1#w) := by
    rw [← BitVec.not_neg, BitVec.not_not]
  rw [complement, BitVec.getLsbD_not, getLsbD_lowMask inside, ← decide_not]
  simp only [Nat.not_lt]

theorem and_shifted_one_ne_zero {k : Nat} (word : BitVec w) (inside : k < w) :
    (word &&& (1#w <<< k) != 0#w) = word.getLsbD k := by
  have powLt : 2 ^ k < 2 ^ w := Nat.pow_lt_pow_right (by decide) inside
  have powPos : 0 < 2 ^ k := Nat.two_pow_pos k
  have size : (BitVec.twoPow w k).toNat ≠ (0#w).toNat := by
    rw [BitVec.toNat_twoPow_of_lt inside, BitVec.toNat_ofNat, Nat.zero_mod]
    omega
  rw [← BitVec.twoPow_eq, BitVec.and_twoPow]
  split
  · rename_i present
    rw [present]
    exact bne_iff_ne.mpr fun zero => size (congrArg BitVec.toNat zero)
  · rename_i absent
    rw [Bool.eq_false_of_not_eq_true absent, bne_self_eq_false]

/-! ## Word arrays -/

abbrev Words (w : Nat) := Nat → BitVec w

def bitAt (words : Words w) (i : Nat) : Bool := (words (i / w)).getLsbD (i % w)

def orWord (words : Words w) (k : Nat) (mask : BitVec w) : Words w :=
  Function.update words k (words k ||| mask)

def andWord (words : Words w) (k : Nat) (mask : BitVec w) : Words w :=
  Function.update words k (words k &&& mask)

/-- `count` consecutive words from `k` on take `value`. -/
def fillWords (value : BitVec w) : Nat → Nat → Words w → Words w
  | 0, _, words => words
  | count + 1, k, words => fillWords value count (k + 1) (Function.update words k value)

theorem bitAt_orWord (words : Words w) (k : Nat) (mask : BitVec w) (i : Nat) :
    bitAt (orWord words k mask) i =
      (bitAt words i || (decide (i / w = k) && mask.getLsbD (i % w))) := by
  unfold bitAt orWord
  by_cases hit : i / w = k
  · simp [hit]
  · simp [hit]

theorem bitAt_andWord (words : Words w) (k : Nat) (mask : BitVec w) (i : Nat) :
    bitAt (andWord words k mask) i =
      (bitAt words i && (!decide (i / w = k) || mask.getLsbD (i % w))) := by
  unfold bitAt andWord
  by_cases hit : i / w = k
  · simp [hit]
  · simp [hit]

theorem fillWords_apply (value : BitVec w) (count k : Nat) (words : Words w) (j : Nat) :
    fillWords value count k words j = if k ≤ j ∧ j < k + count then value else words j := by
  induction count generalizing k words with
  | zero =>
    have outside : ¬(k ≤ j ∧ j < k + 0) := by omega
    rw [if_neg outside]
    rfl
  | succ count ih =>
    rw [fillWords, ih]
    by_cases first : j = k
    · subst first
      simp
    · rw [Function.update_of_ne first]
      have same : (k + 1 ≤ j ∧ j < k + 1 + count) ↔ (k ≤ j ∧ j < k + (count + 1)) := by omega
      simp only [same]

theorem bitAt_fillWords (value : BitVec w) (count k : Nat) (words : Words w) (i : Nat) :
    bitAt (fillWords value count k words) i =
      if k ≤ i / w ∧ i / w < k + count then value.getLsbD (i % w) else bitAt words i := by
  unfold bitAt
  rw [fillWords_apply]
  split <;> rfl

/-! ## Single bits -/

def setBit (words : Words w) (i : Nat) : Words w := orWord words (i / w) (1#w <<< (i % w))

def clearBit (words : Words w) (i : Nat) : Words w := andWord words (i / w) (~~~(1#w <<< (i % w)))

/-- The word of a bit and its place there determine it. -/
theorem place_eq_iff {w i j : Nat} : (j / w = i / w ∧ i % w = j % w) ↔ j = i := by
  constructor
  · rintro ⟨quotient, remainder⟩
    rw [← Nat.div_add_mod j w, ← Nat.div_add_mod i w, quotient, remainder]
  · rintro rfl
    exact ⟨rfl, rfl⟩

theorem bitAt_setBit (width : 0 < w) (words : Words w) (i j : Nat) :
    bitAt (setBit words i) j = (bitAt words j || decide (j = i)) := by
  have inside := Nat.mod_lt i width
  rw [setBit, bitAt_orWord, ← BitVec.twoPow_eq, BitVec.getLsbD_twoPow]
  by_cases equal : j = i
  · subst equal
    simp [inside]
  · have apart : ¬(j / w = i / w ∧ i % w = j % w) := fun both => equal (place_eq_iff.mp both)
    simp only [equal, decide_false, Bool.or_false, inside, decide_true, Bool.true_and]
    rw [← Bool.decide_and, decide_eq_false apart, Bool.or_false]

theorem bitAt_clearBit (width : 0 < w) (words : Words w) (i j : Nat) :
    bitAt (clearBit words i) j = (bitAt words j && !decide (j = i)) := by
  have inside := Nat.mod_lt i width
  have insideJ := Nat.mod_lt j width
  rw [clearBit, bitAt_andWord, BitVec.getLsbD_not, ← BitVec.twoPow_eq, BitVec.getLsbD_twoPow]
  by_cases equal : j = i
  · subst equal
    simp [inside]
  · have apart : ¬(j / w = i / w ∧ i % w = j % w) := fun both => equal (place_eq_iff.mp both)
    by_cases quotient : j / w = i / w
    · have remainder : i % w ≠ j % w := fun rem => apart ⟨quotient, rem⟩
      simp [equal, quotient, remainder, inside, insideJ]
    · simp [equal, quotient]

end Stardust.Lib
