import Mathlib.Data.Nat.Basic
import Stardust.Xmalloc.Heap

/-! # Bytes of the words in memory

`memset` and `memcpy` work on whole words and on a part of the last one; what they do to
each byte does not depend on that. -/
set_option autoImplicit false
namespace Stardust.Xmalloc

/-- A byte below the bits that are kept of the old word is one of the new word. -/
theorem byte_splice (old new : Nat) {bits low : Nat} (inside : low + 8 ≤ bits) :
    (old / 2 ^ bits * 2 ^ bits + new % 2 ^ bits) / 2 ^ low % 2 ^ 8 = new / 2 ^ low % 2 ^ 8 := by
  obtain ⟨high, rfl⟩ := Nat.exists_eq_add_of_le inside
  have parts : 2 ^ (low + 8 + high) = 2 ^ low * (2 ^ 8 * 2 ^ high) := by
    rw [Nat.pow_add, Nat.pow_add, Nat.mul_assoc]
  have kept : old / 2 ^ (low + 8 + high) * 2 ^ (low + 8 + high) =
      2 ^ low * (2 ^ 8 * (2 ^ high * (old / 2 ^ (low + 8 + high)))) := by
    rw [Nat.mul_comm]
    conv => lhs; lhs; rw [parts]
    simp only [Nat.mul_assoc]
  have written : new % 2 ^ (low + 8 + high) / 2 ^ low = new / 2 ^ low % (2 ^ 8 * 2 ^ high) := by
    rw [parts, Nat.mod_mul_right_div_self]
  rw [kept, Nat.mul_add_div (Nat.two_pow_pos low), written, Nat.mul_add_mod, Nat.mod_mul_right_mod]

/-- A word of 8-aligned buffers. -/
theorem word_address {x k : Nat} (aligned : 8 ∣ x) :
    (x + k) % 8 = k % 8 ∧ x + k - (x + k) % 8 = x + (k - k % 8) := by
  omega

theorem byte_memset (mem : Mem) {x n k : Nat} (aligned : 8 ∣ x) (inside : k < n) :
    (mem.memset x 0 n).byte (x + k) = 0 := by
  obtain ⟨low, word⟩ := word_address (k := k) aligned
  have here : x ≤ x + (k - k % 8) ∧ x + (k - k % 8) < x + n := by omega
  unfold Mem.byte Mem.memset
  dsimp only
  rw [word, low, if_pos here]
  by_cases whole : x + (k - k % 8) + 8 ≤ x + n
  · rw [if_pos whole, Nat.zero_mul, Nat.zero_div, Nat.zero_mod]
  · rw [if_neg whole, byte_splice _ _ (by omega), Nat.zero_mul, Nat.zero_div, Nat.zero_mod]

theorem byte_memcpy (mem : Mem) {result p n k : Nat} (target : 8 ∣ result) (source : 8 ∣ p)
    (inside : k < n) : (mem.memcpy result p n).byte (result + k) = mem.byte (p + k) := by
  obtain ⟨lowTo, wordTo⟩ := word_address (k := k) target
  obtain ⟨lowFrom, wordFrom⟩ := word_address (k := k) source
  have here : result ≤ result + (k - k % 8) ∧ result + (k - k % 8) < result + n := by omega
  unfold Mem.byte Mem.memcpy
  rw [wordTo, lowTo, wordFrom, lowFrom, if_pos here, Nat.add_sub_cancel_left]
  by_cases whole : result + (k - k % 8) + 8 ≤ result + n
  · rw [if_pos whole]
  · rw [if_neg whole]
    dsimp only
    rw [byte_splice _ _ (by omega)]

/-- A byte above the bits that are written is one of the old word. -/
theorem byte_keep (old new : Nat) {bits low : Nat} (above : bits ≤ low) :
    (old / 2 ^ bits * 2 ^ bits + new % 2 ^ bits) / 2 ^ low = old / 2 ^ low := by
  obtain ⟨more, rfl⟩ := Nat.exists_eq_add_of_le above
  have part : new % 2 ^ bits < 2 ^ bits := Nat.mod_lt _ (Nat.two_pow_pos bits)
  rw [Nat.pow_add, ← Nat.div_div_eq_div_mul, ← Nat.div_div_eq_div_mul, Nat.mul_comm,
    Nat.mul_add_div (Nat.two_pow_pos bits), Nat.div_eq_of_lt part, Nat.add_zero]

/-- `memcpy` writes no byte behind the last. -/
theorem byte_memcpy_behind (mem : Mem) {result p n k : Nat} (target : 8 ∣ result)
    (behind : n ≤ k) : (mem.memcpy result p n).byte (result + k) = mem.byte (result + k) := by
  obtain ⟨low, word⟩ := word_address (k := k) target
  unfold Mem.byte Mem.memcpy
  rw [word, low]
  by_cases written : result ≤ result + (k - k % 8) ∧ result + (k - k % 8) < result + n
  · have part : ¬result + (k - k % 8) + 8 ≤ result + n := by omega
    rw [if_pos written, if_neg part]
    dsimp only
    rw [byte_keep _ _ (by omega)]
  · rw [if_neg written]

/-- Words that agree have the same bytes. -/
theorem byte_congr {mem other : Mem} {x n k : Nat} (aligned : 8 ∣ x)
    (same : ∀ w, x ≤ w → w < x + n → mem w = other w) (inside : k < n) :
    mem.byte (x + k) = other.byte (x + k) := by
  obtain ⟨low, word⟩ := word_address (k := k) aligned
  unfold Mem.byte
  rw [word, low, same _ (by omega) (by omega)]

end Stardust.Xmalloc
