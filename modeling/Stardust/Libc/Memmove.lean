import Stardust.Kernel
import Stardust.Lib.CopiedSegment

/-! # Moving memory

`memmove` of `lib.c` copies upwards or downwards, so that a source which overlaps the
destination is read before it is written. -/
set_option autoImplicit false
namespace Stardust.Libc

open Stardust.Lib

/-! ## The code -/

/-- `while (count--) *a = *b`, with both pointers moved on in each turn. -/
def copyLoop (next : Nat → Nat) : Nat → (Nat → UInt8) → Nat → Nat → Nat → UInt8
  | 0, memory, _, _ => memory
  | count + 1, memory, a, b => copyLoop next count (Function.update memory a (memory b)) (next a) (next b)

/-- `while (count--) *a++ = *b++;` -/
def copyUp (count : Nat) (memory : Nat → UInt8) (a b : Nat) : Nat → UInt8 :=
  copyLoop (fun pointer => ulongAdd pointer 1) count memory a b

/-- `while (count--) *a-- = *b--;` -/
def copyDown (count : Nat) (memory : Nat → UInt8) (a b : Nat) : Nat → UInt8 :=
  copyLoop (fun pointer => ulongSub pointer 1) count memory a b

/-- The memory behind the call, and what it returns. -/
def memmove (memory : Nat → UInt8) (dst src count : Nat) : (Nat → UInt8) × Nat :=
  if src ≠ dst then
    if dst < src then (copyUp count memory dst src, dst)
    else (copyDown count memory (ulongAdd dst (ulongSub count 1)) (ulongAdd src (ulongSub count 1)), dst)
  else (memory, dst)

/-! ## Both directions -/

section Directions
variable {memory after : Nat → UInt8} {dst src count k a b : Nat}

/-- `k` bytes have been copied; the pointers may leave the address space behind the last. -/
theorem copyUp_copied (above : dst < src) (fits : src + (k + count) ≤ 2 ^ 64)
    (isA : count ≠ 0 → a = dst + k) (isB : count ≠ 0 → b = src + k) (inv : Copied memory after dst src 0 k) :
    Copied memory (copyUp count after a b) dst src 0 (k + count) := by
  induction count generalizing after k a b with
  | zero => exact inv
  | succ count ih =>
    have hereA := isA (Nat.succ_ne_zero _)
    have hereB := isB (Nat.succ_ne_zero _)
    rw [copyUp, copyLoop, hereA, hereB, show k + (count + 1) = k + 1 + count by omega]
    refine ih (by omega) (fun more => ?_) (fun more => ?_) (inv.up (Nat.zero_le _) (Nat.le_of_lt above))
    · exact ulongAdd_eq (by omega)
    · exact ulongAdd_eq (by omega)

/-- `count` bytes are left to copy below those that have been. -/
theorem copyDown_copied (below : src < dst) (within : count ≤ k) (fits : dst + k ≤ 2 ^ 64)
    (isA : count ≠ 0 → a = dst + (count - 1)) (isB : count ≠ 0 → b = src + (count - 1))
    (inv : Copied memory after dst src count k) : Copied memory (copyDown count after a b) dst src 0 k := by
  induction count generalizing after a b with
  | zero => exact inv
  | succ count ih =>
    have hereA := isA (Nat.succ_ne_zero _)
    have hereB := isB (Nat.succ_ne_zero _)
    rw [Nat.add_sub_cancel] at hereA hereB
    rw [copyDown, copyLoop, hereA, hereB]
    refine ih (by omega) (fun more => ?_) (fun more => ?_) (inv.down within (Nat.le_of_lt below))
    · rw [ulongSub_eq (by omega) (by omega)]
      omega
    · rw [ulongSub_eq (by omega) (by omega)]
      omega

/-- The pointer to the last byte, when there is one. -/
theorem last_eq {pointer : Nat} (some_ : count ≠ 0) (fits : pointer + count ≤ 2 ^ 64) (below : count < 2 ^ 64) :
    ulongAdd pointer (ulongSub count 1) = pointer + (count - 1) := by
  rw [ulongSub_eq (Nat.pos_of_ne_zero some_) below]
  exact ulongAdd_eq (by omega)

theorem memmove_copied (memory : Nat → UInt8) (inDst : dst + count ≤ 2 ^ 64) (inSrc : src + count ≤ 2 ^ 64) :
    Copied memory (memmove memory dst src count).1 dst src 0 count := by
  unfold memmove
  split_ifs with apart above
  · have done : Copied memory (copyUp count memory dst src) dst src 0 (0 + count) :=
      copyUp_copied above (by omega) (fun _ => rfl) (fun _ => rfl) (.start memory dst src 0)
    rwa [Nat.zero_add] at done
  · have below : src < dst := by omega
    exact copyDown_copied below (Nat.le_refl _) inDst (fun some_ => last_eq some_ inDst (by omega))
      (fun some_ => last_eq some_ inSrc (by omega)) (.start memory dst src count)
  · rw [not_not.mp apart]
    exact .same memory dst 0 count

end Directions

/-- For any memory and any two regions, whether or not they overlap: the destination holds
what the source held before the call, and nothing else changes. -/
theorem memmove_moves (memory : Nat → UInt8) (dst src count : Nat) (inDst : dst + count ≤ 2 ^ 64)
    (inSrc : src + count ≤ 2 ^ 64) :
    (∀ i < count, (memmove memory dst src count).1 (dst + i) = memory (src + i)) ∧
      ∀ a, ¬(dst ≤ a ∧ a < dst + count) → (memmove memory dst src count).1 a = memory a := by
  have moved := memmove_copied memory inDst inSrc
  constructor
  · intro i within
    exact moved.copied i (Nat.zero_le i) within
  · intro a outside
    exact moved.frame a (by omega)

/-- Five bytes moved up by two. -/
theorem memmove_moves_overlap :
    (∀ i < 5, (memmove (fun a => UInt8.ofNat a) 4098 4096 5).1 (4098 + i) = UInt8.ofNat (4096 + i)) ∧
      ∀ a, ¬(4098 ≤ a ∧ a < 4098 + 5) → (memmove (fun a => UInt8.ofNat a) 4098 4096 5).1 a = UInt8.ofNat a :=
  memmove_moves (fun a => UInt8.ofNat a) 4098 4096 5 (by decide) (by decide)

end Stardust.Libc
