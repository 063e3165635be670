import Mathlib.Algebra.Group.Int.Defs
import Mathlib.Algebra.Group.Nat.Defs
import Mathlib.Data.Int.Order.Basic

/-! # Strings of the C library

A string is the bytes before its NUL.  A pointer into it is the list of the bytes that
are left, and reads NUL when none are. -/
set_option autoImplicit false
namespace Stardust.Libc

structure CString where
  bytes : List UInt8
  noNul : 0 ∉ bytes

@[ext] theorem CString.ext {first second : CString} (same : first.bytes = second.bytes) : first = second := by
  cases first
  cases second
  cases same
  rfl

/-- A character constant. -/
abbrev byte (c : Char) : UInt8 := c.toUInt8

/-- `*s` -/
def deref (s : List UInt8) : UInt8 := s.headD 0

@[simp] theorem deref_nil : deref [] = 0 := rfl

@[simp] theorem deref_cons (c : UInt8) (rest : List UInt8) : deref (c :: rest) = c := rfl

/-! ## Signed characters -/

/-- Conversion to `signed char`. -/
def signedChar (value : Int) : Int := value.bmod (2 ^ 8)

/-- The value of a `char`, which is signed. -/
def charValue (c : UInt8) : Int := signedChar c.toNat

theorem signedChar_eq {value : Int} (low : -2 ^ 7 ≤ value) (high : value < 2 ^ 7) :
    signedChar value = value := by
  unfold signedChar
  rw [Int.bmod_def]
  omega

theorem charValue_bounds (c : UInt8) : -2 ^ 7 ≤ charValue c ∧ charValue c < 2 ^ 7 := by
  unfold charValue signedChar
  rw [Int.bmod_def]
  omega

@[simp] theorem charValue_zero : charValue 0 = 0 := by decide

theorem charValue_eq (c : UInt8) : charValue c = if c.toNat < 128 then (c.toNat : Int) else c.toNat - 256 := by
  have byte := c.toNat_lt
  unfold charValue signedChar
  rw [Int.bmod_def]
  omega

theorem charValue_inj {c d : UInt8} : charValue c = charValue d ↔ c = d := by
  rw [charValue_eq, charValue_eq, ← UInt8.toNat_inj]
  have byte := c.toNat_lt
  have other := d.toNat_lt
  omega

/-- The difference of two bytes is never lost. -/
theorem signedChar_sub_eq_zero {c d : UInt8} : signedChar (charValue c - charValue d) = 0 ↔ c = d := by
  rw [← charValue_inj]
  have bounds := charValue_bounds c
  have other := charValue_bounds d
  unfold signedChar
  rw [Int.bmod_def]
  omega

end Stardust.Libc
