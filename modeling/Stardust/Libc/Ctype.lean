import Mathlib.Data.Nat.Notation

/-! # Classes of characters

`ctype.h`: a table of bits for each `unsigned char` and the macros that test them. -/
set_option autoImplicit false
namespace Stardust.Libc

namespace Ctype

/-- `_U` -/
abbrev upper : UInt8 := 0x01
/-- `_L` -/
abbrev lower : UInt8 := 0x02
/-- `_D` -/
abbrev digit : UInt8 := 0x04
/-- `_C` -/
abbrev control : UInt8 := 0x08
/-- `_P` -/
abbrev punct : UInt8 := 0x10
/-- `_S` -/
abbrev space : UInt8 := 0x20
/-- `_X` -/
abbrev hex : UInt8 := 0x40
/-- `_SP` -/
abbrev hardSpace : UInt8 := 0x80

def row (count : Nat) (bits : UInt8) : List UInt8 := List.replicate count bits

/-- `_ctype`, by runs of equal entries. -/
def table : List UInt8 :=
  row 9 control ++ row 5 (control ||| space) ++ row 18 control ++
  row 1 (space ||| hardSpace) ++ row 15 punct ++ row 10 digit ++ row 7 punct ++
  row 6 (upper ||| hex) ++ row 20 upper ++ row 6 punct ++
  row 6 (lower ||| hex) ++ row 20 lower ++ row 4 punct ++ row 1 control ++
  row 32 0 ++
  row 1 (space ||| hardSpace) ++ row 31 punct ++
  row 23 upper ++ row 1 punct ++ row 7 upper ++
  row 24 lower ++ row 1 punct ++ row 8 lower

end Ctype

/-- `__ismask` -/
def ismask (c : UInt8) : UInt8 := Ctype.table.getD c.toNat 0

def isalnum (c : UInt8) : Bool := ismask c &&& (Ctype.upper ||| Ctype.lower ||| Ctype.digit) != 0

def isdigit (c : UInt8) : Bool := ismask c &&& Ctype.digit != 0

def islower (c : UInt8) : Bool := ismask c &&& Ctype.lower != 0

def isspace (c : UInt8) : Bool := ismask c &&& Ctype.space != 0

def isxdigit (c : UInt8) : Bool := ismask c &&& (Ctype.digit ||| Ctype.hex) != 0

/-- `__toupper` -/
def toupper (c : UInt8) : UInt8 := if islower c then c - (97 - 65) else c

/-! ## The classes -/

theorem table_length : Ctype.table.length = 256 := by decide +kernel

/-- A class by the values of its characters, when it is right at each entry of the table. -/
theorem mask_eq (bits : UInt8) {g : Nat → Bool}
    (same : Ctype.table.zipIdx.all fun entry => (entry.1 &&& bits != 0) == g entry.2) (c : UInt8) :
    (ismask c &&& bits != 0) = g c.toNat := by
  have inside : c.toNat < Ctype.table.length := by
    rw [table_length]
    exact c.toNat_lt
  have entry := List.all_eq_true.mp same (Ctype.table[c.toNat], c.toNat)
    (List.mk_mem_zipIdx_iff_getElem?.mpr (List.getElem?_eq_getElem inside))
  rw [ismask, List.getD_eq_getElem?_getD, List.getElem?_eq_getElem inside, Option.getD_some]
  exact beq_iff_eq.mp entry

theorem isspace_iff (c : UInt8) :
    isspace c = true ↔ (9 ≤ c.toNat ∧ c.toNat ≤ 13) ∨ c.toNat = 32 ∨ c.toNat = 160 := by
  rw [isspace, mask_eq _ (g := fun n => (9 ≤ n ∧ n ≤ 13) ∨ n = 32 ∨ n = 160) (by decide +kernel), decide_eq_true_eq]

theorem isdigit_iff (c : UInt8) : isdigit c = true ↔ 48 ≤ c.toNat ∧ c.toNat ≤ 57 := by
  rw [isdigit, mask_eq _ (g := fun n => 48 ≤ n ∧ n ≤ 57) (by decide +kernel), decide_eq_true_eq]

theorem isxdigit_iff (c : UInt8) : isxdigit c = true ↔ (48 ≤ c.toNat ∧ c.toNat ≤ 57) ∨
    (65 ≤ c.toNat ∧ c.toNat ≤ 70) ∨ (97 ≤ c.toNat ∧ c.toNat ≤ 102) := by
  rw [isxdigit, mask_eq _ (g := fun n => (48 ≤ n ∧ n ≤ 57) ∨ (65 ≤ n ∧ n ≤ 70) ∨ (97 ≤ n ∧ n ≤ 102))
    (by decide +kernel), decide_eq_true_eq]

/-- The letters are those of ASCII and Latin-1. -/
theorem isalnum_iff (c : UInt8) : isalnum c = true ↔ (48 ≤ c.toNat ∧ c.toNat ≤ 57) ∨
    (65 ≤ c.toNat ∧ c.toNat ≤ 90) ∨ (97 ≤ c.toNat ∧ c.toNat ≤ 122) ∨
    (192 ≤ c.toNat ∧ c.toNat ≠ 215 ∧ c.toNat ≠ 247) := by
  rw [isalnum, mask_eq _ (g := fun n => (48 ≤ n ∧ n ≤ 57) ∨ (65 ≤ n ∧ n ≤ 90) ∨ (97 ≤ n ∧ n ≤ 122) ∨
    (192 ≤ n ∧ n ≠ 215 ∧ n ≠ 247)) (by decide +kernel), decide_eq_true_eq]

end Stardust.Libc
