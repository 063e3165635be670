import Mathlib.Algebra.Group.Int.Defs
import Mathlib.Algebra.Group.Nat.Defs
import Mathlib.Data.Nat.Notation

/-! # Conventions of the kernel model

Pointers and `unsigned long` values are `Nat`, with the wrap at `2^64` written
out where the code can reach it.  A call that does not return ends in a `Halt`. -/
set_option autoImplicit false
namespace Stardust

/-- How a kernel call can stop the system instead of returning. -/
inductive Halt
  /-- `crash()` -/
  | crash
  /-- `BUG()` or `BUG_ON` -/
  | bug
  /-- an access to an address that is not mapped -/
  | fault
  /-- the model's loop bound ran out; never a behaviour of the code -/
  | fuel
  deriving DecidableEq, Repr

@[simp] theorem Halt.ok_bind {α β : Type} (value : α) (next : α → Except Halt β) :
    ((.ok value : Except Halt α) >>= next) = next value := rfl

@[simp] theorem Halt.error_bind {α β : Type} (halt : Halt) (next : α → Except Halt β) :
    ((.error halt : Except Halt α) >>= next) = .error halt := rfl

theorem except_bind_ok {ε α β : Type} {call : Except ε α} {next : α → Except ε β} {result : β} :
    (call >>= next) = .ok result ↔ ∃ value, call = .ok value ∧ next value = .ok result := by
  cases call with
  | error failure =>
    constructor
    · intro run
      cases run
    · rintro ⟨_, run, _⟩
      cases run
  | ok value =>
    constructor
    · intro run
      exact ⟨value, rfl, run⟩
    · rintro ⟨other, same, run⟩
      cases same
      exact run

theorem except_bind_error {ε α β : Type} {call : Except ε α} {next : α → Except ε β} {failure : ε} :
    (call >>= next) = .error failure ↔
      call = .error failure ∨ ∃ value, call = .ok value ∧ next value = .error failure := by
  cases call with
  | error other =>
    constructor
    · intro run
      cases run
      exact Or.inl rfl
    · rintro (same | ⟨_, run, _⟩)
      · cases same
        rfl
      · cases run
  | ok value =>
    constructor
    · intro run
      exact Or.inr ⟨value, rfl, run⟩
    · rintro (run | ⟨_, same, run⟩)
      · cases run
      · cases same
        exact run

theorem Halt.bind_eq_ok {α β : Type} {call : Except Halt α} {next : α → Except Halt β} {result : β} :
    (call >>= next) = .ok result ↔ ∃ value, call = .ok value ∧ next value = .ok result := except_bind_ok

theorem Halt.bind_eq_error {α β : Type} {call : Except Halt α} {next : α → Except Halt β} {halt : Halt} :
    (call >>= next) = .error halt ↔
      call = .error halt ∨ ∃ value, call = .ok value ∧ next value = .error halt := except_bind_error

/-- A step of a model that makes a call is possible when the call returns. -/
theorem Halt.map_toOption_eq_some {α β : Type} {call : Except Halt α} {next : α → β} {result : β} :
    call.toOption.map next = some result ↔ ∃ value, call = .ok value ∧ next value = result := by
  cases call with
  | error halt => simp [Except.toOption]
  | ok value => simp [Except.toOption]

/-! ## `unsigned long` and `int` arithmetic -/

def ulongAdd (a b : Nat) : Nat := (a + b) % 2 ^ 64

def ulongSub (a b : Nat) : Nat := (a + (2 ^ 64 - b % 2 ^ 64)) % 2 ^ 64

def ulongMul (a b : Nat) : Nat := a * b % 2 ^ 64

/-- `~a` -/
def ulongNot (a : Nat) : Nat := 2 ^ 64 - 1 - a

/-- Conversion of a signed value to `unsigned long`. -/
def ulongOfInt (a : Int) : Nat := (a % 2 ^ 64).toNat

/-- Conversion to `int`, which keeps the low 32 bits. -/
def intOfUlong (a : Nat) : Int := (a : Int).bmod (2 ^ 32)

theorem ulongAdd_eq {a b : Nat} (fits : a + b < 2 ^ 64) : ulongAdd a b = a + b :=
  Nat.mod_eq_of_lt fits

theorem ulongMul_eq {a b : Nat} (fits : a * b < 2 ^ 64) : ulongMul a b = a * b :=
  Nat.mod_eq_of_lt fits

theorem ulongSub_eq {a b : Nat} (least : b ≤ a) (fits : a < 2 ^ 64) : ulongSub a b = a - b := by
  unfold ulongSub
  rw [Nat.mod_eq_of_lt (by omega : b < 2 ^ 64)]
  rw [show a + (2 ^ 64 - b) = a - b + 2 ^ 64 by omega, Nat.add_mod_right]
  exact Nat.mod_eq_of_lt (by omega)

theorem ulongOfInt_natCast {a : Nat} (fits : a < 2 ^ 64) : ulongOfInt a = a := by
  unfold ulongOfInt
  omega

theorem intOfUlong_eq {a : Nat} (fits : a < 2 ^ 31) : intOfUlong a = a := by
  unfold intOfUlong
  rw [Int.bmod_def]
  omega

theorem intOfUlong_toNat_le (a : Nat) : (intOfUlong a).toNat ≤ a := by
  unfold intOfUlong
  rw [Int.bmod_def]
  omega

/-- A mask of the bits from `k` on. -/
theorem and_ulongNot {a k : Nat} (word : a < 2 ^ 64) (small : k < 64) :
    a &&& ulongNot (2 ^ k - 1) = a / 2 ^ k * 2 ^ k := by
  have low : 2 ^ k - 1 < 2 ^ 64 := Nat.lt_of_le_of_lt (Nat.sub_le _ _) (Nat.pow_lt_pow_right (by decide) small)
  rw [ulongNot, Nat.sub_sub, Nat.add_comm 1, ← Nat.shiftRight_eq_div_pow, ← Nat.shiftLeft_eq]
  apply Nat.eq_of_testBit_eq
  intro i
  rw [Nat.testBit_and, Nat.testBit_two_pow_sub_succ low, Nat.testBit_two_pow_sub_one, Nat.testBit_shiftLeft,
    Nat.testBit_shiftRight]
  by_cases high : k ≤ i
  · by_cases within : i < 64
    · simp [high, within, Nat.add_sub_cancel' high]
    · have zero : a.testBit i = false :=
        Nat.testBit_lt_two_pow (Nat.lt_of_lt_of_le word (Nat.pow_le_pow_right (by decide) (by omega)))
      simp [high, within, Nat.add_sub_cancel' high, zero]
  · simp only [high, decide_false, Bool.false_and, Bool.not_eq_eq_eq_not, Bool.and_eq_false_imp]
    intro _
    simp
    omega

/-! ## `unsigned int` arithmetic -/

def uintAdd (a b : Nat) : Nat := (a + b) % 2 ^ 32

def uintSub (a b : Nat) : Nat := (a + (2 ^ 32 - b % 2 ^ 32)) % 2 ^ 32

theorem uintAdd_lt (a b : Nat) : uintAdd a b < 2 ^ 32 := Nat.mod_lt _ (by decide)

theorem uintAdd_zero {n : Nat} (small : n < 2 ^ 32) : uintAdd n 0 = n :=
  Nat.mod_eq_of_lt small

/-- Counters that run freely, with the wrap at `2^32`. -/
theorem uintAdd_mod (a b : Nat) : uintAdd (a % 2 ^ 32) b = (a + b) % 2 ^ 32 := Nat.mod_add_mod ..

theorem uintSub_mod {a b : Nat} (least : b ≤ a) (near : a < b + 2 ^ 32) :
    uintSub (a % 2 ^ 32) (b % 2 ^ 32) = a - b := by
  unfold uintSub
  omega

/-! ## `int` arithmetic -/

def intAdd (a b : Int) : Int := (a + b).bmod (2 ^ 32)

def intSub (a b : Int) : Int := (a - b).bmod (2 ^ 32)

theorem intAdd_eq {a b : Int} (low : -2 ^ 31 ≤ a + b) (high : a + b < 2 ^ 31) :
    intAdd a b = a + b := by
  unfold intAdd
  rw [Int.bmod_def]
  omega

theorem intSub_eq {a b : Int} (low : -2 ^ 31 ≤ a - b) (high : a - b < 2 ^ 31) :
    intSub a b = a - b := by
  unfold intSub
  rw [Int.bmod_def]
  omega

end Stardust
