import Mathlib.Data.List.DropRight
import Mathlib.Data.Nat.Notation
import Mathlib.Order.Defs.LinearOrder
import Stardust.Kernel
import Stardust.Libc.Ctype
import Stardust.Libc.Strings

/-! # Numbers out of strings

`strtoul` and `strtol` of `lib.c`.  Two pointers into one string are equal when as many
bytes are left at both. -/
set_option autoImplicit false
namespace Stardust.Libc

/-! ## The code -/

inductive Errno
  | zero
  | einval
  | erange
  deriving DecidableEq

/-- What a conversion returns, what it stores at `endptr` unless that is NULL, and what it
writes to `errno`. -/
structure Conversion (α : Type) where
  value : α
  endptr : Option (List UInt8)
  errno : Option Errno

/-- `c=(c>='a'?c-'a'+10:c>='A'?c-'A'+10:c<='9'?c-'0':0xff)` -/
def strtoulDigit (c : UInt8) : UInt8 :=
  if byte 'a' ≤ c then c - byte 'a' + 10
  else if byte 'A' ≤ c then c - byte 'A' + 10
  else if c ≤ byte '9' then c - byte '0' else 0xff

/-- The loop over the digits, with `v`, `overflow` and the rest of the string. -/
def strtoulDigits (base : Nat) : List UInt8 → Nat → Bool → Nat × Bool × List UInt8
  | [], v, overflow => (v, overflow, [])
  | c :: nptr, v, overflow =>
    if base ≤ (strtoulDigit c).toNat then (v, overflow, c :: nptr)
    else
      let x := ulongAdd (ulongMul (v % 2 ^ 8) base) (strtoulDigit c).toNat
      let w := ulongAdd (ulongMul (v / 2 ^ 8) base) (x / 2 ^ 8)
      strtoulDigits base nptr (ulongAdd (ulongMul w (2 ^ 8)) (x % 2 ^ 8))
        (overflow || decide ((2 ^ 64 - 1) / 2 ^ 8 < w))

/-- From the label `skip0x` to the loop. -/
def skip0x (nptr : List UInt8) (base : Nat) : List UInt8 × Nat :=
  if (deref nptr.tail = byte 'x' ∨ deref nptr.tail = byte 'X') ∧ isxdigit (deref nptr.tail.tail) then
    (nptr.drop 2, 16)
  else (nptr, base)

/-- From the loop to the end. -/
def strtoulFrom (ptr orig nptr : List UInt8) (base : Nat) (neg : Bool) : Conversion Nat :=
  let (v, overflow, nptr) := strtoulDigits base nptr 0 false
  let none := nptr.length = orig.length
  let v := if none then 0 else v
  let nptr := if none then ptr else nptr
  if overflow then { value := 2 ^ 64 - 1, endptr := some nptr, errno := some .erange }
  else { value := if neg then ulongSub 0 v else v
         endptr := some nptr
         errno := if none then some .einval else Option.none }

/-- After the sign. -/
def strtoulUnsigned (ptr nptr : List UInt8) (base : Int) (neg : Bool) : Conversion Nat :=
  if base = 16 ∧ deref nptr = byte '0' then strtoulFrom ptr nptr (skip0x nptr 16).1 (skip0x nptr 16).2 neg
  else if base ≠ 0 then
    if 34 < (base - 2) % 2 ^ 32 then { value := 0, endptr := none, errno := some .einval }
    else strtoulFrom ptr nptr nptr base.toNat neg
  else if deref nptr = byte '0' then strtoulFrom ptr nptr (skip0x nptr 8).1 (skip0x nptr 8).2 neg
  else strtoulFrom ptr nptr nptr 10 neg

def strtoul (ptr : List UInt8) (base : Int) : Conversion Nat :=
  let nptr := ptr.dropWhile isspace
  let neg := deref nptr == byte '-'
  let nptr := if deref nptr = byte '-' ∨ deref nptr = byte '+' then nptr.tail else nptr
  strtoulUnsigned ptr nptr base neg

/-- `ABS_LONG_MIN` -/
abbrev absLongMin : Nat := 2 ^ 63

/-- `strtol` after its own sign. -/
def strtolFrom (orig nptr : List UInt8) (base : Int) (neg : Bool) : Conversion Int :=
  let unsigned := strtoul nptr base
  let v := unsigned.value
  let endptr := unsigned.endptr.map fun stop => if stop.length = nptr.length then orig else stop
  if absLongMin ≤ v then
    if v = absLongMin ∧ neg then { value := -2 ^ 63, endptr, errno := some .zero }
    else { value := if neg then -2 ^ 63 else 2 ^ 63 - 1, endptr, errno := some .erange }
  else { value := if neg then -v else v, endptr, errno := unsigned.errno }

def strtol (orig : List UInt8) (base : Int) : Conversion Int :=
  let nptr := orig.dropWhile isspace
  let neg := deref nptr == byte '-' && isalnum (deref nptr.tail)
  strtolFrom orig (if neg then nptr.tail else nptr) base neg

/-! ## The grammar -/

/-- The value of a digit; letters of both cases count on from ten. -/
def digitValue (c : UInt8) : Option Nat :=
  if 48 ≤ c.toNat ∧ c.toNat ≤ 57 then some (c.toNat - 48)
  else if 65 ≤ c.toNat ∧ c.toNat ≤ 90 then some (c.toNat - 55)
  else if 97 ≤ c.toNat ∧ c.toNat ≤ 122 then some (c.toNat - 87)
  else none

def isDigitOf (base : Nat) (c : UInt8) : Bool := (digitValue c).any fun value => value < base

/-- The number that digits stand for, the first one the highest. -/
def digitsValue (base : Nat) (digits : List UInt8) : Nat :=
  digits.foldl (fun value c => value * base + (digitValue c).getD 0) 0

structure Numeral where
  negative : Bool
  base : Nat
  digits : List UInt8
  rest : List UInt8

/-- The optional sign; true for minus. -/
def signOf : List UInt8 → Bool × List UInt8
  | [] => (false, [])
  | c :: rest =>
    if c = byte '-' then (true, rest) else if c = byte '+' then (false, rest) else (false, c :: rest)

/-- `0x` or `0X`, with a digit after it. -/
def hexPrefix : List UInt8 → Bool
  | zero :: x :: c :: _ => zero == byte '0' && (x == byte 'x' || x == byte 'X') && isDigitOf 16 c
  | _ => false

/-- The base that base 0 stands for, without a prefix. -/
def detectedBase (s : List UInt8) : Nat := if deref s = byte '0' then 8 else 10

/-- The longest run of digits, after the sign. -/
def unsignedNumeral (negative : Bool) (base : Nat) (s : List UInt8) : Numeral :=
  if (base = 0 ∨ base = 16) ∧ hexPrefix s then
    { negative
      base := 16
      digits := (s.drop 2).takeWhile (isDigitOf 16)
      rest := (s.drop 2).dropWhile (isDigitOf 16) }
  else
    let base := if base = 0 then detectedBase s else base
    { negative, base, digits := s.takeWhile (isDigitOf base), rest := s.dropWhile (isDigitOf base) }

/-- Spaces, a sign, a prefix and digits at the start of a string. -/
def numeral (base : Nat) (s : List UInt8) : Numeral :=
  unsignedNumeral (signOf (s.dropWhile isspace)).1 base (signOf (s.dropWhile isspace)).2

def Numeral.value (m : Numeral) : Nat := digitsValue m.base m.digits

/-- Modulo `2^64` with the sign, or `ULONG_MAX` when the digits exceed it. -/
def Numeral.ulong (m : Numeral) : Nat :=
  if m.value < 2 ^ 64 then (if m.negative then (2 ^ 64 - m.value) % 2 ^ 64 else m.value) else 2 ^ 64 - 1

def Numeral.signed (m : Numeral) : Int := if m.negative then -m.value else m.value

/-- Clamped to `LONG_MIN` and `LONG_MAX`. -/
def Numeral.long (m : Numeral) : Int := max (-2 ^ 63) (min m.signed (2 ^ 63 - 1))

/-- The end of the digits; all of `s` when there are none. -/
def Numeral.stop (m : Numeral) (s : List UInt8) : List UInt8 := if m.digits = [] then s else m.rest

/-! ## Digits -/

section Digits
variable {base : Nat} {c : UInt8}

theorem strtoulDigit_toNat (c : UInt8) : (strtoulDigit c).toNat =
    if 97 ≤ c.toNat then c.toNat - 87 else if 65 ≤ c.toNat then c.toNat - 55
    else if c.toNat ≤ 57 then (c.toNat + 208) % 256 else 255 := by
  have below := c.toNat_lt
  have letters : (byte 'a').toNat = 97 ∧ (byte 'A').toNat = 65 ∧ (byte '0').toNat = 48 ∧ (byte '9').toNat = 57 := by
    decide
  have ten : (10 : UInt8).toNat = 10 := rfl
  have none_ : (0xff : UInt8).toNat = 255 := rfl
  simp only [strtoulDigit, UInt8.le_iff_toNat_le, letters]
  split_ifs <;> simp only [UInt8.toNat_add, UInt8.toNat_sub, letters, ten, none_] <;> omega

/-- Within the base, the code's value of a character is that of a digit. -/
theorem digitValue_of_lt (small : base ≤ 36) (within : (strtoulDigit c).toNat < base) :
    digitValue c = some (strtoulDigit c).toNat := by
  have byte := c.toNat_lt
  rw [strtoulDigit_toNat] at within ⊢
  unfold digitValue
  grind

theorem strtoulDigit_lt_iff (small : base ≤ 36) : (strtoulDigit c).toNat < base ↔ isDigitOf base c := by
  constructor
  · intro within
    rw [isDigitOf, digitValue_of_lt small within]
    exact decide_eq_true within
  · intro digit
    have byte := c.toNat_lt
    rw [strtoulDigit_toNat]
    unfold isDigitOf digitValue at digit
    grind

theorem isxdigit_eq (c : UInt8) : isxdigit c = isDigitOf 16 c := by
  rw [Bool.eq_iff_iff, isxdigit_iff]
  unfold isDigitOf digitValue
  grind

theorem isalnum_of_digit (digit : isDigitOf base c) : isalnum c := by
  rw [isalnum_iff]
  unfold isDigitOf digitValue at digit
  grind

end Digits

/-! ## The loop -/

/-- `v` is the value of the digits so far, unless that has exceeded an `unsigned long`. -/
structure Tracks (v : Nat) (overflow : Bool) (value : Nat) : Prop where
  below : v < 2 ^ 64
  exact_ : overflow = false → v = value
  exceeds : overflow = true ↔ 2 ^ 64 ≤ value

section Loop
variable {base v value digit : Nat} {overflow : Bool} {nptr : List UInt8}

/-- The multiplication in two parts. -/
theorem strtoul_turn (bounded : v < 2 ^ 64) (valid : 2 ≤ base ∧ base ≤ 36) (within : digit < base) :
    let x := ulongAdd (ulongMul (v % 2 ^ 8) base) digit
    let w := ulongAdd (ulongMul (v / 2 ^ 8) base) (x / 2 ^ 8)
    w * 2 ^ 8 + x % 2 ^ 8 = v * base + digit ∧
      ulongAdd (ulongMul w (2 ^ 8)) (x % 2 ^ 8) = (v * base + digit) % 2 ^ 64 := by
  have low : v % 2 ^ 8 * base ≤ 255 * 36 := Nat.mul_le_mul (by omega) valid.2
  have high : v / 2 ^ 8 * base ≤ (2 ^ 56 - 1) * 36 := Nat.mul_le_mul (by omega) valid.2
  have split : v * base = v / 2 ^ 8 * base * 2 ^ 8 + v % 2 ^ 8 * base := by
    rw [Nat.mul_right_comm, ← Nat.add_mul, Nat.mul_comm (v / 2 ^ 8), Nat.div_add_mod]
  intro x w
  have lowPart : x = v % 2 ^ 8 * base + digit := by
    rw [← ulongAdd_eq (by omega), ← ulongMul_eq (by omega)]
  have highPart : w = v / 2 ^ 8 * base + x / 2 ^ 8 := by
    rw [← ulongAdd_eq (by omega), ← ulongMul_eq (by omega)]
  have whole : w * 2 ^ 8 + x % 2 ^ 8 = v * base + digit := by omega
  refine ⟨whole, ?_⟩
  rw [← whole, ulongAdd, ulongMul, Nat.mod_add_mod]

theorem Tracks.turn (tracks : Tracks v overflow value) (valid : 2 ≤ base ∧ base ≤ 36) (within : digit < base) :
    let x := ulongAdd (ulongMul (v % 2 ^ 8) base) digit
    let w := ulongAdd (ulongMul (v / 2 ^ 8) base) (x / 2 ^ 8)
    Tracks (ulongAdd (ulongMul w (2 ^ 8)) (x % 2 ^ 8)) (overflow || decide ((2 ^ 64 - 1) / 2 ^ 8 < w))
      (value * base + digit) := by
  intro x w
  obtain ⟨whole, stored⟩ : w * 2 ^ 8 + x % 2 ^ 8 = v * base + digit ∧
      ulongAdd (ulongMul w (2 ^ 8)) (x % 2 ^ 8) = (v * base + digit) % 2 ^ 64 :=
    strtoul_turn tracks.below valid within
  have grows : value ≤ value * base := Nat.le_mul_of_pos_right value (by omega)
  cases wrapped : overflow with
  | true =>
    have exceeded := tracks.exceeds.mp wrapped
    refine ⟨Nat.mod_lt _ (by decide), by simp, ?_⟩
    simp only [Bool.true_or, true_iff]
    omega
  | false =>
    have same := tracks.exact_ wrapped
    have wrap : (2 ^ 64 - 1) / 2 ^ 8 < w ↔ 2 ^ 64 ≤ value * base + digit := by
      rw [← same, ← whole]
      omega
    refine ⟨Nat.mod_lt _ (by decide), ?_, ?_⟩
    · intro fits
      rw [Bool.false_or, decide_eq_false_iff_not, wrap] at fits
      rw [stored, same]
      exact Nat.mod_eq_of_lt (by omega)
    · rw [Bool.false_or, decide_eq_true_eq]
      exact wrap

/-- The loop takes the longest run of digits. -/
theorem strtoulDigits_run (nptr : List UInt8) (tracks : Tracks v overflow value) (valid : 2 ≤ base ∧ base ≤ 36) :
    ∃ v' overflow', strtoulDigits base nptr v overflow = (v', overflow', nptr.dropWhile (isDigitOf base)) ∧
      Tracks v' overflow' ((nptr.takeWhile (isDigitOf base)).foldl
        (fun value c => value * base + (digitValue c).getD 0) value) := by
  induction nptr generalizing v overflow value with
  | nil => exact ⟨v, overflow, rfl, tracks⟩
  | cons c nptr ih =>
    rw [strtoulDigits]
    by_cases within : (strtoulDigit c).toNat < base
    · have digit := (strtoulDigit_lt_iff valid.2).mp within
      rw [if_neg (by omega), List.dropWhile_cons_of_pos digit, List.takeWhile_cons_of_pos digit, List.foldl_cons,
        digitValue_of_lt valid.2 within]
      exact ih (tracks.turn valid within)
    · have digit := mt (strtoulDigit_lt_iff valid.2).mpr within
      rw [if_pos (by omega), List.dropWhile_cons_of_neg digit, List.takeWhile_cons_of_neg digit]
      exact ⟨v, overflow, rfl, tracks⟩

end Loop

/-! ## Both conversions -/

section Conversions
variable {base : Nat} {neg : Bool} {ptr orig nptr s : List UInt8}

theorem hexPrefix_iff : hexPrefix s = true ↔ deref s = byte '0' ∧
    (deref s.tail = byte 'x' ∨ deref s.tail = byte 'X') ∧ isxdigit (deref s.tail.tail) = true := by
  have noX : ¬((0 : UInt8) = byte 'x' ∨ (0 : UInt8) = byte 'X') := by decide
  have noDigit : isxdigit 0 = false := by decide +kernel
  match s with
  | [] => simp [hexPrefix, noX]
  | [zero] => simp [hexPrefix, noX]
  | [zero, x] => simp [hexPrefix, noDigit]
  | zero :: x :: c :: rest => simp [hexPrefix, isxdigit_eq, and_assoc]

theorem skip0x_eq (zero : deref s = byte '0') :
    skip0x s base = if hexPrefix s then (s.drop 2, 16) else (s, base) := by
  unfold skip0x
  by_cases hex : hexPrefix s = true
  · obtain ⟨_, x, digit⟩ := hexPrefix_iff.mp hex
    rw [if_pos hex, if_pos ⟨x, digit⟩]
  · rw [if_neg hex, if_neg]
    rintro ⟨x, digit⟩
    exact hex (hexPrefix_iff.mpr ⟨zero, x, digit⟩)

/-- After a prefix there is a digit. -/
theorem hexPrefix_digits (hex : hexPrefix s = true) :
    (s.drop 2).length < s.length ∧ (s.drop 2).takeWhile (isDigitOf 16) ≠ [] := by
  match s with
  | [] => nomatch hex
  | [_] => nomatch hex
  | [_, _] => nomatch hex
  | zero :: x :: c :: rest =>
    have digit : isDigitOf 16 c = true := (Bool.and_eq_true_iff.mp hex).2
    constructor
    · simp
    · rw [List.drop_succ_cons, List.drop_succ_cons, List.drop_zero, List.takeWhile_cons_of_pos digit]
      exact List.cons_ne_nil c _

theorem dropWhile_length_eq {p : UInt8 → Bool} : (s.dropWhile p).length = s.length ↔ s.takeWhile p = [] := by
  have lengths := congrArg List.length (List.takeWhile_append_dropWhile (p := p) (l := s))
  rw [List.length_append] at lengths
  rw [← List.length_eq_zero_iff]
  omega

/-- `nptr` points to the first digit, which is where the number starts or behind a prefix. -/
theorem strtoulFrom_eq (valid : 2 ≤ base ∧ base ≤ 36)
    (starts : nptr = orig ∨ (nptr.length < orig.length ∧ nptr.takeWhile (isDigitOf base) ≠ [])) :
    let m : Numeral :=
      { negative := neg, base, digits := nptr.takeWhile (isDigitOf base), rest := nptr.dropWhile (isDigitOf base) }
    (strtoulFrom ptr orig nptr base neg).value = m.ulong ∧
      (strtoulFrom ptr orig nptr base neg).endptr = some (m.stop ptr) := by
  intro m
  have begins : Tracks 0 false 0 := ⟨by decide, fun _ => rfl, by simp⟩
  obtain ⟨v, overflow, run, tracks⟩ := strtoulDigits_run nptr begins valid
  have value : Tracks v overflow m.value := tracks
  have none : (nptr.dropWhile (isDigitOf base)).length = orig.length ↔ m.digits = [] := by
    rcases starts with rfl | ⟨shorter, digits⟩
    · exact dropWhile_length_eq
    · have rest := (List.dropWhile_suffix (isDigitOf base) (l := nptr)).length_le
      exact ⟨fun same => by omega, fun empty => absurd empty digits⟩
  unfold strtoulFrom
  rw [run]
  by_cases empty : m.digits = []
  · have zero : m.value = 0 := by rw [Numeral.value, empty]; rfl
    have small : overflow = false := by
      rw [← Bool.not_eq_true, value.exceeds, zero]
      decide
    simp only [small, none, empty, if_true, Bool.false_eq_true, if_false]
    constructor
    · rw [Numeral.ulong, zero]
      cases m.negative <;> cases neg <;> rfl
    · rw [Numeral.stop, if_pos empty]
  · simp only [none, empty, if_false]
    rw [Numeral.ulong, Numeral.stop, if_neg empty]
    cases wrapped : overflow with
    | true =>
      have exceeded := value.exceeds.mp wrapped
      rw [if_pos rfl, if_neg (by omega)]
      exact ⟨rfl, rfl⟩
    | false =>
      have fits : m.value < 2 ^ 64 := by
        by_contra exceeded
        have contrary := value.exceeds.mpr (by omega)
        rw [wrapped] at contrary
        nomatch contrary
      rw [if_neg Bool.false_ne_true, if_pos fits, value.exact_ wrapped]
      refine ⟨?_, rfl⟩
      cases neg with
      | false => rfl
      | true =>
        show ulongSub 0 m.value = (2 ^ 64 - m.value) % 2 ^ 64
        rw [ulongSub, Nat.mod_eq_of_lt fits, Nat.zero_add]

theorem strtoulUnsigned_prefix (detects : base = 0 ∨ base = 16) (hex : hexPrefix s = true) :
    strtoulUnsigned ptr s base neg = strtoulFrom ptr s (s.drop 2) 16 neg := by
  have zero := (hexPrefix_iff.mp hex).1
  unfold strtoulUnsigned
  rw [skip0x_eq zero, skip0x_eq zero, if_pos hex, if_pos hex]
  rcases detects with rfl | rfl
  · rw [if_neg (by simp), if_neg (by simp), if_pos zero]
  · rw [if_pos ⟨rfl, zero⟩]

theorem strtoulUnsigned_plain (valid : base = 0 ∨ (2 ≤ base ∧ base ≤ 36))
    (plain : ¬((base = 0 ∨ base = 16) ∧ hexPrefix s = true)) :
    strtoulUnsigned ptr s base neg = strtoulFrom ptr s s (if base = 0 then detectedBase s else base) neg := by
  have unprefixed : (base = 0 ∨ base = 16) → deref s = byte '0' → ∀ b, skip0x s b = (s, b) := by
    intro detects zero b
    rw [skip0x_eq zero, if_neg fun hex => plain ⟨detects, hex⟩]
  unfold strtoulUnsigned
  rcases valid with rfl | valid
  · rw [if_neg (by simp), if_neg (by simp), if_pos rfl, detectedBase]
    by_cases zero : deref s = byte '0'
    · rw [if_pos zero, if_pos zero, unprefixed (Or.inl rfl) zero]
    · rw [if_neg zero, if_neg zero]
  · rw [if_neg (by omega : ¬base = 0)]
    by_cases sixteen : (base : Int) = 16 ∧ deref s = byte '0'
    · have same : base = 16 := by omega
      rw [if_pos sixteen, unprefixed (Or.inr same) sixteen.2, same]
    · rw [if_neg sixteen, if_pos (by omega), if_neg (by omega), Int.toNat_natCast]

theorem strtoulUnsigned_eq (valid : base = 0 ∨ (2 ≤ base ∧ base ≤ 36)) :
    (strtoulUnsigned ptr s base neg).value = (unsignedNumeral neg base s).ulong ∧
      (strtoulUnsigned ptr s base neg).endptr = some ((unsignedNumeral neg base s).stop ptr) := by
  unfold unsignedNumeral
  by_cases hex : (base = 0 ∨ base = 16) ∧ hexPrefix s = true
  · rw [if_pos hex, strtoulUnsigned_prefix hex.1 hex.2]
    exact strtoulFrom_eq (by decide) (Or.inr (hexPrefix_digits hex.2))
  · rw [if_neg hex, strtoulUnsigned_plain valid hex]
    refine strtoulFrom_eq ?_ (Or.inl rfl)
    unfold detectedBase
    grind

theorem signOf_eq : signOf s =
    (deref s == byte '-', if deref s = byte '-' ∨ deref s = byte '+' then s.tail else s) := by
  cases s with
  | nil => rfl
  | cons c rest =>
    rw [signOf, deref_cons, List.tail_cons]
    by_cases minus : c = byte '-'
    · simp [minus]
    · by_cases plus : c = byte '+'
      · rw [if_neg minus, if_pos plus, if_pos (Or.inr plus), beq_false_of_ne minus]
      · rw [if_neg minus, if_neg plus, if_neg (by simp [minus, plus]), beq_false_of_ne minus]

theorem strtoul_eq (valid : base = 0 ∨ (2 ≤ base ∧ base ≤ 36)) (s : List UInt8) :
    (strtoul s base).value = (numeral base s).ulong ∧
      (strtoul s base).endptr = some ((numeral base s).stop s) := by
  rw [numeral, signOf_eq]
  exact strtoulUnsigned_eq valid

/-- A letter or digit is where a number starts: no space and no sign. -/
theorem numeral_of_alnum (alnum : isalnum (deref s) = true) : numeral base s = unsignedNumeral false base s := by
  have class_ := (isalnum_iff (deref s)).mp alnum
  have space : ¬isspace (deref s) = true := by
    rw [isspace_iff]
    omega
  have minus : deref s ≠ byte '-' := by
    intro same
    rw [same] at class_
    exact absurd class_ (by decide)
  have plus : deref s ≠ byte '+' := by
    intro same
    rw [same] at class_
    exact absurd class_ (by decide)
  have stays : s.dropWhile isspace = s := by
    cases s with
    | nil => rfl
    | cons c rest => exact List.dropWhile_cons_of_neg (by simpa using space)
  rw [numeral, stays, signOf_eq, if_neg (by simp [minus, plus]), beq_false_of_ne minus]

/-- Without a letter or digit in front there are no digits. -/
theorem unsignedNumeral_of_not_alnum (none : isalnum (deref s) = false) :
    (unsignedNumeral neg base s).digits = [] := by
  have notHex : hexPrefix s ≠ true := by
    intro hex
    rw [(hexPrefix_iff.mp hex).1] at none
    exact absurd none (by decide +kernel)
  rw [unsignedNumeral, if_neg fun hex => notHex hex.2]
  cases s with
  | nil => rfl
  | cons c rest =>
    refine List.takeWhile_cons_of_neg ?_
    intro digit
    rw [deref_cons, isalnum_of_digit digit] at none
    nomatch none

theorem unsignedNumeral_negative :
    unsignedNumeral neg base s = { unsignedNumeral false base s with negative := neg } := by
  unfold unsignedNumeral
  split
  · rfl
  · rfl

theorem dropWhile_length_lt {p : UInt8 → Bool} (taken : s.takeWhile p ≠ []) : (s.dropWhile p).length < s.length := by
  have rest := (List.dropWhile_suffix p (l := s)).length_le
  have moved := mt dropWhile_length_eq.mp taken
  omega

theorem unsignedNumeral_rest (digits : (unsignedNumeral neg base s).digits ≠ []) :
    (unsignedNumeral neg base s).rest.length < s.length := by
  unfold unsignedNumeral at digits ⊢
  split at digits
  · rename_i hex
    rw [if_pos hex]
    have shorter := (hexPrefix_digits hex.2).1
    have rest := dropWhile_length_lt digits
    exact Nat.lt_trans rest shorter
  · rename_i plain
    rw [if_neg plain]
    exact dropWhile_length_lt digits

theorem numeral_rest (digits : (numeral base s).digits ≠ []) : (numeral base s).rest.length < s.length := by
  have spaces := (List.dropWhile_suffix isspace (l := s)).length_le
  have sign : (signOf (s.dropWhile isspace)).2.length ≤ (s.dropWhile isspace).length := by
    rw [signOf_eq]
    split
    · rw [List.length_tail]
      omega
    · exact Nat.le_refl _
  have rest : (numeral base s).rest.length < _ := unsignedNumeral_rest digits
  omega

/-- `strtol` puts its own start for that of `strtoul`. -/
theorem stop_moved {m : Numeral} (shorter : m.digits ≠ [] → m.rest.length < nptr.length) :
    (if (m.stop nptr).length = nptr.length then orig else m.stop nptr) = m.stop orig := by
  unfold Numeral.stop
  by_cases empty : m.digits = []
  · rw [if_pos empty, if_pos empty, if_pos rfl]
  · have less := shorter empty
    rw [if_neg empty, if_neg empty, if_neg (by omega)]

/-- What `strtol` makes of the value of `strtoul`. -/
theorem long_of_ulong {m : Numeral} (neg : Bool) (unsigned : m.negative = false ∨ m.value = 0) :
    (if absLongMin ≤ m.ulong then if m.ulong = absLongMin ∧ neg = true then -2 ^ 63
        else if neg = true then -2 ^ 63 else 2 ^ 63 - 1
      else if neg = true then -(m.ulong : Int) else m.ulong) = Numeral.long { m with negative := neg } := by
  have same : Numeral.value { m with negative := neg } = m.value := rfl
  unfold Numeral.long Numeral.signed Numeral.ulong
  rw [same]
  rcases unsigned with positive | zero
  · rw [positive]
    cases neg with
    | false => grind
    | true => grind
  · rw [zero]
    cases neg <;> cases m.negative <;> rfl

theorem value_of_no_digits {m : Numeral} (empty : m.digits = []) : m.value = 0 := by
  rw [Numeral.value, empty]
  rfl

theorem strtolFrom_eq (valid : base = 0 ∨ (2 ≤ base ∧ base ≤ 36))
    (unsigned : (numeral base nptr).negative = false ∨ (numeral base nptr).digits = []) :
    (strtolFrom orig nptr base neg).value = Numeral.long { numeral base nptr with negative := neg } ∧
      (strtolFrom orig nptr base neg).endptr = some ((numeral base nptr).stop orig) := by
  obtain ⟨value, endptr⟩ := strtoul_eq valid nptr
  have moved : _ = (numeral base nptr).stop orig := stop_moved numeral_rest
  have long := long_of_ulong neg (unsigned.imp_right value_of_no_digits)
  unfold strtolFrom
  simp only [value, endptr, Option.map_some, moved]
  rw [← long]
  split
  · split
    · exact ⟨rfl, rfl⟩
    · exact ⟨rfl, rfl⟩
  · exact ⟨rfl, rfl⟩

/-- `strtol` when `neg` says whether it takes a minus itself. -/
theorem strtol_of_sign {nptr : List UInt8} (spaces : s.dropWhile isspace = nptr)
    (sign : (deref nptr == byte '-' && isalnum (deref nptr.tail)) = neg) :
    strtol s base = strtolFrom s (if neg then nptr.tail else nptr) base neg := by
  rw [← sign, ← spaces]
  rfl

theorem numeral_skip (s : List UInt8) : numeral base (s.dropWhile isspace) = numeral base s := by
  rw [numeral, List.dropWhile_idempotent]
  rfl

theorem long_of_unsigned {m : Numeral} (unsigned : m.negative = false ∨ m.digits = []) :
    Numeral.long { m with negative := false } = m.long := by
  rcases unsigned with positive | empty
  · rw [← positive]
  · have zero := value_of_no_digits empty
    have same : Numeral.value { m with negative := false } = m.value := rfl
    unfold Numeral.long Numeral.signed
    rw [same, zero]
    cases m.negative <;> rfl

theorem strtol_eq (valid : base = 0 ∨ (2 ≤ base ∧ base ≤ 36)) (s : List UInt8) :
    (strtol s base).value = (numeral base s).long ∧
      (strtol s base).endptr = some ((numeral base s).stop s) := by
  obtain ⟨nptr, spaces⟩ : ∃ nptr, s.dropWhile isspace = nptr := ⟨_, rfl⟩
  have form : numeral base s = unsignedNumeral (signOf nptr).1 base (signOf nptr).2 := by rw [numeral, spaces]
  rw [signOf_eq] at form
  cases sign : deref nptr == byte '-' && isalnum (deref nptr.tail) with
  | true =>
    -- the digits are those of `strtoul` behind the minus
    obtain ⟨minus, alnum⟩ := Bool.and_eq_true_iff.mp sign
    have behind : _ = unsignedNumeral false base _ := numeral_of_alnum alnum
    rw [if_pos (Or.inl (beq_iff_eq.mp minus)), minus, unsignedNumeral_negative, ← behind] at form
    rw [strtol_of_sign spaces sign, if_pos rfl, form]
    exact strtolFrom_eq valid (Or.inl (by rw [behind, unsignedNumeral_negative]))
  | false =>
    -- `strtoul` finds the whole number, and after a minus no digits
    have unsigned : (numeral base s).negative = false ∨ (numeral base s).digits = [] := by
      rw [form]
      cases minus : deref nptr == byte '-' with
      | true =>
        rw [minus, Bool.true_and] at sign
        rw [if_pos (Or.inl (beq_iff_eq.mp minus))]
        exact Or.inr (unsignedNumeral_of_not_alnum sign)
      | false =>
        rw [unsignedNumeral_negative]
        exact Or.inl rfl
    have same : numeral base nptr = numeral base s := by rw [← spaces, numeral_skip]
    rw [strtol_of_sign spaces sign, if_neg Bool.false_ne_true, ← long_of_unsigned unsigned, ← same]
    exact strtolFrom_eq valid (by rwa [same])

/-- Of every string, in base 0 and in the bases from 2 to 36. -/
theorem strto_grammar (s : CString) {base : Nat} (valid : base = 0 ∨ (2 ≤ base ∧ base ≤ 36)) :
    ((strtoul s.bytes base).value = (numeral base s.bytes).ulong ∧
      (strtoul s.bytes base).endptr = some ((numeral base s.bytes).stop s.bytes)) ∧
    (strtol s.bytes base).value = (numeral base s.bytes).long ∧
      (strtol s.bytes base).endptr = some ((numeral base s.bytes).stop s.bytes) :=
  ⟨strtoul_eq valid s.bytes, strtol_eq valid s.bytes⟩

end Conversions

/-- `" -0x1Fg"` -/
def hexText : CString where
  bytes := [byte ' ', byte '-', byte '0', byte 'x', byte '1', byte 'F', byte 'g']
  noNul := by decide

theorem strto_grammar_hex : (numeral 16 hexText.bytes).digits = [byte '1', byte 'F'] ∧
    ((strtoul hexText.bytes (16 : Nat)).value = (numeral 16 hexText.bytes).ulong ∧
      (strtoul hexText.bytes (16 : Nat)).endptr = some ((numeral 16 hexText.bytes).stop hexText.bytes)) ∧
    (strtol hexText.bytes (16 : Nat)).value = (numeral 16 hexText.bytes).long ∧
      (strtol hexText.bytes (16 : Nat)).endptr = some ((numeral 16 hexText.bytes).stop hexText.bytes) :=
  ⟨by decide +kernel, strto_grammar hexText (Or.inr (by decide))⟩

end Stardust.Libc
