import Mathlib.Data.Nat.Digits.Lemmas
import Stardust.Libc.PrintedText
import Stardust.Libc.Sscanf

/-! # Digits, printed and read

The digits that `number` prints, and what the readers of `vsscanf` make of them. -/
set_option autoImplicit false
namespace Stardust.Libc

/-! ## Digits -/

/-- The character of a digit. -/
def digitAt (large : Bool) (digit : Nat) : UInt8 := (digitsOf large).getD digit 0

theorem digitAt_reads {digit : Nat} (large : Bool) (isHex : digit < 16) :
    isxdigit (digitAt large digit) = true ∧ simpleDigit (digitAt large digit) = digit ∧
      simpleDigitLong (digitAt large digit) = digit := by
  have all : ∀ large : Bool, ∀ digit : Fin 16, isxdigit (digitAt large digit) = true ∧
      simpleDigit (digitAt large digit) = digit ∧ simpleDigitLong (digitAt large digit) = digit := by decide +kernel
  exact all large ⟨digit, isHex⟩

theorem digitAt_isdigit {digit : Nat} (large : Bool) (isDecimal : digit < 10) :
    isdigit (digitAt large digit) = true := by
  have all : ∀ large : Bool, ∀ digit : Fin 10, isdigit (digitAt large digit) = true := by decide +kernel
  exact all large ⟨digit, isDecimal⟩

theorem digitAt_octal {digit : Nat} (large : Bool) (isOctal : digit < 8) :
    ¬byte '7' < digitAt large digit := by
  have all : ∀ large : Bool, ∀ digit : Fin 8, ¬byte '7' < digitAt large digit := by decide +kernel
  exact all large ⟨digit, isOctal⟩

/-- A hexadecimal digit is no NUL, no blank and no minus. -/
theorem digitAt_other {digit : Nat} (large : Bool) (isHex : digit < 16) :
    digitAt large digit ≠ 0 ∧ isspace (digitAt large digit) = false ∧ digitAt large digit ≠ byte '-' := by
  have all : ∀ large : Bool, ∀ digit : Fin 16, digitAt large digit ≠ 0 ∧ isspace (digitAt large digit) = false ∧
      digitAt large digit ≠ byte '-' := by decide +kernel
  exact all large ⟨digit, isHex⟩

theorem digitAt_zero (large : Bool) : digitAt large 0 = byte '0' := by
  cases large <;> decide +kernel

section Digits
variable {base num fuel : Nat} {large : Bool}

theorem reversedDigits_eq (isBase : 2 ≤ base) (small : num < base ^ fuel) :
    reversedDigits (digitsOf large) base fuel num = (Nat.digits base num).map (digitAt large) := by
  induction fuel generalizing num with
  | zero =>
    have zero : num = 0 := Nat.lt_one_iff.mp small
    rw [zero, Nat.digits_zero]
    rfl
  | succ fuel ih =>
    rw [reversedDigits]
    by_cases zero : num = 0
    · rw [if_pos zero, zero, Nat.digits_zero]
      rfl
    · have less : num / base < base ^ fuel := Nat.div_lt_of_lt_mul (by rwa [Nat.pow_succ'] at small)
      rw [if_neg zero, ih less, Nat.digits_def' (Nat.lt_of_succ_le isBase) (Nat.pos_of_ne_zero zero), List.map_cons]
      rfl

/-- The digits of a number, the lowest first; zero has one. -/
def digitList (base num : Nat) : List Nat := if num = 0 then [0] else Nat.digits base num

theorem numberTmp_eq (large : Bool) (isBase : 2 ≤ base) (isNum : num < 2 ^ 64) :
    numberTmp large base num = (digitList base num).map (digitAt large) := by
  have small : num < base ^ 64 := Nat.lt_of_lt_of_le isNum (Nat.pow_le_pow_left isBase 64)
  unfold numberTmp digitList
  split
  · rw [List.map_singleton, digitAt_zero]
  · exact reversedDigits_eq isBase small

theorem digitList_lt (isBase : 2 ≤ base) : ∀ digit ∈ digitList base num, digit < base := by
  intro digit member
  unfold digitList at member
  split at member
  · rw [List.mem_singleton.mp member]
    omega
  · exact Nat.digits_lt_base (Nat.lt_of_succ_le isBase) member

theorem digitList_ne_nil (base num : Nat) : digitList base num ≠ [] := by
  unfold digitList
  split
  · exact List.cons_ne_nil _ _
  · exact Nat.digits_ne_nil_iff_ne_zero.mpr ‹_›

theorem ofDigits_digitList (base num : Nat) : Nat.ofDigits base (digitList base num) = num := by
  unfold digitList
  split
  · rw [Nat.ofDigits_singleton, ‹num = 0›]
  · exact Nat.ofDigits_digits base num

end Digits

/-! ## Reading digits -/

/-- The value of digits, the highest first. -/
def valueOf (base : Nat) (digits : List Nat) : Nat := Nat.ofDigits base digits.reverse

theorem valueOf_append (base : Nat) (digits : List Nat) (last : Nat) :
    valueOf base (digits ++ [last]) = valueOf base digits * base + last := by
  rw [valueOf, List.reverse_append, List.reverse_singleton, List.singleton_append, Nat.ofDigits_cons, Nat.add_comm,
    Nat.mul_comm]
  rfl

theorem valueOf_zeros (base zeros : Nat) (digits : List Nat) :
    valueOf base (List.replicate zeros 0 ++ digits) = valueOf base digits := by
  rw [valueOf, List.reverse_append, List.reverse_replicate, Nat.ofDigits_append_replicate_zero]
  rfl

theorem simpleDigits_map {digit : UInt8 → Nat} {base : Nat} {large : Bool} {digits : List Nat} {rest : List UInt8}
    (reads : ∀ d, d < 16 → digit (digitAt large d) = d) (isBase : base ≤ 16) (small : ∀ d ∈ digits, d < base)
    (seen : List Nat) :
    simpleDigits digit base (digits.map (digitAt large) ++ rest) (valueOf base seen % 2 ^ 64) =
      simpleDigits digit base rest (valueOf base (seen ++ digits) % 2 ^ 64) := by
  induction digits generalizing seen with
  | nil => rw [List.map_nil, List.nil_append, List.append_nil]
  | cons d digits ih =>
    have first := small d List.mem_cons_self
    have isHex : d < 16 := Nat.lt_of_lt_of_le first isBase
    have step : ulongAdd (ulongMul (valueOf base seen % 2 ^ 64) base) (digit (digitAt large d)) =
        valueOf base (seen ++ [d]) % 2 ^ 64 := by
      rw [reads d isHex, valueOf_append]
      unfold ulongAdd ulongMul
      rw [Nat.mod_mul_mod, Nat.mod_add_mod]
    rw [List.map_cons, List.cons_append, simpleDigits,
      if_pos ⟨(digitAt_reads large isHex).1, by rw [reads d isHex]; exact first⟩, step,
      ih (fun d member => small d (List.mem_cons_of_mem _ member)), List.append_assoc, List.singleton_append]

/-- What is behind a number: nothing, or a blank. -/
def Stops (rest : List UInt8) : Prop := rest = [] ∨ deref rest = byte ' '

theorem simpleDigits_stop {digit : UInt8 → Nat} {base value : Nat} {rest : List UInt8} (stops : Stops rest) :
    simpleDigits digit base rest value = (value, rest) := by
  cases rest with
  | nil => rfl
  | cons c rest =>
    have blank : c = byte ' ' := stops.resolve_left (List.cons_ne_nil _ _)
    have other : isxdigit (byte ' ') = false := by decide +kernel
    rw [simpleDigits, blank, if_neg]
    rw [other]
    exact fun both => Bool.false_ne_true both.1

/-! ## Reading numbers -/

/-- The bases of the conversions. -/
def IsBase (base : Nat) : Prop := base = 8 ∨ base = 10 ∨ base = 16

theorem IsBase.le {base : Nat} (isBase : IsBase base) : base ≤ 16 := by
  unfold IsBase at isBase
  omega

/-- What `vsscanf` returns and stores for `%d` and its like, with or without `l`. -/
def scanned (long : Bool) (base : Nat) (sign : Bool) (str : List UInt8) : Scanned :=
  if numberStarts base sign (str.dropWhile isspace) then
    { num := 1
      stored := [(scanNumber (if long then .long else .none) base sign (str.dropWhile isspace)).1] }
  else { num := 0, stored := [] }

/-- The bits that are stored. -/
def storedBits (long : Bool) : Nat := if long then 64 else 32

section Reading
variable {base : Nat} {large sign : Bool} {digits : List Nat} {rest : List UInt8}

theorem simpleStrto_map {digit : UInt8 → Nat} (reads : ∀ d, d < 16 → digit (digitAt large d) = d)
    (isBase : IsBase base) (small : ∀ d ∈ digits, d < base) (stops : Stops rest) :
    simpleStrto digit (digits.map (digitAt large) ++ rest) base = (valueOf base digits % 2 ^ 64, rest) := by
  have some_ : base ≠ 0 := by
    unfold IsBase at isBase
    omega
  have read := @simpleDigits_map digit base large digits rest reads isBase.le small []
  unfold simpleStrto
  rw [if_neg some_]
  exact read.trans (simpleDigits_stop stops)

theorem simpleStrtoul_map (isBase : IsBase base) (small : ∀ d ∈ digits, d < base) (stops : Stops rest) :
    simpleStrtoul (digits.map (digitAt large) ++ rest) base = (valueOf base digits % 2 ^ 64, rest) :=
  simpleStrto_map (fun _ isHex => (digitAt_reads large isHex).2.1) isBase small stops

theorem simpleStrtol_map (isBase : IsBase base) (small : ∀ d ∈ digits, d < base) (some_ : digits ≠ [])
    (stops : Stops rest) :
    simpleStrtol (digits.map (digitAt large) ++ rest) base = (valueOf base digits % 2 ^ 64, rest) := by
  obtain ⟨d, digits, rfl⟩ := List.exists_cons_of_ne_nil some_
  have isHex := Nat.lt_of_lt_of_le (small d List.mem_cons_self) isBase.le
  have plain : deref ((d :: digits).map (digitAt large) ++ rest) ≠ byte '-' := (digitAt_other large isHex).2.2
  unfold simpleStrtol negated
  rw [if_neg plain]
  exact simpleStrtoul_map isBase small stops

theorem simpleStrtol_minus (isBase : IsBase base) (small : ∀ d ∈ digits, d < base) (stops : Stops rest) :
    simpleStrtol (byte '-' :: (digits.map (digitAt large) ++ rest)) base =
      (ulongSub 0 (valueOf base digits % 2 ^ 64), rest) := by
  unfold simpleStrtol negated
  rw [if_pos (deref_cons _ _), List.tail_cons, simpleStrtoul_map isBase small stops]

theorem numberStarts_digit (large : Bool) {d : Nat} {str : List UInt8} (isBase : IsBase base) (small : d < base)
    (first : (if sign && deref str == byte '-' then deref str.tail else deref str) = digitAt large d) :
    numberStarts base sign str = true := by
  have other := (digitAt_other large (Nat.lt_of_lt_of_le small isBase.le)).1
  unfold numberStarts
  rw [first]
  rcases isBase with rfl | rfl | rfl
  · simp [other, digitAt_isdigit large (by omega : d < 10), digitAt_octal large small]
  · simp [other, digitAt_isdigit large small]
  · simp [other, (digitAt_reads large small).1]

theorem numberStarts_map (isBase : IsBase base) (small : ∀ d ∈ digits, d < base) (some_ : digits ≠ []) :
    numberStarts base sign (digits.map (digitAt large) ++ rest) = true := by
  obtain ⟨d, digits, rfl⟩ := List.exists_cons_of_ne_nil some_
  have less := small d List.mem_cons_self
  have plain := (digitAt_other large (Nat.lt_of_lt_of_le less isBase.le)).2.2
  refine numberStarts_digit large isBase less ?_
  rw [List.map_cons, List.cons_append, deref_cons, if_neg]
  rw [Bool.and_eq_true, beq_iff_eq]
  exact fun both => plain both.2

theorem numberStarts_minus (isBase : IsBase base) (small : ∀ d ∈ digits, d < base) (some_ : digits ≠ []) :
    numberStarts base true (byte '-' :: (digits.map (digitAt large) ++ rest)) = true := by
  obtain ⟨d, digits, rfl⟩ := List.exists_cons_of_ne_nil some_
  exact numberStarts_digit large isBase (small d List.mem_cons_self) rfl

theorem dropWhile_blanks (count : Nat) {c : UInt8} (plain : isspace c = false) (str : List UInt8) :
    (List.replicate count (byte ' ') ++ c :: str).dropWhile isspace = c :: str := by
  have blank : isspace (byte ' ') = true := by decide +kernel
  rw [List.dropWhile_append_of_pos, List.dropWhile_cons_of_neg]
  · rw [plain]
    exact Bool.false_ne_true
  · intro c member
    rwa [List.eq_of_mem_replicate member]

theorem mod_storedBits (long : Bool) (value : Nat) :
    value % 2 ^ 64 % 2 ^ storedBits long = value % 2 ^ storedBits long := by
  cases long with
  | false => exact Nat.mod_mod_of_dvd _ (Nat.pow_dvd_pow 2 (by decide))
  | true => exact Nat.mod_mod _ _

theorem scanNumber_stored (long : Bool) {value : Nat} {str : List UInt8} (below : value < 2 ^ 64)
    (read : (if sign then simpleStrtol str base else simpleStrtoul str base).1 = value) :
    (scanNumber (if long then .long else .none) base sign str).1 =
      .number (storedBits long) (value % 2 ^ storedBits long) := by
  cases long with
  | false => exact congrArg (fun value => Stored.number 32 (value % 2 ^ 32)) read
  | true => exact congrArg (Stored.number 64) (read.trans (Nat.mod_eq_of_lt below).symm)

/-- A number without a sign is read back. -/
theorem scanned_map (long : Bool) (isBase : IsBase base) (small : ∀ d ∈ digits, d < base) (some_ : digits ≠ [])
    (stops : Stops rest) (blanks : Nat) :
    scanned long base sign (List.replicate blanks (byte ' ') ++ (digits.map (digitAt large) ++ rest)) =
      { num := 1, stored := [.number (storedBits long) (valueOf base digits % 2 ^ storedBits long)] } := by
  have drops : (List.replicate blanks (byte ' ') ++ (digits.map (digitAt large) ++ rest)).dropWhile isspace =
      digits.map (digitAt large) ++ rest := by
    obtain ⟨d, digits, rfl⟩ := List.exists_cons_of_ne_nil some_
    have isHex := Nat.lt_of_lt_of_le (small d List.mem_cons_self) isBase.le
    exact dropWhile_blanks blanks (digitAt_other large isHex).2.1 _
  have read : (if sign then simpleStrtol (digits.map (digitAt large) ++ rest) base
      else simpleStrtoul (digits.map (digitAt large) ++ rest) base) = (valueOf base digits % 2 ^ 64, rest) := by
    split
    · exact simpleStrtol_map isBase small some_ stops
    · exact simpleStrtoul_map isBase small stops
  unfold scanned
  rw [drops, numberStarts_map isBase small some_, if_pos rfl,
    scanNumber_stored long (Nat.mod_lt _ (by decide)) (congrArg Prod.fst read), mod_storedBits]

/-- A number behind a minus is read back. -/
theorem scanned_minus (long : Bool) (isBase : IsBase base) (small : ∀ d ∈ digits, d < base) (some_ : digits ≠ [])
    (stops : Stops rest) (blanks : Nat) :
    scanned long base true
        (List.replicate blanks (byte ' ') ++ byte '-' :: (digits.map (digitAt large) ++ rest)) =
      { num := 1
        stored := [.number (storedBits long)
          (ulongSub 0 (valueOf base digits % 2 ^ 64) % 2 ^ storedBits long)] } := by
  have minus : isspace (byte '-') = false := by decide +kernel
  have below : ulongSub 0 (valueOf base digits % 2 ^ 64) < 2 ^ 64 := Nat.mod_lt _ (by decide)
  have read : (if true then simpleStrtol (byte '-' :: (digits.map (digitAt large) ++ rest)) base
      else simpleStrtoul (byte '-' :: (digits.map (digitAt large) ++ rest)) base).1 =
      ulongSub 0 (valueOf base digits % 2 ^ 64) := by
    rw [if_pos rfl, simpleStrtol_minus isBase small stops]
  unfold scanned
  rw [dropWhile_blanks blanks minus, numberStarts_minus isBase small some_, if_pos rfl,
    scanNumber_stored long below read]

/-- A blank behind the minus ends the scan. -/
theorem scanned_minus_blank (long : Bool) (str : List UInt8) :
    scanned long 10 true (byte '-' :: byte ' ' :: str) = { num := 0, stored := [] } := by
  have minus : isspace (byte '-') = false := by decide +kernel
  have stuck : numberStarts 10 true [byte '-', byte ' '] = false := by decide +kernel
  unfold scanned
  rw [List.dropWhile_cons_of_neg (by rw [minus]; exact Bool.false_ne_true)]
  rw [show numberStarts 10 true (byte '-' :: byte ' ' :: str) = false from stuck, if_neg Bool.false_ne_true]

end Reading

end Stardust.Libc
