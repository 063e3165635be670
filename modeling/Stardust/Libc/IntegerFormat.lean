import Stardust.Libc.NumberText
import Stardust.Libc.Strtoul
import Stardust.Libc.Vsnprintf

/-! # Formats of one integer

A `%`, the flags `-` and `0`, a width, a precision and an integer conversion, and what
`vsnprintf` reads out of them. -/
set_option autoImplicit false
namespace Stardust.Libc

/-! ## The formats -/

inductive IntegerConversion
  | ld
  | lu
  | lx
  | lX
  | lo
  | d
  | u
  deriving DecidableEq

namespace IntegerConversion

def long : IntegerConversion → Bool
  | d | u => false
  | _ => true

def letter : IntegerConversion → UInt8
  | ld | d => byte 'd'
  | lu | u => byte 'u'
  | lx => byte 'x'
  | lX => byte 'X'
  | lo => byte 'o'

def base : IntegerConversion → Nat
  | lx | lX => 16
  | lo => 8
  | _ => 10

def sign : IntegerConversion → Bool
  | ld | d => true
  | _ => false

def large : IntegerConversion → Bool
  | lX => true
  | _ => false

def bytes (conversion : IntegerConversion) : List UInt8 :=
  (if conversion.long then [byte 'l'] else []) ++ [conversion.letter]

def qualifier (conversion : IntegerConversion) : Qualifier := if conversion.long then .long else .none

end IntegerConversion

/-- A width, written in digits of which the first is not `0`, or `*`. -/
inductive Width
  | absent
  | written (first : UInt8) (rest : List UInt8) (isFirst : isdigit first = true ∧ first ≠ byte '0')
      (areDigits : ∀ c ∈ rest, isdigit c = true)
  | argument

/-- A precision; no digits at all are zero. -/
inductive Precision
  | absent
  | written (digits : List UInt8) (areDigits : ∀ c ∈ digits, isdigit c = true)
  | argument

def Width.bytes : Width → List UInt8
  | absent => []
  | written first rest _ _ => first :: rest
  | argument => [byte '*']

def Precision.bytes : Precision → List UInt8
  | absent => []
  | written digits _ => byte '.' :: digits
  | argument => [byte '.', byte '*']

/-- How many arguments the width takes. -/
def Width.taken : Width → Nat
  | argument => 1
  | _ => 0

def Precision.taken : Precision → Nat
  | argument => 1
  | _ => 0

/-- The number that digits are, as an `int`. -/
def intOfDigits (digits : List UInt8) : Int := Int.bmod (digitsValue 10 digits) (2 ^ 32)

/-- `field_width`, with `arg` the next argument. -/
def Width.value (arg : Arg) : Width → Int
  | absent => -1
  | written first rest _ _ => intOfDigits (first :: rest)
  | argument => if arg.int < 0 then intSub 0 arg.int else arg.int

/-- A negative argument is a `-` and its magnitude. -/
def Width.left (arg : Arg) : Width → Bool
  | absent => false
  | written .. => false
  | argument => decide (arg.int < 0)

def Precision.value (arg : Arg) : Precision → Int
  | absent => -1
  | written digits _ => atLeastZero (intOfDigits digits)
  | argument => atLeastZero arg.int

structure IntegerFormat where
  flags : List UInt8
  isFlags : ∀ c ∈ flags, c = byte '-' ∨ c = byte '0'
  width : Width
  precision : Precision
  conversion : IntegerConversion

/-! ## The text of a format -/

theorem zero_notMem_of_isdigit {digits : List UInt8} (areDigits : ∀ c ∈ digits, isdigit c = true) : 0 ∉ digits :=
  fun member => isdigit_ne_zero (areDigits 0 member) rfl

theorem Width.noNul (width : Width) : 0 ∉ width.bytes := by
  cases width with
  | absent => exact List.not_mem_nil
  | written first rest isFirst areDigits =>
    exact zero_notMem_of_isdigit (List.forall_mem_cons.mpr ⟨isFirst.1, areDigits⟩)
  | argument => decide

theorem Precision.noNul (precision : Precision) : 0 ∉ precision.bytes := by
  cases precision with
  | absent => exact List.not_mem_nil
  | written digits areDigits =>
    exact List.not_mem_cons_of_ne_of_not_mem (by decide) (zero_notMem_of_isdigit areDigits)
  | argument => decide

theorem IntegerConversion.noNul (conversion : IntegerConversion) : 0 ∉ conversion.bytes := by
  cases conversion <;> decide

def IntegerFormat.text (format : IntegerFormat) : CString where
  bytes := byte '%' :: (format.flags ++ (format.width.bytes ++ (format.precision.bytes ++ format.conversion.bytes)))
  noNul := by
    simp only [List.mem_cons, List.mem_append, not_or]
    refine ⟨by decide, fun member => ?_, format.width.noNul, format.precision.noNul, format.conversion.noNul⟩
    rcases format.isFlags 0 member with minus | zero
    · exact absurd minus (by decide)
    · exact absurd zero (by decide)

/-- The format that reads such a number. -/
def IntegerConversion.scanFormat (conversion : IntegerConversion) : CString where
  bytes := byte '%' :: conversion.bytes
  noNul := List.not_mem_cons_of_ne_of_not_mem (by decide) conversion.noNul

/-! ## Reading by position -/

/-- What is left of a format and its NUL at an index. -/
def CString.from (fmt : CString) (i : Nat) : List UInt8 := (fmt.bytes ++ [0]).drop i

section From
variable {fmt : CString} {i : Nat} {c : UInt8} {rest : List UInt8}

theorem CString.at_from (here : fmt.from i = c :: rest) : fmt.at i = .ok c := by
  have entry : (fmt.bytes ++ [0])[i]? = some c := by
    rw [← List.head?_drop]
    exact congrArg List.head? here
  unfold CString.at
  rw [entry]

theorem CString.from_succ (here : fmt.from i = c :: rest) : fmt.from (i + 1) = rest := by
  unfold CString.from at *
  rw [← List.tail_drop, here, List.tail_cons]

/-- The characters of a flag. -/
def isFlag (c : UInt8) : Bool := c == byte '-' || c == byte '+' || c == byte ' ' || c == byte '#' || c == byte '0'

theorem flagsLoop_from {fuel : Nat} {flags : List UInt8} (read : Flags)
    (isFlags : ∀ c ∈ flags, c = byte '-' ∨ c = byte '0') (here : fmt.from (i + 1) = flags ++ c :: rest)
    (stop : isFlag c = false) (enough : flags.length < fuel) :
    flagsLoop fmt fuel i read =
      .ok ({ read with
              left := read.left || decide (byte '-' ∈ flags)
              zeropad := read.zeropad || decide (byte '0' ∈ flags) }, i + 1 + flags.length) := by
  induction flags generalizing fuel i read with
  | nil =>
    obtain ⟨fuel, rfl⟩ := Nat.exists_eq_add_of_lt enough
    simp only [isFlag, Bool.or_eq_false_iff, beq_eq_false_iff_ne] at stop
    rw [flagsLoop, fmt.at_from here, Halt.ok_bind]
    simp [stop]
  | cons flag flags ih =>
    obtain ⟨fuel, rfl⟩ : ∃ less, fuel = less + 1 := ⟨fuel - 1, by omega⟩
    have later := fmt.from_succ here
    have behind : ∀ read, flagsLoop fmt fuel (i + 1) read = _ := fun read =>
      ih read (fun c member => isFlags c (List.mem_cons_of_mem _ member)) later (Nat.lt_of_succ_lt_succ enough)
    rw [flagsLoop, fmt.at_from here, Halt.ok_bind]
    have other : byte '0' ≠ byte '-' := by decide
    rcases isFlags flag List.mem_cons_self with rfl | rfl
    · rw [if_pos rfl, behind]
      simp [other]
      omega
    · rw [if_neg (by decide), if_neg (by decide), if_neg (by decide), if_neg (by decide), if_pos rfl, behind]
      simp [other.symm]
      omega

/-- One turn of `skip_atoi`. -/
def atoiStep (value : Int) (c : UInt8) : Int := (value * 10 + charValue c - 48).bmod (2 ^ 32)

theorem skipAtoi_from {fuel : Nat} {digits : List UInt8} (value : Int) (areDigits : ∀ c ∈ digits, isdigit c = true)
    (here : fmt.from i = digits ++ c :: rest) (stop : isdigit c = false) (enough : digits.length < fuel) :
    skipAtoi fmt fuel i value = .ok (digits.foldl atoiStep value, i + digits.length) := by
  induction digits generalizing fuel i value with
  | nil =>
    obtain ⟨fuel, rfl⟩ := Nat.exists_eq_add_of_lt enough
    rw [skipAtoi, fmt.at_from here, Halt.ok_bind, stop]
    rfl
  | cons digit digits ih =>
    obtain ⟨fuel, rfl⟩ : ∃ less, fuel = less + 1 := ⟨fuel - 1, by omega⟩
    rw [skipAtoi, fmt.at_from here, Halt.ok_bind, if_pos (areDigits digit List.mem_cons_self),
      ih _ (fun c member => areDigits c (List.mem_cons_of_mem _ member)) (fmt.from_succ here)
        (Nat.lt_of_succ_lt_succ enough), List.foldl_cons, List.length_cons, Nat.add_assoc, Nat.add_comm 1]
    rfl

theorem atoiStep_eq {digit : UInt8} (isDigit : isdigit digit = true) (value : Nat) :
    atoiStep (Int.bmod value (2 ^ 32)) digit = Int.bmod (value * 10 + (digitValue digit).getD 0 : Nat) (2 ^ 32) := by
  have range := (isdigit_iff digit).mp isDigit
  have read : digitValue digit = some (digit.toNat - 48) := if_pos range
  unfold atoiStep
  rw [read, Option.getD_some, charValue_eq, if_pos (by omega), Int.bmod_def, Int.bmod_def, Int.bmod_def]
  omega

theorem foldl_atoiStep {digits : List UInt8} (areDigits : ∀ c ∈ digits, isdigit c = true) (value : Nat) :
    digits.foldl atoiStep (Int.bmod value (2 ^ 32)) =
      Int.bmod (digits.foldl (fun value c => value * 10 + (digitValue c).getD 0) value : Nat) (2 ^ 32) := by
  induction digits generalizing value with
  | nil => rw [List.foldl_nil, List.foldl_nil]
  | cons digit digits ih =>
    rw [List.foldl_cons, List.foldl_cons, atoiStep_eq (areDigits digit List.mem_cons_self),
      ih fun c member => areDigits c (List.mem_cons_of_mem _ member)]

theorem skipAtoi_digits {digits : List UInt8} (areDigits : ∀ c ∈ digits, isdigit c = true)
    (here : fmt.from i = digits ++ c :: rest) (stop : isdigit c = false) :
    skipAtoi fmt (fuelOf fmt) i 0 = .ok (intOfDigits digits, i + digits.length) := by
  have enough : digits.length < fuelOf fmt := by
    have length := congrArg List.length here
    unfold CString.from at length
    rw [List.length_drop, List.length_append, List.length_append, List.length_singleton, List.length_cons] at length
    unfold fuelOf
    omega
  rw [skipAtoi_from 0 areDigits here stop enough]
  exact congrArg (fun value => Except.ok (value, _)) (foldl_atoiStep areDigits 0)

theorem readWidth_from {args : Nat → Arg} {flags : Flags} {k : Nat} (width : Width)
    (here : fmt.from i = width.bytes ++ c :: rest) (stop : isdigit c = false) (noStar : c ≠ byte '*') :
    readWidth fmt args { flags, fieldWidth := -1, precision := -1, qualifier := .none, i, k } =
      .ok { flags := { flags with left := flags.left || width.left (args k) }
            fieldWidth := width.value (args k)
            precision := -1
            qualifier := .none
            i := i + width.bytes.length
            k := k + width.taken } := by
  cases width with
  | absent =>
    rw [readWidth, fmt.at_from here, Halt.ok_bind, stop, if_neg Bool.false_ne_true, if_neg noStar, Width.left,
      Bool.or_false]
    rfl
  | written first digits isFirst areDigits =>
    have all : ∀ c ∈ first :: digits, isdigit c = true := List.forall_mem_cons.mpr ⟨isFirst.1, areDigits⟩
    have read := skipAtoi_digits all here stop
    rw [readWidth, fmt.at_from here, Halt.ok_bind, if_pos isFirst.1, read, Halt.ok_bind, Width.left, Bool.or_false]
    rfl
  | argument =>
    have other : isdigit (byte '*') = false := by decide +kernel
    rw [readWidth, fmt.at_from here, Halt.ok_bind, other, if_neg Bool.false_ne_true, if_pos rfl, Width.left,
      Width.value]
    dsimp only
    by_cases negative : (args k).int < 0
    · rw [if_pos negative, if_pos negative, decide_eq_true negative, Bool.or_true]
      rfl
    · rw [if_neg negative, if_neg negative, decide_eq_false negative, Bool.or_false]
      rfl

theorem readPrecision_from {args : Nat → Arg} {flags : Flags} {k : Nat} {fieldWidth : Int} (precision : Precision)
    (here : fmt.from i = precision.bytes ++ c :: rest) (stop : isdigit c = false) (noStar : c ≠ byte '*')
    (noPoint : c ≠ byte '.') :
    readPrecision fmt args { flags, fieldWidth, precision := -1, qualifier := .none, i, k } =
      .ok { flags
            fieldWidth
            precision := precision.value (args k)
            qualifier := .none
            i := i + precision.bytes.length
            k := k + precision.taken } := by
  cases precision with
  | absent =>
    rw [readPrecision, fmt.at_from here, Halt.ok_bind, if_neg noPoint]
    rfl
  | written digits areDigits =>
    have later := fmt.from_succ here
    have read := skipAtoi_digits areDigits later stop
    rw [readPrecision, fmt.at_from here, Halt.ok_bind, if_pos rfl]
    cases digits with
    | nil =>
      rw [fmt.at_from later, Halt.ok_bind, stop, if_neg Bool.false_ne_true, if_neg noStar]
      rfl
    | cons digit digits =>
      have first := areDigits digit List.mem_cons_self
      rw [fmt.at_from later, Halt.ok_bind, if_pos first, read, Halt.ok_bind, Precision.bytes, List.length_cons,
        Nat.add_assoc, Nat.add_comm 1]
      rfl
  | argument =>
    have other : isdigit (byte '*') = false := by decide +kernel
    rw [readPrecision, fmt.at_from here, Halt.ok_bind, if_pos rfl, fmt.at_from (fmt.from_succ here), Halt.ok_bind,
      other, if_neg Bool.false_ne_true, if_pos rfl]
    rfl

theorem readQualifier_from {flags : Flags} {k : Nat} {fieldWidth precision : Int} (conversion : IntegerConversion)
    (here : fmt.from i = conversion.bytes ++ [0]) :
    readQualifier fmt { flags, fieldWidth, precision, qualifier := .none, i, k } =
      .ok { flags
            fieldWidth
            precision
            qualifier := conversion.qualifier
            i := i + conversion.bytes.length - 1
            k } ∧ fmt.from (i + conversion.bytes.length - 1) = [conversion.letter, 0] := by
  have plain : conversion.letter ≠ byte 'h' ∧ conversion.letter ≠ byte 'l' ∧ conversion.letter ≠ byte 'L' ∧
      conversion.letter ≠ byte 'Z' ∧ conversion.letter ≠ byte 'q' := by
    cases conversion <;> decide
  unfold IntegerConversion.bytes IntegerConversion.qualifier at *
  cases long : conversion.long with
  | true =>
    rw [long] at here
    have later : fmt.from (i + 1) = [conversion.letter, 0] := fmt.from_succ here
    refine ⟨?_, later⟩
    rw [readQualifier, fmt.at_from here, Halt.ok_bind, if_neg (by decide), if_pos rfl]
    dsimp only
    rw [fmt.at_from later, Halt.ok_bind, if_neg plain.2.1, Halt.ok_bind]
    dsimp only
    rw [fmt.at_from later, Halt.ok_bind, if_neg plain.2.2.2.2]
    rfl
  | false =>
    rw [long] at here
    refine ⟨?_, here⟩
    rw [readQualifier, fmt.at_from here, Halt.ok_bind, if_neg plain.1, if_neg plain.2.1, if_neg plain.2.2.1,
      if_neg plain.2.2.2.1, Halt.ok_bind]
    dsimp only
    rw [fmt.at_from here, Halt.ok_bind, if_neg plain.2.2.2.2]
    rfl

end From

/-! ## The output -/

namespace IntegerFormat

section Output
variable (format : IntegerFormat) (args : Nat → Arg)

/-- The flags, with the sign and the case of the conversion. -/
def type : Flags :=
  { left := decide (byte '-' ∈ format.flags) || format.width.left (args 0)
    zeropad := decide (byte '0' ∈ format.flags)
    sign := format.conversion.sign
    large := format.conversion.large }

def fieldWidth : Int := format.width.value (args 0)

def precisionValue : Int := format.precision.value (args format.width.taken)

/-- The argument that is printed. -/
def argument : Arg := args (format.width.taken + format.precision.taken)

/-- The number in it. -/
def number : BitVec 64 := integerArg format.conversion.qualifier format.conversion.sign (format.argument args)

end Output

end IntegerFormat

theorem IntegerConversion.first (conversion : IntegerConversion) : ∃ c rest, conversion.bytes ++ [0] = c :: rest ∧
    isdigit c = false ∧ c ≠ byte '*' ∧ c ≠ byte '.' ∧ isFlag c = false := by
  cases conversion <;> exact ⟨_, _, rfl, by decide +kernel, by decide, by decide, by decide⟩

theorem Precision.first (precision : Precision) (conversion : IntegerConversion) :
    ∃ c rest, precision.bytes ++ (conversion.bytes ++ [0]) = c :: rest ∧ isdigit c = false ∧ c ≠ byte '*' ∧
      isFlag c = false := by
  have point : isdigit (byte '.') = false := by decide +kernel
  cases precision with
  | absent =>
    obtain ⟨c, rest, bytes, noDigit, noStar, _, noFlag⟩ := conversion.first
    exact ⟨c, rest, bytes, noDigit, noStar, noFlag⟩
  | written digits areDigits => exact ⟨byte '.', _, rfl, point, by decide, by decide⟩
  | argument => exact ⟨byte '.', _, rfl, point, by decide, by decide⟩

theorem Width.first (width : Width) {tail : List UInt8} (noFlag : ∃ c rest, tail = c :: rest ∧ isFlag c = false) :
    ∃ c rest, width.bytes ++ tail = c :: rest ∧ isFlag c = false := by
  cases width with
  | absent => exact noFlag
  | written first digits isFirst areDigits =>
    refine ⟨first, digits ++ tail, rfl, ?_⟩
    have range := (isdigit_iff first).mp isFirst.1
    have other : ∀ c : UInt8, c.toNat < 48 → (first == c) = false := by
      intro c below
      refine beq_eq_false_iff_ne.mpr ?_
      rintro rfl
      omega
    unfold isFlag
    rw [other _ (by decide), other _ (by decide), other _ (by decide), other _ (by decide),
      beq_eq_false_iff_ne.mpr isFirst.2]
    rfl
  | argument => exact ⟨byte '*', tail, rfl, by decide⟩

theorem CString.from_append {fmt : CString} {i : Nat} {first second : List UInt8}
    (here : fmt.from i = first ++ second) :
    fmt.from (i + first.length) = second := by
  unfold CString.from at *
  rw [← List.drop_drop, here, List.drop_left]

theorem IntegerFormat.directive_eq (format : IntegerFormat) (args : Nat → Arg) :
    ∃ i, directive format.text args 0 0 =
        .ok { flags := { format.type args with sign := false, large := false }
              fieldWidth := format.fieldWidth args
              precision := format.precisionValue args
              qualifier := format.conversion.qualifier
              i
              k := format.width.taken + format.precision.taken } ∧
      format.text.from i = [format.conversion.letter, 0] := by
  obtain ⟨afterPrecision, endRest, endBytes, endDigit, endStar, endPoint, _⟩ := format.conversion.first
  obtain ⟨afterWidth, tailRest, tailBytes, tailDigit, tailStar, tailFlag⟩ := format.precision.first format.conversion
  obtain ⟨afterFlags, widthRest, widthBytes, widthFlag⟩ := format.width.first ⟨_, _, tailBytes, tailFlag⟩
  have whole : format.text.from (0 + 1) = format.flags ++ (format.width.bytes ++ (format.precision.bytes ++
      (format.conversion.bytes ++ [0]))) := by
    simp only [CString.from, IntegerFormat.text, List.cons_append, List.append_assoc]
    rfl
  have atWidth := format.text.from_append whole
  have atPrecision := format.text.from_append atWidth
  have atConversion := format.text.from_append atPrecision
  have enough : format.flags.length < fuelOf format.text := by
    simp only [fuelOf, IntegerFormat.text, List.length_cons, List.length_append]
    omega
  have flagsRead := flagsLoop_from {} format.isFlags (whole.trans (congrArg _ widthBytes)) widthFlag enough
  rw [directive, flagsRead, Halt.ok_bind]
  dsimp only
  rw [readWidth_from format.width (atWidth.trans (congrArg _ tailBytes)) tailDigit tailStar, Halt.ok_bind,
    readPrecision_from format.precision (atPrecision.trans (congrArg _ endBytes)) endDigit endStar endPoint,
    Halt.ok_bind, Nat.zero_add]
  obtain ⟨read, last⟩ := readQualifier_from format.conversion atConversion
  exact ⟨_, read, last⟩

/-- The output is the text of the number. -/
theorem IntegerFormat.output_eq (format : IntegerFormat) (args : Nat → Arg) :
    output format.text args = .ok (numberText (format.number args) format.conversion.base (format.fieldWidth args)
      (format.precisionValue args) (format.type args)) := by
  obtain ⟨i, parsed, last⟩ := format.directive_eq args
  have first : format.text.at 0 = .ok (byte '%') := rfl
  have known : specifierOf format.conversion.letter =
      .integer format.conversion.base format.conversion.sign format.conversion.large := by
    cases format.conversion <;> decide
  have some_ : format.conversion.letter ≠ 0 := by
    cases format.conversion <;> decide
  obtain ⟨fuel, more⟩ : ∃ fuel, fuelOf format.text = fuel + 2 :=
    ⟨(format.flags ++ (format.width.bytes ++ (format.precision.bytes ++ format.conversion.bytes))).length, rfl⟩
  rw [output, more, textLoop, first, Halt.ok_bind, if_neg (by decide), if_neg (not_not_intro rfl), parsed,
    Halt.ok_bind]
  dsimp only
  rw [format.text.at_from last, Halt.ok_bind, if_neg some_, textLoop,
    format.text.at_from (format.text.from_succ last), Halt.ok_bind, if_pos rfl, Halt.ok_bind, List.append_nil,
    conversionText, known]
  rfl

end Stardust.Libc
