import Stardust.Libc.IntegerFormat

/-! # Printed numbers come back

`sscanf` of what `sprintf` makes of a number, for every flag, width and precision. -/
set_option autoImplicit false
namespace Stardust.Libc

/-! ## Scanning one number -/

section Scanning
variable {fmt : List UInt8} {qualifier : ScanQualifier} {letter : UInt8} {base : Nat} {sign : Bool}

theorem scanLoop_integer (noStar : deref fmt ≠ byte '*') (noWidth : scanWidth fmt = (-1, fmt))
    (qualified : scanQualifier fmt = (qualifier, [letter])) (known : scanCaseOf letter = .integer base sign)
    (fuel : Nat) (buf str : List UInt8) (some_ : str ≠ []) :
    scanLoop buf (fuel + 2) (byte '%' :: fmt) str { num := 0, stored := [] } =
      .ok (if numberStarts base sign (str.dropWhile isspace) then
          { num := 1, stored := [(scanNumber qualifier base sign (str.dropWhile isspace)).1] }
        else { num := 0, stored := [] }) := by
  have plain : isspace (byte '%') = false := by decide +kernel
  rw [scanLoop, if_neg (not_or.mpr ⟨List.cons_ne_nil _ _, some_⟩), deref_cons, plain]
  dsimp only
  rw [if_neg Bool.false_ne_true, if_neg Bool.false_ne_true]
  dsimp only
  rw [if_neg (not_not_intro rfl), if_neg noStar, noWidth]
  dsimp only
  rw [qualified]
  dsimp only
  rw [if_neg some_, known]
  dsimp only
  split
  · rw [scanLoop, if_pos (.inl rfl)]
    rfl
  · rfl

end Scanning

theorem scanned_nil (long : Bool) (base : Nat) (sign : Bool) :
    scanned long base sign [] = { num := 0, stored := [] } := by
  have stuck : numberStarts base sign [] = false := by
    cases sign <;> rfl
  exact if_neg (by rw [List.dropWhile_nil, stuck]; exact Bool.false_ne_true)

theorem IntegerConversion.sscanf_eq (conversion : IntegerConversion) (buf : CString) :
    sscanf buf conversion.scanFormat = .ok (scanned conversion.long conversion.base conversion.sign buf.bytes) := by
  unfold sscanf vsscanf
  by_cases none_ : buf.bytes = []
  · rw [scanLoop, if_pos (.inr none_), none_, scanned_nil]
  · have read : deref conversion.bytes ≠ byte '*' ∧ scanWidth conversion.bytes = (-1, conversion.bytes) ∧
        scanQualifier conversion.bytes = (if conversion.long then .long else .none, [conversion.letter]) ∧
        scanCaseOf conversion.letter = .integer conversion.base conversion.sign := by
      cases conversion <;> decide +kernel
    obtain ⟨fuel, more⟩ : ∃ fuel, conversion.scanFormat.bytes.length + 1 = fuel + 2 :=
      ⟨conversion.bytes.length, rfl⟩
    rw [more]
    exact scanLoop_integer read.1 read.2.1 read.2.2.1 read.2.2.2 fuel buf.bytes buf.bytes none_

/-! ## The string in memory -/

/-- The string that a pointer is the address of. -/
def StringAt (memory : Nat → Option UInt8) (a : Nat) (s : CString) : Prop :=
  ∀ i ≤ s.bytes.length, memory (a + i) = (s.bytes ++ [0])[i]?

/-- `sprintf` leaves its output in the buffer, cut to what its size allows. -/
theorem sprintf_stored {fmt : CString} {args : Nat → Arg} {text : List UInt8} {buf : Nat}
    (run : output fmt args = .ok text) (isBuf : buf ≠ 0) (fits : buf + text.length < 2 ^ 64) (noNul : 0 ∉ text) :
    ∃ printed s, sprintf buf fmt args = .ok printed ∧ StringAt printed.stored buf s ∧
      s.bytes = text.take (2 ^ 32 - 2) := by
  obtain ⟨printed, done, stored, _⟩ := vsnprintf_eq buf (2 ^ 32 - 1) run
  have noNul : 0 ∉ text.take (2 ^ 32 - 2) := fun member => noNul (List.mem_of_mem_take member)
  refine ⟨printed, ⟨text.take (2 ^ 32 - 2), noNul⟩, done, fun i within => ?_, rfl⟩
  rw [stored_eq (by omega) (by omega) stored fits (.inl isBuf), if_neg (by omega), storedText,
    if_pos (Nat.le_add_right _ _), Nat.add_sub_cancel_left, Nat.sub_sub]

/-! ## The number -/

namespace IntegerFormat

section Number
variable (format : IntegerFormat) (args : Nat → Arg)

/-- What is to be stored: the argument, of the bits of the conversion. -/
def stored : Stored :=
  .number (storedBits format.conversion.long)
    ((format.argument args).word.toNat % 2 ^ storedBits format.conversion.long)

theorem number_toNat : (format.number args).toNat % 2 ^ storedBits format.conversion.long =
    (format.argument args).word.toNat % 2 ^ storedBits format.conversion.long := by
  unfold number integerArg IntegerConversion.qualifier storedBits
  cases format.conversion.long with
  | true => rfl
  | false =>
    rw [if_neg Bool.false_ne_true, if_neg Bool.false_ne_true]
    dsimp only
    split
    · rw [BitVec.toNat_signExtend, BitVec.toNat_setWidth, BitVec.toNat_setWidth]
      split <;> omega
    · rw [BitVec.toNat_setWidth, BitVec.toNat_setWidth]
      omega

/-- A negative number of the conversion is no larger than its bits allow. -/
theorem negative_lt (negative : (format.number args).toInt < 0) (sign : format.conversion.sign = true) :
    (-format.number args).toNat < 2 ^ storedBits format.conversion.long ∧
      (-format.number args).toNat = (format.number args).toInt.natAbs ∧ 0 < (-format.number args).toNat := by
  have least : -2 ^ (storedBits format.conversion.long - 1) ≤ (format.number args).toInt := by
    unfold number integerArg IntegerConversion.qualifier storedBits
    cases format.conversion.long with
    | true => exact BitVec.le_toInt _
    | false =>
      rw [if_neg Bool.false_ne_true, if_neg Bool.false_ne_true, sign]
      dsimp only
      rw [if_pos rfl, BitVec.toInt_signExtend_of_le (by decide)]
      exact BitVec.le_toInt _
  have either : storedBits format.conversion.long = 64 ∨ storedBits format.conversion.long = 32 := by
    cases format.conversion.long with
    | true => exact .inl rfl
    | false => exact .inr rfl
  have value := BitVec.toInt_eq_toNat_cond (format.number args)
  have below := (format.number args).isLt
  rw [BitVec.toNat_neg]
  rcases either with bits | bits
  · rw [bits] at least ⊢
    omega
  · rw [bits] at least ⊢
    omega

theorem isBase : IsBase format.conversion.base := by
  unfold IsBase
  cases format.conversion <;> decide

theorem two_le_base : 2 ≤ format.conversion.base := by
  have base := format.isBase
  unfold IsBase at base
  omega

theorem base_eq (sign : format.conversion.sign = true) : format.conversion.base = 10 := by
  cases known : format.conversion <;> rw [known] at sign <;> first | rfl | nomatch sign

theorem fieldWidth_isInt : IsInt (format.fieldWidth args) := by
  unfold fieldWidth Width.value
  split
  · exact isInt_neg_one
  · exact bmod_isInt _
  · split
    · exact intSub_isInt _ _
    · exact Arg.int_isInt _

theorem precisionValue_isInt : IsInt (format.precisionValue args) := by
  unfold precisionValue Precision.value
  split
  · exact isInt_neg_one
  · exact atLeastZero_isInt (bmod_isInt _)
  · exact atLeastZero_isInt (Arg.int_isInt _)

/-- The digits with those that the precision adds. -/
def digitCount : Int :=
  max (format.precisionValue args)
    (digitList format.conversion.base (magnitude (format.type args) (format.number args))).length

/-- The digits. -/
def body : List Nat :=
  bodyDigits format.conversion.base (magnitude (format.type args) (format.number args))
    (format.digitCount args)

/-- What the width leaves for padding. -/
def room : Int := roomOf (format.type args) (format.number args) (format.fieldWidth args) (format.digitCount args)

theorem room_isInt : IsInt (format.room args) := intSub_isInt _ _

theorem digitCount_lt : format.digitCount args < 2 ^ 31 := by
  have few := numberTmp_length false format.conversion.base
    (magnitude (format.type args) (format.number args))
  rw [numberTmp_eq false format.two_le_base (magnitude_lt _ _), List.length_map] at few
  have precision := (format.precisionValue_isInt args).2
  unfold digitCount
  omega

theorem body_length : ((format.body args).length : Int) = format.digitCount args :=
  bodyDigits_length (le_max_right _ _)

theorem body_length_lt : (format.body args).length < 2 ^ 31 := by
  have length := format.body_length args
  have below := format.digitCount_lt args
  omega

theorem body_lt : ∀ digit ∈ format.body args, digit < format.conversion.base :=
  bodyDigits_lt format.two_le_base

theorem output_parts : output format.text args = .ok (partsText (isMinus (format.type args) (format.number args))
    (format.type args).effective (format.room args) (format.body args)) :=
  (format.output_eq args).trans (congrArg Except.ok
    (numberText_eq (format.number args) (format.fieldWidth args) format.isBase rfl rfl rfl))

/-- The counter of a padding loop goes around: a negative number, no `-`, and either no `0`
and a width that the sign and the digits bring down to the least `int`, or no width and as
many digits as an `int` can count. -/
def Overflows : Prop :=
  let digits : Int := max (format.precisionValue args) (Nat.digits 10 (format.number args).toInt.natAbs).length
  format.conversion.sign = true ∧ (format.number args).toInt < 0 ∧ (format.type args).left = false ∧
    (((format.type args).zeropad = false ∧ format.fieldWidth args + 2 ^ 31 = digits + 1) ∨
      (format.fieldWidth args = -1 ∧ digits = 2 ^ 31 - 1))

theorem isMinus_iff : isMinus (format.type args) (format.number args) = true ↔
    format.conversion.sign = true ∧ (format.number args).toInt < 0 := by
  rw [isMinus, Bool.and_eq_true, decide_eq_true_eq]
  rfl

theorem magnitude_minus (minus : isMinus (format.type args) (format.number args) = true) :
    magnitude (format.type args) (format.number args) = (-format.number args).toNat := by
  rw [magnitude, if_pos minus]

theorem digitCount_minus (minus : isMinus (format.type args) (format.number args) = true) :
    format.digitCount args =
      max (format.precisionValue args) (Nat.digits 10 (format.number args).toInt.natAbs).length := by
  obtain ⟨sign, negative⟩ := (format.isMinus_iff args).mp minus
  obtain ⟨_, same, pos⟩ := format.negative_lt args negative sign
  rw [digitCount, format.magnitude_minus args minus, format.base_eq sign, digitList, if_neg (by omega), same]

theorem room_minus (minus : isMinus (format.type args) (format.number args) = true) :
    (format.room args = -2 ^ 31 ↔ format.fieldWidth args + 2 ^ 31 = format.digitCount args + 1) ∧
      (format.digitCount args = 2 ^ 31 - 1 → (format.room args = 2 ^ 31 - 1 ↔ format.fieldWidth args = -1)) := by
  obtain ⟨low, high⟩ := format.fieldWidth_isInt args
  have most := format.digitCount_lt args
  have least : 0 ≤ format.digitCount args := by
    rw [← format.body_length args]
    exact Int.natCast_nonneg _
  unfold room roomOf intSub
  rw [if_pos minus, Int.bmod_def, Int.bmod_def]
  omega

theorem misread_iff (minus : isMinus (format.type args) (format.number args) = true) :
    Misread (format.type args).effective (format.room args) (format.body args).length ↔ format.Overflows args := by
  obtain ⟨sign, negative⟩ := (format.isMinus_iff args).mp minus
  obtain ⟨least, most⟩ := format.room_minus args minus
  have length := format.body_length args
  unfold Misread Overflows
  rw [← format.digitCount_minus args minus]
  cases right : (format.type args).left with
  | true =>
    have left : (format.type args).effective.left = true := by
      rw [Flags.effective, right, if_pos rfl]
    rw [left]
    simp
  | false =>
    have same : (format.type args).effective = format.type args := by
      rw [Flags.effective, right, if_neg Bool.false_ne_true]
    rw [same, right, least]
    constructor
    · rintro ⟨_, left | ⟨room, digits⟩⟩
      · exact ⟨sign, negative, rfl, .inl left⟩
      · have digits : format.digitCount args = 2 ^ 31 - 1 := by omega
        exact ⟨sign, negative, rfl, .inr ⟨(most digits).mp room, digits⟩⟩
    · rintro ⟨_, _, _, left | ⟨width, digits⟩⟩
      · exact ⟨rfl, .inl left⟩
      · exact ⟨rfl, .inr ⟨(most digits).mpr width, by omega⟩⟩

end Number

end IntegerFormat

theorem partsText_noNul {minus : Bool} {type : Flags} {room : Int} {body : List Nat}
    (small : ∀ digit ∈ body, digit < 16) : 0 ∉ partsText minus type room body := by
  have blank : (0 : UInt8) ≠ byte ' ' := by decide
  unfold partsText
  simp only [List.mem_append, not_or]
  refine ⟨fun member => blank (List.eq_of_mem_replicate member), ?_, ?_, ?_,
    fun member => blank (List.eq_of_mem_replicate member)⟩
  · cases minus <;> decide
  · intro member
    have filled := List.eq_of_mem_replicate member
    split at filled <;> exact absurd filled (by decide)
  · intro member
    obtain ⟨digit, own, zero⟩ := List.mem_map.mp member
    exact (digitAt_other type.large (small digit own)).1 zero

theorem partsText_length (minus : Bool) (type : Flags) {room : Int} {body : List Nat} (isRoom : IsInt room)
    (short : body.length < 2 ^ 31) : (partsText minus type room body).length < 2 ^ 32 := by
  have padding := padding_lt type isRoom
  unfold partsText
  simp only [List.length_append, List.length_map, List.length_replicate]
  cases minus <;> simp <;> omega

/-! ## The round trip -/

theorem ulongSub_toNat (value : BitVec 64) : ulongSub 0 ((-value).toNat % 2 ^ 64) = value.toNat := by
  have below := value.isLt
  unfold ulongSub
  rw [BitVec.toNat_neg]
  omega

theorem ulongSub_ne {long : Bool} {less num : Nat} (smaller : less < num) (below : num < 2 ^ storedBits long) :
    ulongSub 0 (less % 2 ^ 64) % 2 ^ storedBits long ≠ ulongSub 0 (num % 2 ^ 64) % 2 ^ storedBits long := by
  unfold ulongSub storedBits at *
  cases long with
  | true =>
    rw [if_pos rfl] at *
    omega
  | false =>
    rw [if_neg Bool.false_ne_true] at *
    omega

section RoundTrip
variable (format : IntegerFormat) (args : Nat → Arg) {limit : Nat}

theorem scanned_output_plain (isLimit : limit = 2 ^ 32 - 2)
    (plain : isMinus (format.type args) (format.number args) = false) :
    scanned format.conversion.long format.conversion.base format.conversion.sign
        ((partsText false (format.type args).effective (format.room args) (format.body args)).take limit) =
      { num := 1, stored := [format.stored args] } := by
  have value : valueOf format.conversion.base (format.body args) = (format.number args).toNat := by
    rw [IntegerFormat.body, valueOf_bodyDigits, magnitude, plain, if_neg Bool.false_ne_true]
  have isRoom := format.room_isInt args
  rw [scanned_plain format.conversion.long isRoom format.isBase (format.body_lt args) bodyDigits_ne_nil
    (format.body_length_lt args) isLimit, value, format.number_toNat args, IntegerFormat.stored]

theorem scanned_output_minus (isLimit : limit = 2 ^ 32 - 2)
    (minus : isMinus (format.type args) (format.number args) = true) :
    scanned format.conversion.long format.conversion.base format.conversion.sign
        ((partsText true (format.type args).effective (format.room args) (format.body args)).take limit) =
      { num := 1, stored := [format.stored args] } ↔
    ¬format.Overflows args := by
  obtain ⟨sign, negative⟩ := (format.isMinus_iff args).mp minus
  obtain ⟨below, _, pos⟩ := format.negative_lt args negative sign
  have isRoom := format.room_isInt args
  have value : valueOf format.conversion.base (format.body args) = (-format.number args).toNat := by
    rw [IntegerFormat.body, valueOf_bodyDigits, format.magnitude_minus args minus]
  have expected : format.stored args = .number (storedBits format.conversion.long)
      (ulongSub 0 ((-format.number args).toNat % 2 ^ 64) % 2 ^ storedBits format.conversion.long) := by
    rw [ulongSub_toNat, format.number_toNat args, IntegerFormat.stored]
  rw [← format.misread_iff args minus, sign]
  constructor
  · rintro read ⟨right, ⟨blank, least⟩ | ⟨most, length⟩⟩
    · rw [format.base_eq sign, scanned_blanks _ isRoom blank right least isLimit] at read
      exact absurd (congrArg Scanned.num read) Int.zero_ne_one
    · rw [scanned_less _ isRoom format.isBase (format.body_lt args) length isLimit right most, expected] at read
      have less : valueOf format.conversion.base (format.body args).dropLast < (-format.number args).toNat := by
        rw [IntegerFormat.body, format.magnitude_minus args minus]
        exact valueOf_dropLast format.two_le_base pos
      injection read with _ stored
      injection stored with stored _
      injection stored with _ same
      exact ulongSub_ne less below same
  · intro well
    rw [scanned_whole _ isRoom format.isBase (format.body_lt args) bodyDigits_ne_nil (format.body_length_lt args)
      isLimit well, value, expected]

/-- What is in the buffer after `sprintf`, when the buffer holds the output. -/
theorem sprintf_parts {buf : Nat} {text : List UInt8} (run : output format.text args = .ok text) (isBuf : buf ≠ 0)
    (fits : buf + text.length < 2 ^ 64) :
    ∃ printed s, sprintf buf format.text args = .ok printed ∧ StringAt printed.stored buf s ∧
      s.bytes = (partsText (isMinus (format.type args) (format.number args)) (format.type args).effective
        (format.room args) (format.body args)).take (2 ^ 32 - 2) := by
  cases (format.output_parts args).symm.trans run
  exact sprintf_stored run isBuf fits
    (partsText_noNul fun digit member => Nat.lt_of_lt_of_le (format.body_lt args digit member) format.isBase.le)

end RoundTrip

/-- `sscanf` of the output of `sprintf` returns 1 and stores the number again, unless the
width and the precision make a counter of the padding go around. -/
theorem sprintf_sscanf_iff (format : IntegerFormat) (args : Nat → Arg) (buf : Nat) (isBuf : buf ≠ 0) :
    ∃ text, output format.text args = .ok text ∧
      (buf + text.length < 2 ^ 64 → ∃ printed s, sprintf buf format.text args = .ok printed ∧
        StringAt printed.stored buf s ∧
        (sscanf s format.conversion.scanFormat = .ok { num := 1, stored := [format.stored args] } ↔
          ¬format.Overflows args)) := by
  refine ⟨_, format.output_parts args, fun fits => ?_⟩
  obtain ⟨printed, s, done, at_, bytes⟩ := sprintf_parts format args (format.output_parts args) isBuf fits
  refine ⟨printed, s, done, at_, ?_⟩
  rw [format.conversion.sscanf_eq, bytes, Except.ok.injEq]
  cases minus : isMinus (format.type args) (format.number args) with
  | true => exact scanned_output_minus format args rfl minus
  | false =>
    refine iff_of_true (scanned_output_plain format args rfl minus) ?_
    rintro ⟨sign, negative, _⟩
    exact Bool.false_ne_true (minus.symm.trans ((format.isMinus_iff args).mpr ⟨sign, negative⟩))

/-- `"%08ld"` -/
def eightWide : IntegerFormat where
  flags := [byte '0']
  isFlags := List.forall_mem_singleton.mpr (.inr rfl)
  width := .written (byte '8') [] (by decide +kernel) (List.forall_mem_nil _)
  precision := .absent
  conversion := .ld

def leastLong (_ : Nat) : Arg := .number 0x8000000000000000

/-- The most negative number comes back. -/
theorem sprintf_sscanf_iff_least :
    ∃ text printed s, output eightWide.text leastLong = .ok text ∧
      sprintf 4096 eightWide.text leastLong = .ok printed ∧ StringAt printed.stored 4096 s ∧
      sscanf s IntegerConversion.ld.scanFormat = .ok { num := 1, stored := [.number 64 (2 ^ 63)] } := by
  obtain ⟨text, run, holds⟩ := sprintf_sscanf_iff eightWide leastLong 4096 (by decide)
  have short : (output eightWide.text leastLong).toOption.map List.length = some 20 := by decide +kernel
  rw [run] at short
  have short : text.length = 20 := Option.some.inj short
  obtain ⟨printed, s, done, at_, read⟩ := holds (by omega)
  refine ⟨text, printed, s, run, done, at_, read.mpr ?_⟩
  rintro ⟨_, _, _, ⟨blank, _⟩ | ⟨width, _⟩⟩
  · exact absurd blank (by decide)
  · exact absurd width (by decide +kernel)

/-- `"%.2147483646ld"` -/
def longPrecision : IntegerFormat where
  flags := []
  isFlags := List.forall_mem_nil _
  width := .absent
  precision := .written ("2147483646".toList.map byte) (by decide +kernel)
  conversion := .ld

def minusFive (_ : Nat) : Arg := .number (-5)

/-- The blanks that the counter of the first loop asks for come behind the minus. -/
theorem minus_five_lost :
    ∃ text printed s, output longPrecision.text minusFive = .ok text ∧ 4096 + text.length < 2 ^ 64 ∧
      sprintf 4096 longPrecision.text minusFive = .ok printed ∧ StringAt printed.stored 4096 s ∧
      sscanf s IntegerConversion.ld.scanFormat = .ok { num := 0, stored := [] } := by
  have minus : isMinus (longPrecision.type minusFive) (longPrecision.number minusFive) = true := by decide
  have digits : longPrecision.digitCount minusFive = 2147483646 := by
    rw [longPrecision.digitCount_minus minusFive minus,
      show longPrecision.precisionValue minusFive = 2147483646 by decide +kernel,
      show (longPrecision.number minusFive).toInt.natAbs = 5 by decide]
    simp
  have least : longPrecision.room minusFive = -2 ^ 31 := by
    rw [(longPrecision.room_minus minusFive minus).1, digits]
    decide
  have isRoom := longPrecision.room_isInt minusFive
  have short := partsText_length true (longPrecision.type minusFive).effective isRoom
    (longPrecision.body_length_lt minusFive)
  have run := longPrecision.output_parts minusFive
  rw [minus] at run
  obtain ⟨printed, s, done, at_, bytes⟩ := sprintf_parts longPrecision minusFive run (by decide : 4096 ≠ 0) (by omega)
  refine ⟨_, printed, s, run, by omega, done, at_, ?_⟩
  rw [IntegerConversion.sscanf_eq, bytes, minus]
  exact congrArg Except.ok (scanned_blanks true isRoom rfl rfl least rfl)

end Stardust.Libc
