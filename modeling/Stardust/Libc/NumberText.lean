import Stardust.Libc.NumberRead

/-! # The parts of a printed number

What `number` prints without `#`, and what is read again when the end has been cut off. -/
set_option autoImplicit false
namespace Stardust.Libc

/-! ## The parts of a number -/

/-- The padding in front of the sign. -/
def leading (type : Flags) (size : Int) : Nat := if !type.zeropad && !type.left then size.toNat else 0

/-- The padding between the sign and the precision, of zeros or blanks. -/
def filling (type : Flags) (size : Int) : Nat := if !type.left then (sizeBehindBlanks type size).toNat else 0

/-- The padding behind the digits. -/
def trailing (type : Flags) (size : Int) : Nat := (sizeBehindFill type size).toNat

section Parts
variable {type : Flags} {size precision : Int} {base num : Nat}

theorem padRest_zero {size : Int} (isSize : IsInt size) :
    padRest 0 size = if size = -2 ^ 31 then 2 ^ 31 - 1 else min size 0 - 1 := by
  obtain ⟨low, high⟩ := isSize
  unfold padRest intSub
  rw [Int.bmod_def]
  split <;> omega

theorem leading_zeropad (padded : type.zeropad = true) : leading type size = 0 := by
  simp [leading, padded]

theorem leading_left (left : type.left = true) : leading type size = 0 := by
  simp [leading, left]

theorem filling_left (left : type.left = true) : filling type size = 0 := by
  simp [filling, left]

/-- Without `0` the second loop pads only if the counter of the first one goes around. -/
theorem filling_blank (isSize : IsInt size) (blank : type.zeropad = false) (right : type.left = false) :
    filling type size = if size = -2 ^ 31 then 2 ^ 31 - 1 else 0 := by
  unfold filling sizeBehindBlanks
  rw [blank, right, padRest_zero isSize]
  simp only [Bool.not_false, Bool.and_self, if_true]
  split <;> omega

theorem filling_zero (padded : type.zeropad = true) (right : type.left = false) : filling type size = size.toNat := by
  simp [filling, sizeBehindBlanks, padded, right]

theorem trailing_left (left : type.left = true) : trailing type size = size.toNat := by
  simp [trailing, sizeBehindFill, sizeBehindBlanks, left]

theorem trailing_zero (isSize : IsInt size) (padded : type.zeropad = true) (right : type.left = false) :
    trailing type size = if size = -2 ^ 31 then 2 ^ 31 - 1 else 0 := by
  unfold trailing sizeBehindFill sizeBehindBlanks
  rw [padded, right]
  simp only [Bool.not_true, Bool.not_false, Bool.false_and, Bool.false_eq_true, if_false, if_true]
  rw [padRest_zero isSize]
  split <;> omega

theorem trailing_blank (isSize : IsInt size) (blank : type.zeropad = false) (right : type.left = false) :
    trailing type size = if size = -2 ^ 31 + 1 then 2 ^ 31 - 1 else 0 := by
  unfold trailing sizeBehindFill sizeBehindBlanks
  rw [blank, right]
  simp only [Bool.not_false, Bool.and_self, if_true]
  rw [padRest_zero (padRest_isInt _ _), padRest_zero isSize]
  obtain ⟨low, high⟩ := isSize
  split <;> split <;> split <;> omega

/-- Only one of the loops pads. -/
theorem padding_lt (type : Flags) (isSize : IsInt size) :
    leading type size + filling type size + trailing type size < 2 ^ 31 := by
  have range := isSize
  obtain ⟨low, high⟩ := range
  cases right : type.left with
  | true =>
    rw [leading_left right, filling_left right, trailing_left right]
    omega
  | false =>
    cases padded : type.zeropad with
    | true =>
      rw [leading_zeropad padded, filling_zero padded right, trailing_zero isSize padded right]
      split <;> omega
    | false =>
      rw [filling_blank isSize padded right, trailing_blank isSize padded right]
      simp only [leading, padded, right, Bool.not_false, Bool.and_self, if_true]
      split <;> split <;> omega

/-- The padding is all in front of the digits and full only if the size is the largest, or
the least and goes around between the sign and the digits. -/
theorem padding_full (isSize : IsInt size) :
    leading type size + filling type size = 2 ^ 31 - 1 ↔
      type.left = false ∧ (size = 2 ^ 31 - 1 ∨ (type.zeropad = false ∧ size = -2 ^ 31)) := by
  have range := isSize
  obtain ⟨low, high⟩ := range
  cases right : type.left with
  | true =>
    rw [leading_left right, filling_left right]
    simp
  | false =>
    cases padded : type.zeropad with
    | true =>
      rw [leading_zeropad padded, filling_zero padded right]
      simp only [Bool.true_eq_false, false_and, or_false, true_and]
      omega
    | false =>
      rw [filling_blank isSize padded right]
      simp only [leading, padded, right, Bool.not_false, Bool.and_self, if_true, true_and]
      split <;> omega

end Parts

/-- The digits with the zeros of the precision, the highest first. -/
def bodyDigits (base num : Nat) (precision : Int) : List Nat :=
  List.replicate (precision - (digitList base num).length).toNat 0 ++ (digitList base num).reverse

/-- A number in its parts, where `room` is what is left for padding. -/
def partsText (minus : Bool) (type : Flags) (room : Int) (body : List Nat) : List UInt8 :=
  List.replicate (leading type room) (byte ' ') ++ ((if minus then [byte '-'] else []) ++
    (List.replicate (filling type room) (if type.zeropad then byte '0' else byte ' ') ++
      (body.map (digitAt type.large) ++ List.replicate (trailing type room) (byte ' '))))

section Text
variable {type : Flags} {room precision : Int} {base num : Nat}

theorem bodyDigits_ne_nil : bodyDigits base num precision ≠ [] :=
  List.append_ne_nil_of_right_ne_nil _ (List.reverse_ne_nil_iff.mpr (digitList_ne_nil base num))

theorem bodyDigits_lt (isBase : 2 ≤ base) : ∀ digit ∈ bodyDigits base num precision, digit < base := by
  intro digit member
  rcases List.mem_append.mp member with zero | own
  · rw [List.eq_of_mem_replicate zero]
    omega
  · exact digitList_lt isBase digit (List.mem_reverse.mp own)

theorem valueOf_bodyDigits : valueOf base (bodyDigits base num precision) = num := by
  rw [bodyDigits, valueOf_zeros, valueOf, List.reverse_reverse, ofDigits_digitList]

theorem bodyDigits_length (enough : (digitList base num).length ≤ precision) :
    ((bodyDigits base num precision).length : Int) = precision := by
  rw [bodyDigits, List.length_append, List.length_replicate, List.length_reverse]
  omega

/-- One digit less is another number, unless the number is zero. -/
theorem valueOf_dropLast (isBase : 2 ≤ base) (pos : 0 < num) :
    valueOf base (bodyDigits base num precision).dropLast < num := by
  have whole := valueOf_append base (bodyDigits base num precision).dropLast
    ((bodyDigits base num precision).getLast bodyDigits_ne_nil)
  rw [List.dropLast_append_getLast, valueOf_bodyDigits] at whole
  generalize valueOf base (bodyDigits base num precision).dropLast = less at whole ⊢
  have twice := Nat.mul_le_mul_left less isBase
  omega

theorem bodyDigits_map (large : Bool) (isBase : 2 ≤ base) (isNum : num < 2 ^ 64) :
    (bodyDigits base num precision).map (digitAt large) =
      padText (byte '0') (numberTmp large base num).length precision ++ (numberTmp large base num).reverse := by
  rw [numberTmp_eq large isBase isNum, bodyDigits, List.map_append, List.map_replicate, digitAt_zero, padText,
    List.length_map, List.map_reverse]

theorem numberParts_eq (minus : Bool) (plain : type.special = false) (isBase : 2 ≤ base) (isNum : num < 2 ^ 64) :
    numberParts (if minus then some (byte '-') else none) base (numberTmp type.large base num) room precision type =
      partsText minus type room (bodyDigits base num precision) := by
  have pads : ∀ c size, padText c 0 size = List.replicate size.toNat c := by
    intro c size
    rw [padText, Int.sub_zero]
  rw [partsText, bodyDigits_map type.large isBase isNum, numberParts, prefixText, plain]
  simp only [pads, Bool.false_eq_true, if_false, List.nil_append, List.append_assoc, leading, filling, trailing]
  congr 1
  · split <;> rfl
  · congr 1
    · cases minus <;> rfl
    · congr 1
      split <;> rfl

/-- Whether `number` prints a minus. -/
def isMinus (type : Flags) (num : BitVec 64) : Bool := type.sign && decide (num.toInt < 0)

/-- The number behind the sign. -/
def magnitude (type : Flags) (num : BitVec 64) : Nat := if isMinus type num then (-num).toNat else num.toNat

/-- What is left of the width. -/
def roomOf (type : Flags) (num : BitVec 64) (size precision : Int) : Int :=
  intSub (if isMinus type num then intSub size 1 else size) precision

theorem takeSign_eq (num : BitVec 64) (size : Int) (plus : type.plus = false) (space : type.space = false) :
    takeSign num size type =
      (if isMinus type num then some (byte '-') else none, BitVec.ofNat 64 (magnitude type num),
        if isMinus type num then intSub size 1 else size) := by
  have back : BitVec.ofNat 64 (magnitude type num) = if isMinus type num then -num else num := by
    unfold magnitude
    split <;> rw [BitVec.ofNat_toNat, BitVec.setWidth_eq]
  rw [back]
  unfold takeSign isMinus
  rw [plus, space]
  cases type.sign with
  | false => rfl
  | true => by_cases negative : num.toInt < 0 <;> simp [negative]

theorem magnitude_lt (type : Flags) (num : BitVec 64) : magnitude type num < 2 ^ 64 := by
  unfold magnitude
  split
  · exact (-num).isLt
  · exact num.isLt

theorem numberText_eq (num : BitVec 64) (size : Int) (isBase : IsBase base) (plus : type.plus = false)
    (space : type.space = false) (special : type.special = false) :
    let digits := max precision (digitList base (magnitude type num)).length
    numberText num base size precision type =
      partsText (isMinus type num) type.effective (roomOf type num size digits)
        (bodyDigits base (magnitude type num) digits) := by
  have least : 2 ≤ base := by
    unfold IsBase at isBase
    omega
  have same : type.effective.sign = type.sign ∧ type.effective.plus = false ∧ type.effective.space = false ∧
      type.effective.special = false := by
    unfold Flags.effective
    split <;> exact ⟨rfl, plus, space, special⟩
  have isMinus_eq : isMinus type.effective num = isMinus type num := by
    rw [isMinus, same.1]
    rfl
  have magnitude_eq : magnitude type.effective num = magnitude type num := by
    rw [magnitude, isMinus_eq]
    rfl
  have below := magnitude_lt type num
  have length : (numberTmp type.effective.large base (magnitude type num)).length =
      (digitList base (magnitude type num)).length := by
    rw [numberTmp_eq _ least below, List.length_map]
  intro digits
  have isDigits : precisionOf (numberTmp type.effective.large base (magnitude type num)) precision = digits := by
    unfold precisionOf
    rw [length]
    omega
  unfold numberText
  rw [if_neg (by have := isBase.le; omega)]
  dsimp only
  rw [takeSign_eq num size same.2.1 same.2.2.1, isMinus_eq, magnitude_eq]
  dsimp only
  rw [BitVec.toNat_ofNat, Nat.mod_eq_of_lt below, isDigits, numberParts_eq _ same.2.2.2 least below, takePrefix,
    same.2.2.2, if_neg Bool.false_ne_true]
  rfl

end Text

/-! ## Reading a number that has been cut -/

/-- A text of digits and blanks that is longer than the limit by one loses a blank, or its
last digit if no blank is behind it. -/
theorem take_number {front : List UInt8} (large : Bool) {digits : List Nat} {blanks limit : Nat}
    (short : front.length + digits.length + blanks ≤ limit + 1) (some_ : digits ≠ []) :
    (∃ left, (front ++ (digits.map (digitAt large) ++ List.replicate blanks (byte ' '))).take limit =
        front ++ (digits.map (digitAt large) ++ List.replicate left (byte ' ')) ∧
      ¬(blanks = 0 ∧ front.length + digits.length = limit + 1)) ∨
    ((front ++ (digits.map (digitAt large) ++ List.replicate blanks (byte ' '))).take limit =
        front ++ (digits.dropLast.map (digitAt large) ++ List.replicate 0 (byte ' ')) ∧
      blanks = 0 ∧ front.length + digits.length = limit + 1) := by
  have length : (front ++ (digits.map (digitAt large) ++ List.replicate blanks (byte ' '))).length =
      front.length + digits.length + blanks := by
    simp only [List.length_append, List.length_map, List.length_replicate, Nat.add_assoc]
  rcases Nat.lt_or_ge limit (front.length + digits.length + blanks) with long | fits
  · have last : limit = (front ++ (digits.map (digitAt large) ++ List.replicate blanks (byte ' '))).length - 1 := by
      omega
    have cut : (front ++ (digits.map (digitAt large) ++ List.replicate blanks (byte ' '))).take limit =
        front ++ (digits.map (digitAt large) ++ List.replicate blanks (byte ' ')).dropLast := by
      rw [last, ← List.dropLast_eq_take, List.dropLast_append_of_ne_nil]
      exact List.append_ne_nil_of_left_ne_nil (List.map_eq_nil_iff.not.mpr some_) _
    cases blanks with
    | zero =>
      refine .inr ⟨?_, rfl, by omega⟩
      rw [cut, List.replicate_zero, List.append_nil, List.append_nil, List.map_dropLast]
    | succ left =>
      refine .inl ⟨left, ?_, fun both => Nat.succ_ne_zero left both.1⟩
      rw [cut, List.replicate_succ', ← List.append_assoc, List.dropLast_concat]
  · refine .inl ⟨blanks, List.take_of_length_le (by omega), fun both => ?_⟩
    omega

theorem stops_blanks (count : Nat) : Stops (List.replicate count (byte ' ')) := by
  cases count with
  | zero => exact .inl rfl
  | succ count => exact .inr rfl

section Cut
variable {type : Flags} {room : Int} {base limit : Nat} {sign : Bool} {body : List Nat}

/-- Without a minus the filling is part of the blanks or of the digits. -/
theorem partsText_plain (type : Flags) (room : Int) (body : List Nat) : ∃ blanks zeros,
    blanks + zeros = leading type room + filling type room ∧
    partsText false type room body = List.replicate blanks (byte ' ') ++
      ((List.replicate zeros 0 ++ body).map (digitAt type.large) ++
        List.replicate (trailing type room) (byte ' ')) := by
  unfold partsText
  cases type.zeropad with
  | true =>
    refine ⟨leading type room, filling type room, rfl, ?_⟩
    rw [List.map_append, List.map_replicate, digitAt_zero, List.append_assoc]
    rfl
  | false =>
    refine ⟨leading type room + filling type room, 0, rfl, ?_⟩
    rw [List.replicate_add, List.append_assoc]
    rfl

/-- With a minus it has to be of zeros. -/
theorem partsText_minus (body : List Nat) (zeros : type.zeropad = true ∨ filling type room = 0) :
    partsText true type room body = (List.replicate (leading type room) (byte ' ') ++ [byte '-']) ++
      ((List.replicate (filling type room) 0 ++ body).map (digitAt type.large) ++
        List.replicate (trailing type room) (byte ' ')) := by
  unfold partsText
  rw [if_pos rfl, List.map_append, List.map_replicate, digitAt_zero, List.append_assoc, List.append_assoc]
  rcases zeros with padded | none_
  · rw [padded, if_pos rfl]
  · rw [none_, List.replicate_zero, List.replicate_zero]

theorem zeros_lt (zeros : Nat) (isBase : IsBase base) (small : ∀ digit ∈ body, digit < base) :
    ∀ digit ∈ List.replicate zeros 0 ++ body, digit < base := by
  intro digit member
  rcases List.mem_append.mp member with zero | own
  · rw [List.eq_of_mem_replicate zero]
    unfold IsBase at isBase
    omega
  · exact small digit own

/-- Numbers that are not negative are read back. -/
theorem scanned_plain (long : Bool) (isRoom : IsInt room) (isBase : IsBase base)
    (small : ∀ digit ∈ body, digit < base) (some_ : body ≠ []) (short : body.length < 2 ^ 31)
    (isLimit : limit = 2 ^ 32 - 2) :
    scanned long base sign ((partsText false type room body).take limit) =
      { num := 1, stored := [.number (storedBits long) (valueOf base body % 2 ^ storedBits long)] } := by
  obtain ⟨blanks, zeros, pads, text⟩ := partsText_plain type room body
  have padding := padding_lt type isRoom
  have fits : (partsText false type room body).length ≤ limit := by
    rw [text]
    simp only [List.length_append, List.length_map, List.length_replicate]
    omega
  rw [List.take_of_length_le fits, text, scanned_map long isBase (zeros_lt zeros isBase small)
    (List.append_ne_nil_of_right_ne_nil _ some_) (stops_blanks _), valueOf_zeros]

/-- Where a number with a minus is not read back: the counter of the first loop goes around
and the blanks come behind the minus, or the number is longer than `sprintf` allows. -/
def Misread (type : Flags) (room : Int) (length : Nat) : Prop :=
  type.left = false ∧ ((type.zeropad = false ∧ room = -2 ^ 31) ∨ (room = 2 ^ 31 - 1 ∧ length = 2 ^ 31 - 1))

/-- The blanks behind the minus. -/
theorem scanned_blanks (long : Bool) (isRoom : IsInt room) (blank : type.zeropad = false) (right : type.left = false)
    (least : room = -2 ^ 31) (isLimit : limit = 2 ^ 32 - 2) :
    scanned long 10 true ((partsText true type room body).take limit) = { num := 0, stored := [] } := by
  have none_ : leading type room = 0 := by
    rw [leading, blank, right, least]
    rfl
  obtain ⟨limit, rfl⟩ : ∃ less, limit = less + 2 := ⟨2 ^ 32 - 4, isLimit⟩
  have all : ∃ count, filling type room = count + 1 := by
    refine ⟨2 ^ 31 - 2, ?_⟩
    rw [filling_blank isRoom blank right, if_pos least]
    rfl
  obtain ⟨count, all⟩ := all
  unfold partsText
  rw [none_, all, blank, List.replicate_zero, List.nil_append, if_pos rfl, if_neg Bool.false_ne_true,
    List.replicate_succ, List.singleton_append, List.cons_append, List.take_succ_cons, List.take_succ_cons]
  exact scanned_minus_blank long _

theorem number_length_le (isRoom : IsInt room) (short : body.length < 2 ^ 31) (isLimit : limit = 2 ^ 32 - 2) :
    (List.replicate (leading type room) (byte ' ') ++ [byte '-']).length +
      (List.replicate (filling type room) 0 ++ body).length + trailing type room ≤ limit + 1 := by
  have padding := padding_lt type isRoom
  simp only [List.length_append, List.length_replicate, List.length_singleton]
  omega

/-- The last digit is lost only if the padding in front and the digits are as long as can be. -/
theorem cut_iff (type : Flags) (isRoom : IsInt room) (short : body.length < 2 ^ 31) (isLimit : limit = 2 ^ 32 - 2) :
    (trailing type room = 0 ∧ (List.replicate (leading type room) (byte ' ') ++ [byte '-']).length +
      (List.replicate (filling type room) 0 ++ body).length = limit + 1) ↔
      leading type room + filling type room = 2 ^ 31 - 1 ∧ body.length = 2 ^ 31 - 1 := by
  have padding := padding_lt type isRoom
  simp only [List.length_append, List.length_replicate, List.length_singleton]
  omega

theorem zeros_or_none (type : Flags) (isRoom : IsInt room)
    (zeros : ¬(type.left = false ∧ type.zeropad = false ∧ room = -2 ^ 31)) :
    type.zeropad = true ∨ filling type room = 0 := by
  cases padded : type.zeropad with
  | true => exact .inl rfl
  | false =>
    cases right : type.left with
    | true => exact .inr (filling_left right)
    | false =>
      have notLeast : room ≠ -2 ^ 31 := fun least => zeros ⟨right, padded, least⟩
      exact .inr ((filling_blank isRoom padded right).trans (if_neg notLeast))

/-- Any other number with a minus is read back. -/
theorem scanned_whole (long : Bool) (isRoom : IsInt room) (isBase : IsBase base)
    (small : ∀ digit ∈ body, digit < base) (some_ : body ≠ []) (short : body.length < 2 ^ 31)
    (isLimit : limit = 2 ^ 32 - 2) (well : ¬Misread type room body.length) :
    scanned long base true ((partsText true type room body).take limit) =
      { num := 1
        stored := [.number (storedBits long) (ulongSub 0 (valueOf base body % 2 ^ 64) % 2 ^ storedBits long)] } := by
  have zeros := zeros_or_none type isRoom fun all => well ⟨all.1, .inl all.2⟩
  rw [partsText_minus body zeros]
  rcases take_number type.large (number_length_le isRoom short isLimit)
    (List.append_ne_nil_of_right_ne_nil _ some_) with ⟨left, text, _⟩ | ⟨_, cut⟩
  · rw [text, List.append_assoc, List.singleton_append, scanned_minus long isBase (zeros_lt _ isBase small)
      (List.append_ne_nil_of_right_ne_nil _ some_) (stops_blanks _), valueOf_zeros]
  · obtain ⟨full, length⟩ := (cut_iff type isRoom short isLimit).mp cut
    obtain ⟨right, most | least⟩ := (padding_full isRoom).mp full
    · exact absurd ⟨right, .inr ⟨most, length⟩⟩ well
    · exact absurd ⟨right, .inl least⟩ well

/-- The longest number is read without its last digit. -/
theorem scanned_less (long : Bool) (isRoom : IsInt room) (isBase : IsBase base)
    (small : ∀ digit ∈ body, digit < base) (length : body.length = 2 ^ 31 - 1) (isLimit : limit = 2 ^ 32 - 2)
    (right : type.left = false) (most : room = 2 ^ 31 - 1) :
    scanned long base true ((partsText true type room body).take limit) =
      { num := 1
        stored := [.number (storedBits long)
          (ulongSub 0 (valueOf base body.dropLast % 2 ^ 64) % 2 ^ storedBits long)] } := by
  have some_ : body ≠ [] := List.ne_nil_of_length_pos (by omega)
  have less : body.dropLast ≠ [] := List.ne_nil_of_length_pos (by rw [List.length_dropLast]; omega)
  have zeros := zeros_or_none type isRoom fun all => absurd (all.2.2.symm.trans most) (by decide)
  have full := (padding_full isRoom).mpr ⟨right, .inl most⟩
  have cut := (cut_iff type isRoom (by omega) isLimit).mpr ⟨full, length⟩
  rw [partsText_minus body zeros]
  rcases take_number type.large (number_length_le isRoom (by omega) isLimit)
    (List.append_ne_nil_of_right_ne_nil _ some_) with ⟨_, _, whole⟩ | ⟨text, _⟩
  · exact absurd cut whole
  · rw [text, List.append_assoc, List.singleton_append, List.dropLast_append_of_ne_nil some_,
      scanned_minus long isBase
        (zeros_lt _ isBase fun digit member => small digit (List.mem_of_mem_dropLast member))
        (List.append_ne_nil_of_right_ne_nil _ less) (stops_blanks _), valueOf_zeros]

end Cut

end Stardust.Libc
