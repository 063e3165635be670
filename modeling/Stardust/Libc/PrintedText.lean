import Stardust.Libc.Printf

/-! # The text of a conversion

What each conversion puts out, in closed form: `Out.emit` of a text that does not depend on
the buffer.  The counters of the loops are `int`s, and where one starts at the least `int` it
goes around, as in the code. -/
set_option autoImplicit false
namespace Stardust.Libc

open Stardust.Lib

def Out.emit (out : Out) (text : List UInt8) : Out := GuardedWriter.emit (2 ^ 64) out text

theorem Out.emit_append (out : Out) (first second : List UInt8) :
    out.emit (first ++ second) = (out.emit first).emit second := GuardedWriter.emit_append ..

@[simp] theorem Out.emit_nil (out : Out) : out.emit [] = out := rfl

theorem Out.emit_cons (out : Out) (c : UInt8) (text : List UInt8) :
    out.emit (c :: text) = (out.put c).emit text := rfl

/-! ## `int`s -/

def IsInt (value : Int) : Prop := -2 ^ 31 ≤ value ∧ value < 2 ^ 31

theorem isInt_zero : IsInt 0 := by
  unfold IsInt
  decide

theorem isInt_neg_one : IsInt (-1) := by
  unfold IsInt
  decide

theorem bmod_isInt (value : Int) : IsInt (value.bmod (2 ^ 32)) := by
  unfold IsInt
  rw [Int.bmod_def]
  omega

theorem intSub_isInt (a b : Int) : IsInt (intSub a b) := by
  unfold intSub
  exact bmod_isInt _

theorem intOfUlong_isInt (a : Nat) : IsInt (intOfUlong a) := by
  unfold intOfUlong
  exact bmod_isInt _

theorem Arg.int_isInt (arg : Arg) : IsInt arg.int := by
  have low := BitVec.le_toInt (arg.word.setWidth 32)
  have high := BitVec.toInt_lt (x := arg.word.setWidth 32)
  unfold IsInt Arg.int
  omega

/-! ## Padding -/

section Padding
variable {c : UInt8} {len width : Int} {out : Out}

def padText (c : UInt8) (len width : Int) : List UInt8 := List.replicate (width - len).toNat c

/-- What the width is behind `while (len < width--)`. -/
def padRest (len width : Int) : Int := intSub (min width len) 1

theorem padLoop_eq {fuel : Nat} (isLen : IsInt len) (isWidth : IsInt width) (enough : (width - len).toNat < fuel) :
    padLoop c len fuel out width = (out.emit (padText c len width), padRest len width) := by
  obtain ⟨low, _⟩ := isLen
  obtain ⟨_, high⟩ := isWidth
  induction fuel generalizing out width with
  | zero => omega
  | succ fuel ih =>
    rw [padLoop]
    by_cases more : len < width
    · have less : intSub width 1 = width - 1 := intSub_eq (by omega) (by omega)
      rw [if_pos more, less, ih (by omega) (by omega) (by omega), padText, padText, padRest, padRest,
        show (width - len).toNat = (width - 1 - len).toNat + 1 by omega, List.replicate_succ, Out.emit_cons,
        Int.min_eq_right (by omega), Int.min_eq_right (by omega)]
    · rw [if_neg more, padText, padRest, Int.min_eq_left (by omega), show (width - len).toNat = 0 by omega]
      rfl

theorem padWhile_eq (isLen : IsInt len) (isWidth : IsInt width) :
    padWhile c len out width = (out.emit (padText c len width), padRest len width) :=
  padLoop_eq isLen isWidth (Nat.lt_succ_self _)

theorem padRest_isInt (len width : Int) : IsInt (padRest len width) := intSub_isInt _ _

def blanksText (width : Int) : List UInt8 := List.replicate (intSub width 1).toNat (byte ' ')

def blanksRest (width : Int) : Int := min (intSub width 1) 0

theorem blankLoop_eq {fuel : Nat} (enough : (intSub width 1).toNat < fuel) :
    blankLoop fuel out width = (out.emit (blanksText width), blanksRest width) := by
  induction fuel generalizing out width with
  | zero => omega
  | succ fuel ih =>
    rw [blankLoop]
    have range := intSub_isInt width 1
    unfold IsInt at range
    unfold blanksText blanksRest
    by_cases more : 0 < intSub width 1
    · have less : intSub (intSub width 1) 1 = intSub width 1 - 1 := intSub_eq (by omega) (by omega)
      rw [if_pos more, ih (by omega), blanksText, blanksRest, less,
        show (intSub width 1).toNat = (intSub width 1 - 1).toNat + 1 by omega, List.replicate_succ, Out.emit_cons,
        Int.min_eq_right (by omega)]
      congr 1
      omega
    · rw [if_neg more, show (intSub width 1).toNat = 0 by omega, Int.min_eq_left (by omega)]
      rfl

theorem blanksBefore_eq : blanksBefore out width = (out.emit (blanksText width), blanksRest width) :=
  blankLoop_eq (Nat.lt_succ_self _)

end Padding

/-! ## Numbers -/

/-- The size behind the first padding loop, which runs unless `0` or `-` is given. -/
def sizeBehindBlanks (type : Flags) (size : Int) : Int :=
  if !type.zeropad && !type.left then padRest 0 size else size

/-- The size behind the second one, which does not run for `-`. -/
def sizeBehindFill (type : Flags) (size : Int) : Int :=
  if !type.left then padRest 0 (sizeBehindBlanks type size) else sizeBehindBlanks type size

def prefixText (base : Nat) (type : Flags) : List UInt8 :=
  if type.special then
    if base = 8 then [byte '0']
    else if base = 16 then [byte '0', (digitsOf type.large).getD 33 0]
    else []
  else []

/-- The flags, with `-` before `0`. -/
def Flags.effective (type : Flags) : Flags := if type.left then { type with zeropad := false } else type

/-- The parts of a number, where `size` is what is left for padding. -/
def numberParts (sign : Option UInt8) (base : Nat) (tmp : List UInt8) (size precision : Int) (type : Flags) :
    List UInt8 :=
  (if !type.zeropad && !type.left then padText (byte ' ') 0 size else []) ++ (sign.toList ++ (prefixText base type ++
    ((if !type.left then padText (if type.zeropad then byte '0' else byte ' ') 0 (sizeBehindBlanks type size)
      else []) ++ (padText (byte '0') tmp.length precision ++
        (tmp.reverse ++ padText (byte ' ') 0 (sizeBehindFill type size))))))

/-- `precision`, at least the number of digits. -/
def precisionOf (tmp : List UInt8) (precision : Int) : Int :=
  if precision < tmp.length then (tmp.length : Int) else precision

def numberText (num : BitVec 64) (base : Nat) (size precision : Int) (type : Flags) : List UInt8 :=
  if base < 2 ∨ 36 < base then []
  else
    let type := type.effective
    let (sign, num, size) := takeSign num size type
    let tmp := numberTmp type.large base num.toNat
    let precision := precisionOf tmp precision
    numberParts sign base tmp (intSub (takePrefix base size type) precision) precision type

section Numbers
variable {base num : Nat} {size precision : Int} {type : Flags} {out : Out} {tmp : List UInt8}

theorem reversedDigits_length (digits : List UInt8) (base fuel num : Nat) :
    (reversedDigits digits base fuel num).length ≤ fuel := by
  induction fuel generalizing num with
  | zero => exact Nat.le_refl 0
  | succ fuel ih =>
    rw [reversedDigits]
    split
    · exact Nat.zero_le _
    · exact Nat.succ_le_succ (ih _)

/-- The digits fit `tmp[66]`. -/
theorem numberTmp_length (large : Bool) (base num : Nat) : (numberTmp large base num).length ≤ 64 := by
  unfold numberTmp
  split
  · exact Nat.le_of_ble_eq_true rfl
  · exact reversedDigits_length ..

theorem putReversed_eq (tmp : List UInt8) {i : Nat} (within : i ≤ tmp.length) :
    putReversed tmp i out = out.emit (tmp.take i).reverse := by
  induction i generalizing out with
  | zero => rfl
  | succ i ih =>
    have entry : tmp.getD i 0 = tmp[i] := by
      rw [List.getD_eq_getElem?_getD, List.getElem?_eq_getElem within, Option.getD_some]
    rw [putReversed, ih (by omega), entry, List.take_succ_eq_append_getElem within, List.reverse_append,
      List.reverse_singleton, List.singleton_append, Out.emit_cons]

theorem putSign_eq (sign : Option UInt8) : putSign sign out = out.emit sign.toList := by
  cases sign <;> rfl

theorem putPrefix_eq : putPrefix base type out = out.emit (prefixText base type) := by
  unfold putPrefix prefixText
  split_ifs <;> rfl

theorem precisionOf_isInt (isPrecision : IsInt precision) (few : tmp.length ≤ 64) :
    IsInt (precisionOf tmp precision) := by
  unfold IsInt precisionOf at *
  split <;> omega

theorem sizeBehindBlanks_isInt (isSize : IsInt size) : IsInt (sizeBehindBlanks type size) := by
  unfold sizeBehindBlanks
  split
  · exact padRest_isInt _ _
  · exact isSize

theorem sizeBehindFill_isInt (isSize : IsInt size) : IsInt (sizeBehindFill type size) := by
  unfold sizeBehindFill
  split
  · exact padRest_isInt _ _
  · exact sizeBehindBlanks_isInt isSize

theorem blanks_eq (isSize : IsInt size) :
    (if !type.zeropad && !type.left then padWhile (byte ' ') 0 out size else (out, size)) =
      (out.emit (if !type.zeropad && !type.left then padText (byte ' ') 0 size else []),
        sizeBehindBlanks type size) := by
  unfold sizeBehindBlanks
  split
  · exact padWhile_eq isInt_zero isSize
  · rfl

theorem fill_eq (c : UInt8) (isSize : IsInt size) :
    (if !type.left then padWhile c 0 out (sizeBehindBlanks type size) else (out, sizeBehindBlanks type size)) =
      (out.emit (if !type.left then padText c 0 (sizeBehindBlanks type size) else []), sizeBehindFill type size) := by
  unfold sizeBehindFill
  split
  · exact padWhile_eq isInt_zero (sizeBehindBlanks_isInt isSize)
  · rfl

theorem number_eq (num : BitVec 64) (isPrecision : IsInt precision) :
    number out num base size precision type = out.emit (numberText num base size precision type) := by
  unfold number numberText
  by_cases unfit : base < 2 ∨ 36 < base
  · rw [if_pos unfit, if_pos unfit]
    rfl
  · rw [if_neg unfit, if_neg unfit]
    rw [show (if type.left then { type with zeropad := false } else type) = type.effective from rfl]
    dsimp only
    generalize type.effective = type
    generalize takeSign num size type = signed
    obtain ⟨sign, num, size⟩ := signed
    dsimp only
    have few := numberTmp_length type.large base num.toNat
    generalize numberTmp type.large base num.toNat = tmp at few
    have isPrecision := precisionOf_isInt isPrecision few
    rw [show (if precision < tmp.length then (tmp.length : Int) else precision) = precisionOf tmp precision from rfl]
    generalize precisionOf tmp precision = precision at isPrecision
    have isSize := intSub_isInt (takePrefix base size type) precision
    generalize intSub (takePrefix base size type) precision = size at isSize
    have isLength : IsInt tmp.length := by
      unfold IsInt
      omega
    rw [blanks_eq isSize]
    dsimp only
    rw [putSign_eq, putPrefix_eq, fill_eq _ isSize]
    dsimp only
    rw [padWhile_eq isLength isPrecision, putReversed_eq tmp (Nat.le_refl _), List.take_length,
      padWhile_eq isInt_zero (sizeBehindFill_isInt isSize)]
    simp only [numberParts, Out.emit_append]

end Numbers

/-! ## The other conversions -/

def charText (d : Directive) (arg : Arg) : List UInt8 :=
  (if !d.flags.left then blanksText d.fieldWidth else []) ++ UInt8.ofBitVec (arg.word.setWidth 8) ::
    blanksText (if !d.flags.left then blanksRest d.fieldWidth else d.fieldWidth)

/-- `len` of the string case. -/
def stringLength (d : Directive) (arg : Arg) : Int := intOfUlong (strnlen arg.string (ulongOfInt d.precision))

def stringText (d : Directive) (arg : Arg) : List UInt8 :=
  let len := stringLength d arg
  (if !d.flags.left then padText (byte ' ') len d.fieldWidth else []) ++ (arg.string.take len.toNat ++
    padText (byte ' ') len (if !d.flags.left then padRest len d.fieldWidth else d.fieldWidth))

def pointerText (d : Directive) (arg : Arg) : List UInt8 :=
  if d.fieldWidth = -1 then numberText arg.word 16 16 d.precision { d.flags with zeropad := true }
  else numberText arg.word 16 d.fieldWidth d.precision d.flags

def integerText (d : Directive) (base : Nat) (sign large : Bool) (arg : Arg) : List UInt8 :=
  numberText (integerArg d.qualifier sign arg) base d.fieldWidth d.precision { d.flags with sign, large }

section Conversions
variable {out : Out} {d : Directive} {arg : Arg}

theorem printChar_eq : printChar out d arg = out.emit (charText d arg) := by
  unfold printChar charText
  cases d.flags.left with
  | false => simp only [Bool.not_false, if_true, blanksBefore_eq, Out.emit_append, Out.emit_cons]
  | true => simp only [Bool.not_true, Bool.false_eq_true, if_false, blanksBefore_eq, List.nil_append, Out.emit_cons]

theorem strnlen_le (s : List UInt8) (count : Nat) : strnlen s count ≤ s.length := by
  fun_induction strnlen s count with
  | case1 => exact Nat.zero_le _
  | case2 => exact Nat.zero_le _
  | case3 c s count ih => exact Nat.succ_le_succ ih

theorem putString_eq {n : Nat} {s : List UInt8} (within : n ≤ s.length) :
    putString n out s = out.emit (s.take n) := by
  induction n generalizing out s with
  | zero => rfl
  | succ n ih =>
    cases s with
    | nil => nomatch within
    | cons c s =>
      rw [putString, deref_cons, List.tail_cons, List.take_succ_cons, Out.emit_cons]
      exact ih (Nat.le_of_succ_le_succ within)

theorem padded_string_eq {len width : Int} {left : Bool} {s : List UInt8} (isLen : IsInt len) (isWidth : IsInt width)
    (within : len.toNat ≤ s.length) :
    (padWhile (byte ' ') len
        (putString len.toNat (if !left then padWhile (byte ' ') len out width else (out, width)).1 s)
        (if !left then padWhile (byte ' ') len out width else (out, width)).2).1 =
      out.emit ((if !left then padText (byte ' ') len width else []) ++ (s.take len.toNat ++
        padText (byte ' ') len (if !left then padRest len width else width))) := by
  cases left with
  | false =>
    simp only [Bool.not_false, if_true, padWhile_eq isLen isWidth, putString_eq within,
      padWhile_eq isLen (padRest_isInt _ _), Out.emit_append]
  | true =>
    simp only [Bool.not_true, Bool.false_eq_true, if_false, putString_eq within, padWhile_eq isLen isWidth,
      List.nil_append, Out.emit_append]

theorem printString_eq (isWidth : IsInt d.fieldWidth) : printString out d arg = out.emit (stringText d arg) := by
  have within := Nat.le_trans (intOfUlong_toNat_le (strnlen arg.string (ulongOfInt d.precision))) (strnlen_le _ _)
  exact padded_string_eq (intOfUlong_isInt _) isWidth within

theorem printPointer_eq (isPrecision : IsInt d.precision) :
    printPointer out d arg = out.emit (pointerText d arg) := by
  unfold printPointer pointerText
  split
  · exact number_eq _ isPrecision
  · exact number_eq _ isPrecision

theorem printInteger_eq (base : Nat) (sign large : Bool) (isPrecision : IsInt d.precision) :
    printInteger out d base sign large arg = out.emit (integerText d base sign large arg) :=
  number_eq _ isPrecision

end Conversions

/-- What a directive with the last character `c` puts out. -/
def conversionText (c : UInt8) (d : Directive) (arg : Arg) : List UInt8 :=
  match specifierOf c with
  | .char => charText d arg
  | .string => stringText d arg
  | .pointer => pointerText d arg
  | .count => []
  | .percent => [byte '%']
  | .integer base sign large => integerText d base sign large arg
  | .other => if c ≠ 0 then [byte '%', c] else [byte '%']

/-- How many arguments it takes there. -/
def argsTaken (c : UInt8) : Nat :=
  match specifierOf c with
  | .percent => 0
  | .other => 0
  | _ => 1

/-- The text of a format from `i` on. -/
def textLoop (fmt : CString) (args : Nat → Arg) : Nat → Nat → Nat → Except Halt (List UInt8)
  | 0, _, _ => .error .fuel
  | fuel + 1, i, k => do
    let c ← fmt.at i
    if c = 0 then .ok []
    else if c ≠ byte '%' then do
      let rest ← textLoop fmt args fuel (i + 1) k
      .ok (c :: rest)
    else do
      let d ← directive fmt args i k
      let c ← fmt.at d.i
      let rest ← textLoop fmt args fuel (if c = 0 then d.i else d.i + 1) (d.k + argsTaken c)
      .ok (conversionText c d (args d.k) ++ rest)

/-- What a format puts out. -/
def output (fmt : CString) (args : Nat → Arg) : Except Halt (List UInt8) := textLoop fmt args (fuelOf fmt) 0 0

end Stardust.Libc
