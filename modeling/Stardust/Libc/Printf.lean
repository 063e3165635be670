import Stardust.Kernel
import Stardust.Lib.GuardedWriter
import Stardust.Libc.Ctype
import Stardust.Libc.Strings

/-! # Formatted output

`vsnprintf`, `sprintf` and `number` of `printf.c`.  The format is read by index, and past its NUL that
is a fault.  Every byte goes out by `put`, the source's `if (str <= end) *str = c; ++str;`. -/
set_option autoImplicit false
namespace Stardust.Libc

open Stardust.Lib

/-! ## Arguments -/

/-- A slot that `va_arg` takes: its bits, and the string there if it is the address of one. -/
structure Arg where
  word : BitVec 64
  text : CString

/-- A number, where no string is. -/
def Arg.number (word : BitVec 64) : Arg := ⟨word, ⟨[], by decide⟩⟩

/-- `va_arg(args, int)` -/
def Arg.int (arg : Arg) : Int := (arg.word.setWidth 32).toInt

/-- The bits of `flags` and `type`. -/
structure Flags where
  zeropad : Bool := false
  sign : Bool := false
  plus : Bool := false
  space : Bool := false
  left : Bool := false
  special : Bool := false
  large : Bool := false
  deriving DecidableEq

/-- `qualifier`; `ll` and `q` are `long long` as `L` is. -/
inductive Qualifier
  | none
  | short
  | long
  | longLong
  | size
  deriving DecidableEq

/-- What `%n` stores in a variable of the caller. -/
structure Count where
  address : BitVec 64
  qualifier : Qualifier
  value : Int
  deriving DecidableEq

/-! ## The buffer -/

/-- `str`, `end` and what has been stored. -/
abbrev Out := GuardedWriter UInt8

def Out.put (out : Out) (c : UInt8) : Out := GuardedWriter.put (2 ^ 64) out c

/-- `while (len < width--)` with `c` put in each turn. -/
def padLoop (c : UInt8) (len : Int) : Nat → Out → Int → Out × Int
  | 0, out, width => (out, width)
  | fuel + 1, out, width =>
    if len < width then padLoop c len fuel (out.put c) (intSub width 1) else (out, intSub width 1)

def padWhile (c : UInt8) (len : Int) (out : Out) (width : Int) : Out × Int :=
  padLoop c len ((width - len).toNat + 1) out width

/-- `while (--width > 0)` with a blank put in each turn. -/
def blankLoop : Nat → Out → Int → Out × Int
  | 0, out, width => (out, width)
  | fuel + 1, out, width =>
    if 0 < intSub width 1 then blankLoop fuel (out.put (byte ' ')) (intSub width 1) else (out, intSub width 1)

def blanksBefore (out : Out) (width : Int) : Out × Int := blankLoop ((intSub width 1).toNat + 1) out width

/-! ## Numbers -/

/-- `small_digits` and `large_digits` -/
def digitsOf (large : Bool) : List UInt8 :=
  (if large then "0123456789ABCDEFGHIJKLMNOPQRSTUVWXYZ" else "0123456789abcdefghijklmnopqrstuvwxyz").toList.map byte

/-- `while (num2 != 0) { tmp[i++] = digits[num2%base2]; num2 /= base2; }`; a number of 64 bits
has at most 64 digits. -/
def reversedDigits (digits : List UInt8) (base : Nat) : Nat → Nat → List UInt8
  | 0, _ => []
  | fuel + 1, num =>
    if num = 0 then [] else digits.getD (num % base) 0 :: reversedDigits digits base fuel (num / base)

/-- `tmp` up to `i`. -/
def numberTmp (large : Bool) (base num : Nat) : List UInt8 :=
  if num = 0 then [byte '0'] else reversedDigits (digitsOf large) base 64 num

/-- `while (i-- > 0)` with `tmp[i]` put in each turn. -/
def putReversed (tmp : List UInt8) : Nat → Out → Out
  | 0, out => out
  | i + 1, out => putReversed tmp i (out.put (tmp.getD i 0))

/-- The sign, the magnitude and the size that is left for the rest. -/
def takeSign (num : BitVec 64) (size : Int) (type : Flags) : Option UInt8 × BitVec 64 × Int :=
  if type.sign then
    if num.toInt < 0 then (some (byte '-'), -num, intSub size 1)
    else if type.plus then (some (byte '+'), num, intSub size 1)
    else if type.space then (some (byte ' '), num, intSub size 1)
    else (none, num, size)
  else (none, num, size)

/-- `SPECIAL`: the size without the prefix. -/
def takePrefix (base : Nat) (size : Int) (type : Flags) : Int :=
  if type.special then
    if base = 16 then intSub size 2 else if base = 8 then intSub size 1 else size
  else size

def putSign (sign : Option UInt8) (out : Out) : Out :=
  match sign with
  | some c => out.put c
  | none => out

def putPrefix (base : Nat) (type : Flags) (out : Out) : Out :=
  if type.special then
    if base = 8 then out.put (byte '0')
    else if base = 16 then (out.put (byte '0')).put ((digitsOf type.large).getD 33 0)
    else out
  else out

def number (out : Out) (num : BitVec 64) (base : Nat) (size precision : Int) (type : Flags) : Out :=
  let type := if type.left then { type with zeropad := false } else type
  if base < 2 ∨ 36 < base then out
  else
    let c := if type.zeropad then byte '0' else byte ' '
    let (sign, num, size) := takeSign num size type
    let size := takePrefix base size type
    let tmp := numberTmp type.large base num.toNat
    let precision := if precision < tmp.length then (tmp.length : Int) else precision
    let size := intSub size precision
    let (out, size) := if !type.zeropad && !type.left then padWhile (byte ' ') 0 out size else (out, size)
    let out := putSign sign out
    let out := putPrefix base type out
    let (out, size) := if !type.left then padWhile c 0 out size else (out, size)
    let (out, _) := padWhile (byte '0') tmp.length out precision
    let out := putReversed tmp tmp.length out
    (padWhile (byte ' ') 0 out size).1

/-! ## Directives -/

/-- `fmt[i]` -/
def CString.at (fmt : CString) (i : Nat) : Except Halt UInt8 :=
  match (fmt.bytes ++ [0])[i]? with
  | some c => .ok c
  | none => .error .fault

/-- `skip_atoi`: the number and where it ends. -/
def skipAtoi (fmt : CString) : Nat → Nat → Int → Except Halt (Int × Nat)
  | 0, _, _ => .error .fuel
  | fuel + 1, i, value => do
    let c ← fmt.at i
    if isdigit c then skipAtoi fmt fuel (i + 1) ((value * 10 + charValue c - 48).bmod (2 ^ 32)) else .ok (value, i)

/-- From the label `repeat` on. -/
def flagsLoop (fmt : CString) : Nat → Nat → Flags → Except Halt (Flags × Nat)
  | 0, _, _ => .error .fuel
  | fuel + 1, i, flags => do
    let c ← fmt.at (i + 1)
    if c = byte '-' then flagsLoop fmt fuel (i + 1) { flags with left := true }
    else if c = byte '+' then flagsLoop fmt fuel (i + 1) { flags with plus := true }
    else if c = byte ' ' then flagsLoop fmt fuel (i + 1) { flags with space := true }
    else if c = byte '#' then flagsLoop fmt fuel (i + 1) { flags with special := true }
    else if c = byte '0' then flagsLoop fmt fuel (i + 1) { flags with zeropad := true }
    else .ok (flags, i + 1)

/-- A directive up to its last character, which is at `i`; `k` arguments have been taken. -/
structure Directive where
  flags : Flags
  fieldWidth : Int
  precision : Int
  qualifier : Qualifier
  i : Nat
  k : Nat

def fuelOf (fmt : CString) : Nat := fmt.bytes.length + 1

/-- The part of a directive about `field_width`. -/
def readWidth (fmt : CString) (args : Nat → Arg) (d : Directive) : Except Halt Directive := do
  let c ← fmt.at d.i
  if isdigit c then do
    let (width, i) ← skipAtoi fmt (fuelOf fmt) d.i 0
    .ok { d with fieldWidth := width, i }
  else if c = byte '*' then
    let width := (args d.k).int
    if width < 0 then
      .ok { d with fieldWidth := intSub 0 width, flags := { d.flags with left := true }, i := d.i + 1, k := d.k + 1 }
    else .ok { d with fieldWidth := width, i := d.i + 1, k := d.k + 1 }
  else .ok d

/-- `if (precision < 0) precision = 0;` -/
def atLeastZero (precision : Int) : Int := if precision < 0 then 0 else precision

def readPrecision (fmt : CString) (args : Nat → Arg) (d : Directive) : Except Halt Directive := do
  let c ← fmt.at d.i
  if c = byte '.' then do
    let c ← fmt.at (d.i + 1)
    if isdigit c then do
      let (precision, i) ← skipAtoi fmt (fuelOf fmt) (d.i + 1) 0
      .ok { d with precision := atLeastZero precision, i }
    else if c = byte '*' then
      .ok { d with precision := atLeastZero (args d.k).int, i := d.i + 2, k := d.k + 1 }
    else .ok { d with precision := atLeastZero d.precision, i := d.i + 1 }
  else .ok d

def readQualifier (fmt : CString) (d : Directive) : Except Halt Directive := do
  let c ← fmt.at d.i
  let d ←
    if c = byte 'h' then .ok { d with qualifier := .short, i := d.i + 1 }
    else if c = byte 'l' then do
      let c ← fmt.at (d.i + 1)
      if c = byte 'l' then .ok { d with qualifier := .longLong, i := d.i + 2 }
      else .ok { d with qualifier := .long, i := d.i + 1 }
    else if c = byte 'L' then .ok { d with qualifier := .longLong, i := d.i + 1 }
    else if c = byte 'Z' then .ok { d with qualifier := .size, i := d.i + 1 }
    else .ok d
  let c ← fmt.at d.i
  if c = byte 'q' then .ok { d with qualifier := .longLong, i := d.i + 1 } else .ok d

/-- The directive whose `%` is at `i`. -/
def directive (fmt : CString) (args : Nat → Arg) (i k : Nat) : Except Halt Directive := do
  let (flags, i) ← flagsLoop fmt (fuelOf fmt) i {}
  let d ← readWidth fmt args { flags, fieldWidth := -1, precision := -1, qualifier := .none, i, k }
  let d ← readPrecision fmt args d
  readQualifier fmt d

/-- The cases of the last switch. -/
inductive Specifier
  | char
  | string
  | pointer
  | count
  | percent
  | integer (base : Nat) (sign large : Bool)
  | other
  deriving DecidableEq

def specifierOf (c : UInt8) : Specifier :=
  if c = byte 'c' then .char
  else if c = byte 's' then .string
  else if c = byte 'p' then .pointer
  else if c = byte 'n' then .count
  else if c = byte '%' then .percent
  else if c = byte 'o' then .integer 8 false false
  else if c = byte 'X' then .integer 16 false true
  else if c = byte 'x' then .integer 16 false false
  else if c = byte 'd' ∨ c = byte 'i' then .integer 10 true false
  else if c = byte 'u' then .integer 10 false false
  else .other

def printChar (out : Out) (d : Directive) (arg : Arg) : Out :=
  let (out, width) := if !d.flags.left then blanksBefore out d.fieldWidth else (out, d.fieldWidth)
  let out := out.put (UInt8.ofBitVec (arg.word.setWidth 8))
  (blanksBefore out width).1

def strnlen : List UInt8 → Nat → Nat
  | _, 0 => 0
  | [], _ + 1 => 0
  | _ :: s, count + 1 => strnlen s count + 1

/-- `for (i = 0; i < len; ++i)` with `*s` put in each turn. -/
def putString : Nat → Out → List UInt8 → Out
  | 0, out, _ => out
  | len + 1, out, s => putString len (out.put (deref s)) s.tail

/-- `s`, or `"<NULL>"` for a null pointer. -/
def Arg.string (arg : Arg) : List UInt8 :=
  if arg.word = 0 then "<NULL>".toList.map byte else arg.text.bytes

def printString (out : Out) (d : Directive) (arg : Arg) : Out :=
  let len := intOfUlong (strnlen arg.string (ulongOfInt d.precision))
  let (out, width) := if !d.flags.left then padWhile (byte ' ') len out d.fieldWidth else (out, d.fieldWidth)
  let out := putString len.toNat out arg.string
  (padWhile (byte ' ') len out width).1

def printPointer (out : Out) (d : Directive) (arg : Arg) : Out :=
  if d.fieldWidth = -1 then number out arg.word 16 16 d.precision { d.flags with zeropad := true }
  else number out arg.word 16 d.fieldWidth d.precision d.flags

/-- `num` by the qualifier, converted if it is signed. -/
def integerArg (qualifier : Qualifier) (sign : Bool) (arg : Arg) : BitVec 64 :=
  match qualifier with
  | .longLong => arg.word
  | .long => arg.word
  | .size => arg.word
  | .short =>
    if sign then (arg.word.setWidth 16).signExtend 64 else (arg.word.setWidth 16).setWidth 64
  | .none =>
    if sign then (arg.word.setWidth 32).signExtend 64 else (arg.word.setWidth 32).setWidth 64

def printInteger (out : Out) (d : Directive) (base : Nat) (sign large : Bool) (arg : Arg) : Out :=
  number out (integerArg d.qualifier sign arg) base d.fieldWidth d.precision { d.flags with sign, large }

/-- What `%n` stores: `str - buf`, as an `int` unless the variable is longer. -/
def countOf (buf : Nat) (out : Out) (d : Directive) (arg : Arg) : Count :=
  { address := arg.word
    qualifier := d.qualifier
    value := match d.qualifier with
      | .long => ulongSub out.cursor buf
      | .size => ulongSub out.cursor buf
      | _ => intOfUlong (ulongSub out.cursor buf) }

/-! ## `vsnprintf` -/

structure Printing where
  out : Out
  counts : List Count

def Printing.put (p : Printing) (c : UInt8) : Printing := { p with out := p.out.put c }

/-- `for (; *fmt; ++fmt)`, at `i` and with `k` arguments taken. -/
def formatLoop (buf : Nat) (fmt : CString) (args : Nat → Arg) : Nat → Nat → Nat → Printing → Except Halt Printing
  | 0, _, _, _ => .error .fuel
  | fuel + 1, i, k, p => do
    let c ← fmt.at i
    if c = 0 then .ok p
    else if c ≠ byte '%' then formatLoop buf fmt args fuel (i + 1) k (p.put c)
    else do
      let d ← directive fmt args i k
      let c ← fmt.at d.i
      let arg := args d.k
      match specifierOf c with
      | .char => formatLoop buf fmt args fuel (d.i + 1) (d.k + 1) { p with out := printChar p.out d arg }
      | .string => formatLoop buf fmt args fuel (d.i + 1) (d.k + 1) { p with out := printString p.out d arg }
      | .pointer => formatLoop buf fmt args fuel (d.i + 1) (d.k + 1) { p with out := printPointer p.out d arg }
      | .count =>
        formatLoop buf fmt args fuel (d.i + 1) (d.k + 1) { p with counts := p.counts ++ [countOf buf p.out d arg] }
      | .percent => formatLoop buf fmt args fuel (d.i + 1) d.k (p.put (byte '%'))
      | .integer base sign large =>
        formatLoop buf fmt args fuel (d.i + 1) (d.k + 1) { p with out := printInteger p.out d base sign large arg }
      | .other =>
        if c ≠ 0 then formatLoop buf fmt args fuel (d.i + 1) d.k ((p.put (byte '%')).put c)
        -- `--fmt`, so that the loop meets the NUL again
        else formatLoop buf fmt args fuel (d.i - 1 + 1) d.k (p.put (byte '%'))

/-- `end` and `size` once `end` has been checked for going around. -/
def boundsOf (buf size : Nat) : Nat × Nat :=
  let last := ulongSub (ulongAdd buf size) 1
  if last < ulongSub buf 1 then (2 ^ 64 - 1, ulongAdd (ulongSub (2 ^ 64 - 1) buf) 1) else (last, size)

structure Printed where
  stored : Nat → Option UInt8
  counts : List Count
  ret : Int

def startOf (buf last : Nat) : Out := { cursor := buf, last, cells := fun _ => none }

/-- The NUL goes at `str`, or at `end` if `str` is past it. -/
def terminated (out : Out) (size : Nat) : Nat → Option UInt8 :=
  if out.cursor ≤ out.last then Function.update out.cells out.cursor (some 0)
  else if 0 < size then Function.update out.cells out.last (some 0)
  else out.cells

def vsnprintf (buf size : Nat) (fmt : CString) (args : Nat → Arg) : Except Halt Printed := do
  let bounds := boundsOf buf size
  let p ← formatLoop buf fmt args (fuelOf fmt) 0 0 { out := startOf buf bounds.1, counts := [] }
  .ok
    { stored := terminated p.out bounds.2
      counts := p.counts
      ret := intOfUlong (ulongSub p.out.cursor buf) }

def vsprintf (buf : Nat) (fmt : CString) (args : Nat → Arg) : Except Halt Printed :=
  vsnprintf buf (2 ^ 32 - 1) fmt args

def sprintf (buf : Nat) (fmt : CString) (args : Nat → Arg) : Except Halt Printed := vsprintf buf fmt args

end Stardust.Libc
