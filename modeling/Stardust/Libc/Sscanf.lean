import Stardust.Libc.Printf

/-! # Formatted input

`vsscanf` of `printf.c` and the readers of numbers under it.  A pointer into a string is the
list of the bytes that are left.  What is stored through the pointers among the arguments is
listed in order. -/
set_option autoImplicit false
namespace Stardust.Libc

/-! ## Numbers -/

/-- `isdigit(*cp) ? *cp-'0' : toupper(*cp)-'A'+10` of a hexadecimal digit. -/
def simpleDigit (c : UInt8) : Nat := if isdigit c then c.toNat - 48 else (toupper c).toNat - 65 + 10

/-- The same with `islower(*cp) ? toupper(*cp) : *cp`. -/
def simpleDigitLong (c : UInt8) : Nat :=
  if isdigit c then c.toNat - 48 else (if islower c then toupper c else c).toNat - 65 + 10

/-- The loop over the digits: the number and what is behind it. -/
def simpleDigits (digit : UInt8 → Nat) (base : Nat) : List UInt8 → Nat → Nat × List UInt8
  | [], result => (result, [])
  | c :: cp, result =>
    if isxdigit c ∧ digit c < base then simpleDigits digit base cp (ulongAdd (ulongMul result base) (digit c))
    else (result, c :: cp)

/-- Base zero is found out from the first digits. -/
def simpleStrto (digit : UInt8 → Nat) (cp : List UInt8) (base : Nat) : Nat × List UInt8 :=
  if base = 0 then
    if deref cp = byte '0' then
      if deref cp.tail = byte 'x' ∧ isxdigit (deref cp.tail.tail) then simpleDigits digit 16 cp.tail.tail 0
      else simpleDigits digit 8 cp.tail 0
    else simpleDigits digit 10 cp 0
  else simpleDigits digit base cp 0

def simpleStrtoul (cp : List UInt8) (base : Nat) : Nat × List UInt8 := simpleStrto simpleDigit cp base

def simpleStrtoull (cp : List UInt8) (base : Nat) : Nat × List UInt8 := simpleStrto simpleDigitLong cp base

/-- A minus in front of what an unsigned reader reads; the bits of the number. -/
def negated (read : List UInt8 → Nat → Nat × List UInt8) (cp : List UInt8) (base : Nat) : Nat × List UInt8 :=
  if deref cp = byte '-' then (ulongSub 0 (read cp.tail base).1, (read cp.tail base).2) else read cp base

def simpleStrtol (cp : List UInt8) (base : Nat) : Nat × List UInt8 := negated simpleStrtoul cp base

def simpleStrtoll (cp : List UInt8) (base : Nat) : Nat × List UInt8 := negated simpleStrtoull cp base

/-! ## Directives -/

/-- What is stored at an argument: a number of so many bits, or characters. -/
inductive Stored
  | number (bits : Nat) (value : Nat)
  | chars (bytes : List UInt8)
  deriving DecidableEq

/-- `qualifier`, where `hh` is `H`. -/
inductive ScanQualifier
  | none
  | char
  | short
  | long
  | longLong
  | size
  deriving DecidableEq

/-- `skip_atoi` -/
def skipAtoiFrom : List UInt8 → Int → Int × List UInt8
  | [], value => (value, [])
  | c :: s, value =>
    if isdigit c then skipAtoiFrom s ((value * 10 + charValue c - 48).bmod (2 ^ 32)) else (value, c :: s)

/-- The part of a directive about `field_width`. -/
def scanWidth (fmt : List UInt8) : Int × List UInt8 := if isdigit (deref fmt) then skipAtoiFrom fmt 0 else (-1, fmt)

def scanQualifier : List UInt8 → ScanQualifier × List UInt8
  | [] => (.none, [])
  | c :: fmt =>
    if c = byte 'h' then if deref fmt = c then (.char, fmt.tail) else (.short, fmt)
    else if c = byte 'l' then if deref fmt = c then (.longLong, fmt.tail) else (.long, fmt)
    else if c = byte 'L' then (.longLong, fmt)
    else if c = byte 'Z' ∨ c = byte 'z' then (.size, fmt)
    else (.none, c :: fmt)

/-- `case 'c'`: `do *s++ = *str++; while (--field_width > 0 && *str);` -/
def scanChars : List UInt8 → Int → List UInt8 × List UInt8
  | [], _ => ([], [])
  | c :: str, width =>
    if 0 < intSub width 1 ∧ str ≠ [] then
      (c :: (scanChars str (intSub width 1)).1, (scanChars str (intSub width 1)).2)
    else ([c], str)

/-- `case 's'`: `while (*str && !isspace(*str) && field_width--) *s++ = *str++;` -/
def scanString : List UInt8 → Int → List UInt8 × List UInt8
  | [], _ => ([], [])
  | c :: str, width =>
    if isspace c then ([], c :: str)
    else if width = 0 then ([], c :: str)
    else (c :: (scanString str (intSub width 1)).1, (scanString str (intSub width 1)).2)

/-- The cases of the switch. -/
inductive ScanCase
  | char
  | string
  | count
  | percent
  | integer (base : Nat) (sign : Bool)
  | other
  deriving DecidableEq

def scanCaseOf (c : UInt8) : ScanCase :=
  if c = byte 'c' then .char
  else if c = byte 's' then .string
  else if c = byte 'n' then .count
  else if c = byte 'o' then .integer 8 false
  else if c = byte 'x' ∨ c = byte 'X' then .integer 16 false
  else if c = byte 'i' then .integer 0 true
  else if c = byte 'd' then .integer 10 true
  else if c = byte 'u' then .integer 10 false
  else if c = byte '%' then .percent
  else .other

/-- The check on the character where a number should start. -/
def numberStarts (base : Nat) (sign : Bool) (str : List UInt8) : Bool :=
  let digit := if sign && deref str == byte '-' then deref str.tail else deref str
  !(digit == 0 || (base == 16 && !isxdigit digit) || (base == 10 && !isdigit digit) ||
    (base == 8 && (!isdigit digit || decide (byte '7' < digit))) || (base == 0 && !isdigit digit))

/-- The switch over `qualifier`: what is stored, and `next`. -/
def scanNumber (qualifier : ScanQualifier) (base : Nat) (sign : Bool) (str : List UInt8) : Stored × List UInt8 :=
  let read := if sign then simpleStrtol str base else simpleStrtoul str base
  let readLong := if sign then simpleStrtoll str base else simpleStrtoull str base
  match qualifier with
  | .char => (.number 8 (read.1 % 2 ^ 8), read.2)
  | .short => (.number 16 (read.1 % 2 ^ 16), read.2)
  | .long => (.number 64 read.1, read.2)
  | .longLong => (.number 64 readLong.1, readLong.2)
  | .size => (.number 64 (simpleStrtoul str base).1, (simpleStrtoul str base).2)
  | .none => (.number 32 (read.1 % 2 ^ 32), read.2)

/-! ## `vsscanf` -/

structure Scanned where
  num : Int
  stored : List Stored
  deriving DecidableEq

def Scanned.store (scanned : Scanned) (value : Stored) : Scanned :=
  { num := scanned.num + 1, stored := scanned.stored ++ [value] }

/-- `while(*fmt && *str)`; `next` is never NULL at its end. -/
def scanLoop (buf : List UInt8) : Nat → List UInt8 → List UInt8 → Scanned → Except Halt Scanned
  | 0, _, _, _ => .error .fuel
  | fuel + 1, fmt, str, scanned =>
    if fmt = [] ∨ str = [] then .ok scanned
    else
      let blank := isspace (deref fmt)
      let fmt := if blank then fmt.dropWhile isspace else fmt
      let str := if blank then str.dropWhile isspace else str
      match fmt with
      | [] => .ok scanned
      | c :: fmt =>
        if c ≠ byte '%' then
          if c ≠ deref str then .ok scanned else scanLoop buf fuel fmt str.tail scanned
        else if deref fmt = byte '*' then
          scanLoop buf fuel (fmt.dropWhile fun c => !isspace c) (str.dropWhile fun c => !isspace c) scanned
        else
          let width := scanWidth fmt
          let qualifier := scanQualifier width.2
          match qualifier.2 with
          | [] => .ok scanned
          | c :: fmt =>
            if str = [] then .ok scanned
            else
              match scanCaseOf c with
              | .char =>
                let taken := scanChars str (if width.1 = -1 then 1 else width.1)
                scanLoop buf fuel fmt taken.2 (scanned.store (.chars taken.1))
              | .string =>
                let taken := scanString (str.dropWhile isspace) (if width.1 = -1 then 2 ^ 31 - 1 else width.1)
                scanLoop buf fuel fmt taken.2 (scanned.store (.chars (taken.1 ++ [0])))
              | .count =>
                let stored := scanned.stored ++ [.number 32 ((buf.length - str.length) % 2 ^ 32)]
                scanLoop buf fuel fmt str { scanned with stored }
              | .percent =>
                if deref str ≠ byte '%' then .ok scanned else scanLoop buf fuel fmt str.tail scanned
              | .other => .ok scanned
              | .integer base sign =>
                let str := str.dropWhile isspace
                if numberStarts base sign str then
                  let (stored, next) := scanNumber qualifier.1 base sign str
                  scanLoop buf fuel fmt next (scanned.store stored)
                else .ok scanned

def vsscanf (buf fmt : CString) : Except Halt Scanned :=
  scanLoop buf.bytes (fmt.bytes.length + 1) fmt.bytes buf.bytes { num := 0, stored := [] }

/-- `sscanf` -/
def sscanf (buf fmt : CString) : Except Halt Scanned := vsscanf buf fmt

end Stardust.Libc
