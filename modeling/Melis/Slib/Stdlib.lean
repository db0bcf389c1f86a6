import Melis.Lib.C

/-!
# Numbers and texts

The printers and parsers of `slib_stdlib.c`. A pointer into a string is the rest of the string from
there on, with the NUL behind its end. `long` and `int` have 32 bits; `none` is a signed overflow, or
a write outside an array.
-/

namespace Melis.Slib

open Lib

/-- `*p` -/
def deref (p : CStr) : Char := p.headD '\x00'

def slibStrlen (pstr : CStr) : Nat := (pstr.takeWhile (· ≠ '\x00')).length

def isdigit (cChar : Char) : Bool := '0' ≤ cChar && cChar ≤ '9'

def slibIsspace (ch : Char) : Bool :=
  ch = ' ' || ch = '\n' || ch = '\r' || ch = '\t' || ch = '\x0b' || ch = '\x0c'

def getValue (ch : Char) : Int :=
  if '0' ≤ ch ∧ ch ≤ '9' then ch.toNat - '0'.toNat
  else if 'a' ≤ ch ∧ ch ≤ 'z' then ch.toNat - 'a'.toNat + 10
  else if 'A' ≤ ch ∧ ch ≤ 'Z' then ch.toNat - 'A'.toNat + 10
  else -1

/-! ## The printers -/

/-- The bytes are stored from `str[j]` on. -/
def storeAll (str : List Char) : Nat → List Char → Option (List Char)
  | _, [] => some str
  | j, c :: cs => if j < str.length then storeAll (str.set j c) (j + 1) cs else none

/-- `d + '0'` -/
def digitChar (d : Nat) : Char := Char.ofNat (d + '0'.toNat)

/-- The first loop of the decimal printers, with `room` elements left in `stack`. -/
def digitLoop : Nat → Nat → List Char → Option (List Char)
  | _, 0, stack => some stack
  | 0, _ + 1, _ => none
  | room + 1, input + 1, stack =>
    digitLoop room ((input + 1) / 10) (stack ++ [digitChar ((input + 1) % 10)])

def slibInt2strDec (input : Int) (str : List Char) : Option (List Char) :=
  if input = 0 then storeAll str 0 ['0', '\x00']
  else if input = -2 ^ 31 then none
  else do
    let stack ← digitLoop 12 input.natAbs []
    let sign := if input < 0 then ['-'] else []
    storeAll str 0 (sign ++ stack.reverse ++ ['\x00'])

def slibUint2strDec (input : Nat) (str : List Char) : Option (List Char) :=
  if input = 0 then storeAll str 0 ['0', '\x00']
  else do
    let stack ← digitLoop 11 input []
    storeAll str 0 (stack.reverse ++ ['\x00'])

/-- `HEX_x` -/
abbrev hexLower : Char := 'x'

/-- `HEX_X` -/
abbrev hexUpper : Char := 'X'

def hexDigits (hexFlag : Char) : List Char :=
  if hexFlag = hexUpper then "0123456789ABCDEF".toList else "0123456789abcdef".toList

/-- The first loop of `__SLIB_int2str_hex`; the shift of a negative number is arithmetic. -/
def hexLoop (hexFlag : Char) : Nat → Int → List Char → List Char
  | 0, _, stack => stack
  | i + 1, input, stack =>
    hexLoop hexFlag i (input / 16) (stack ++ [(hexDigits hexFlag).getD (input % 16).toNat '\x00'])

def slibInt2strHex (input : Int) (str : List Char) (hexFlag : Char) : Option (List Char) :=
  storeAll str 0 ('0' :: hexFlag :: (hexLoop hexFlag 8 input []).reverse ++ ['\x00'])

/-! ## `__SLIB_atoi` -/

/-- Leading zeros are skipped. -/
def skipZeros : CStr → Int → CStr × Int
  | [], len => ([], len)
  | c :: t, len =>
    if c ≠ '0' then (c :: t, len)
    else if len - 1 ≤ 0 then (t, len - 1) else skipZeros t (len - 1)

/-- The end of the number. -/
def digitRun : Nat → CStr → Nat
  | 0, _ => 0
  | _ + 1, [] => 0
  | len + 1, c :: t => if isdigit c then digitRun len t + 1 else 0

def baseLoop : Nat → Nat → Nat
  | 0, base => base
  | i + 1, base => baseLoop i (base * 10 % 2 ^ 32)

/-- The last loop; the sum is unsigned and converted back to `int`. -/
def valueLoop : Nat → CStr → Nat → Int → Int
  | 0, _, _, value => value
  | _ + 1, [], _, value => value
  | len + 1, c :: t, base, value =>
    if isdigit c then
      valueLoop len t (base / 10) (i32 (value + ((c.toNat - '0'.toNat) * base : Nat)))
    else value

/-- The sign, and what stands behind it. -/
def atoiSign : CStr → CStr × Int
  | [] => ([], 1)
  | c :: t => if c = '-' then (t, -1) else if c = '+' then (t, 1) else (c :: t, 1)

def slibAtoi (s : CStr) : Option Int :=
  if i32 (slibStrlen s) ≤ 0 then some 0
  else
    let (t, sign) := atoiSign s
    let len := i32 (slibStrlen t)
    if len ≤ 0 then some 0
    else
      let (t, len) := skipZeros t len
      let len := digitRun len.toNat t
      if len = 0 then some 0
      else
        let value := valueLoop len t (baseLoop (len - 1) 1) 0
        if sign = -1 ∧ value = -2 ^ 31 then none else some (sign * value)

/-! ## `__SLIB_strtol` and `__SLIB_strtoul` -/

/-- The loop of `__SLIB_strtol`. -/
def strtolLoop (base : Int) : CStr → Nat → Nat × CStr
  | [], unsum => (unsum, [])
  | c :: p, unsum =>
    if getValue c < 0 ∨ getValue c ≥ base then (unsum, c :: p)
    else strtolLoop base p (u32 (unsum * base + getValue c))

/-- The base, and the first character of the number. -/
def strtolBase (p : CStr) (base : Int) : CStr × Int :=
  if deref p = '0' ∧ (deref (p.drop 1) = 'x' ∨ deref (p.drop 1) = 'X') then
    if base = 0 then (p.drop 2, 16) else (p, base)
  else if deref p = '0' then
    if base = 0 then (p, 8) else (p, base)
  else
    if base = 0 then (p, 10) else (p, base)

/-- The result, and `*err`. -/
def slibStrtol (str : CStr) (base : Int) : Option (Int × CStr) :=
  if base < 0 ∨ base > 36 then some (0, str)
  else
    let p := str.dropWhile slibIsspace
    let negative := deref p = '-'
    let p := if deref p = '-' ∨ deref p = '+' then p.drop 1 else p
    let (q, base) := strtolBase p base
    let (unsum, p) := strtolLoop base q 0
    if p.length = q.length then some (0, str)
    else if negative then
      if i32 unsum = -2 ^ 31 then none else some (-i32 unsum, p)
    else some (i32 unsum, p)

def isxdigit (c : Char) : Bool :=
  ('0' ≤ c && c ≤ '9') || ('a' ≤ c && c ≤ 'f') || ('A' ≤ c && c ≤ 'F')

def tolower (c : Char) : Char := if 'A' ≤ c ∧ c ≤ 'Z' then Char.ofNat (c.toNat + 0x20) else c

/-- `value` in the loop of `__SLIB_strtoul`. -/
def xvalue (c : Char) : Nat :=
  if isdigit c then c.toNat - '0'.toNat else (tolower c).toNat - 'a'.toNat + 10

def strtoulLoop (base : Nat) : CStr → Nat → Nat × CStr
  | [], result => (result, [])
  | c :: cp, result =>
    if isxdigit c ∧ xvalue c < base then
      strtoulLoop base cp ((result * base + xvalue c) % 2 ^ 32)
    else (result, c :: cp)

def strtoulBase (cp : CStr) (base : Nat) : CStr × Nat :=
  if base = 0 then
    if deref cp = '0' then
      let cp := cp.drop 1
      if tolower (deref cp) = 'x' ∧ isxdigit (deref (cp.drop 1)) then (cp.drop 1, 16) else (cp, 8)
    else (cp, 10)
  else if base = 16 ∧ deref cp = '0' ∧ tolower (deref (cp.drop 1)) = 'x' then (cp.drop 2, 16)
  else (cp, base)

/-- The result, and `*endp`. -/
def slibStrtoul (cp : CStr) (base : Nat) : Nat × CStr :=
  let (cp, base) := strtoulBase cp base
  strtoulLoop base cp 0

/-! ## `__SLIB_sscanf`

`_vsscanf` reads the buffer under a format. Both are walked by position; what is stored through the
arguments is a list. One round of its loop goes on, leaves the loop, or returns.
-/

/-- `qualifier`; `H` is `hh`, `L` is `ll`. -/
inductive Qualifier
  | h
  | H
  | l
  | L
  | Z
  deriving DecidableEq, Repr

/-- What is stored through an argument. -/
inductive Stored
  | chars (s : CStr)
  | string (s : CStr)
  | count (n : Int)
  | number (qualifier : Option Qualifier) (isSign : Bool) (value : Int)
  deriving DecidableEq, Repr

/-- The variables of `_vsscanf`: `fmt` is the rest of the format, `pos` is `str - buf`. -/
structure Scan where
  fmt : CStr
  pos : Nat
  num : Int
  args : List Stored
  deriving DecidableEq

inductive Round
  /-- `continue`, and the end of the round. -/
  | next (s : Scan)
  /-- `break` -/
  | leave (s : Scan)
  /-- `return num` -/
  | ret (s : Scan)

/-- `i = i * 10 + *((*s)++) - '0'` -/
def skipAtoi : CStr → Int → Option (Int × CStr)
  | [], i => some (i, [])
  | c :: s, i =>
    if isdigit c then
      if i * 10 < 2 ^ 31 then
        (intAdd (i * 10) c.toNat).bind fun i => skipAtoi s (i - '0'.toNat)
      else none
    else some (i, c :: s)

/-- The conversion qualifier. -/
def scanQualifier : CStr → Option Qualifier × CStr
  | 'h' :: 'h' :: fmt => (some .H, fmt)
  | 'h' :: fmt => (some .h, fmt)
  | 'l' :: 'l' :: fmt => (some .L, fmt)
  | 'l' :: fmt => (some .l, fmt)
  | 'L' :: fmt => (some .L, fmt)
  | 'Z' :: fmt => (some .Z, fmt)
  | 'z' :: fmt => (some .Z, fmt)
  | fmt => (none, fmt)

/-- The conversion of `value` to the type behind the argument. -/
def narrow : Option Qualifier → Bool → Int → Int
  | some .H, true, value => value.bmod (2 ^ 8)
  | some .H, false, value => value % 2 ^ 8
  | some .h, true, value => value.bmod (2 ^ 16)
  | some .h, false, value => value % 2 ^ 16
  | _, _, value => value

/-- `__SLIB_strtol` and `__SLIB_strtoul` as the qualifier has it, and `next`. -/
def convert (qualifier : Option Qualifier) (isSign : Bool) (str : CStr) (base : Nat) :
    Option (Int × CStr) :=
  if isSign ∧ qualifier ≠ some .Z then slibStrtol str base
  else
    let (value, next) := slibStrtoul str base
    some (value, next)

variable (buf : CStr)

/-- `str` -/
def Scan.str (s : Scan) : CStr := buf.drop s.pos

/-- White space in the buffer is skipped. -/
def Scan.skipSpace (s : Scan) : Scan :=
  { s with pos := s.pos + ((s.str buf).takeWhile slibIsspace).length }

/-- `*str` is no digit of that base. -/
def refuses (base : Nat) (digit : Char) : Bool :=
  digit = '\x00' || (base = 16 && !isxdigit digit) || (base = 10 && !isdigit digit) ||
    (base = 8 && (!isdigit digit || digit > '7')) || (base = 0 && !isdigit digit)

/-- An integer conversion. -/
def scanNumber (s : Scan) (qualifier : Option Qualifier) (base : Nat) (isSign : Bool) :
    Option Round :=
  let s := s.skipSpace buf
  let digit := deref (s.str buf)
  let digit := if isSign ∧ digit = '-' then deref ((s.str buf).drop 1) else digit
  if refuses base digit then some (.leave s)
  else do
    let (value, next) ← convert qualifier isSign (s.str buf) base
    return .next { s with
      pos := buf.length - next.length
      num := s.num + 1
      args := s.args ++ [.number qualifier isSign (narrow qualifier isSign value)] }

/-- `%c`, which copies one character at least. -/
def scanChars (s : Scan) (width : Int) : Scan :=
  let chars := ((s.str buf).takeWhile (· ≠ '\x00')).take (max 1 width).toNat
  { s with pos := s.pos + chars.length, num := s.num + 1, args := s.args ++ [.chars chars] }

/-- `%s` -/
def scanString (s : Scan) (width : Int) : Scan :=
  let s := s.skipSpace buf
  let width := if width = -1 then 0x7FFFFFFF else width
  let chars := ((s.str buf).takeWhile fun c => c ≠ '\x00' && !slibIsspace c).take width.toNat
  { s with pos := s.pos + chars.length, num := s.num + 1, args := s.args ++ [.string chars] }

/-- `*i = str - buf` -/
def Scan.count (s : Scan) : Scan := { s with args := s.args ++ [.count (i32 s.pos)] }

/-- The conversion behind the width and the qualifier. -/
def scanConversion (s : Scan) (width : Int) (qualifier : Option Qualifier) : Option Round :=
  if deref s.fmt = '\x00' ∨ deref (s.str buf) = '\x00' then some (.leave s)
  else
    let c := deref s.fmt
    let s := { s with fmt := s.fmt.drop 1 }
    if c = 'c' then some (.next (scanChars buf s width))
    else if c = 's' then some (.next (scanString buf s width))
    else if c = 'n' then some (.next s.count)
    else if c = 'o' then scanNumber buf s qualifier 8 false
    else if c = 'x' ∨ c = 'X' then scanNumber buf s qualifier 16 false
    else if c = 'i' then scanNumber buf s qualifier 0 true
    else if c = 'd' then scanNumber buf s qualifier 10 true
    else if c = 'u' then scanNumber buf s qualifier 10 false
    else if c = '%' then
      if deref (s.str buf) = '%' then some (.next { s with pos := s.pos + 1 }) else some (.ret s)
    else some (.ret s)

/-- Behind a `%`. -/
def scanPercent (s : Scan) : Option Round :=
  if deref s.fmt = '*' then
    some (.next { s with
      fmt := s.fmt.dropWhile fun c => !slibIsspace c && c ≠ '\x00'
      pos := s.pos + ((s.str buf).takeWhile fun c => !slibIsspace c && c ≠ '\x00').length })
  else do
    let (width, fmt) ← if isdigit (deref s.fmt) then skipAtoi s.fmt 0 else some (-1, s.fmt)
    let (qualifier, fmt) := scanQualifier fmt
    scanConversion buf { s with fmt } width qualifier

/-- One round of the loop. -/
def scanRound (s : Scan) : Option Round :=
  let s := if slibIsspace (deref s.fmt) then
    { s.skipSpace buf with fmt := s.fmt.dropWhile slibIsspace } else s
  let c := deref s.fmt
  if c = '\x00' then some (.leave s)
  else if c = '%' then scanPercent buf { s with fmt := s.fmt.drop 1 }
  else
    let s' := { s with fmt := s.fmt.drop 1, pos := s.pos + 1 }
    if c = deref (s.str buf) then some (.next s') else some (.leave s')

/-- Behind the loop. -/
def scanEnd (s : Scan) : Scan :=
  if deref s.fmt = '%' ∧ deref (s.fmt.drop 1) = 'n' then s.count else s

/-- The loop. Each round uses up a character of the format. -/
def scanLoop : Nat → Scan → Option Scan
  | 0, _ => none
  | rounds + 1, s =>
    if deref s.fmt = '\x00' ∨ deref (s.str buf) = '\x00' then some (scanEnd s)
    else
      match scanRound buf s with
      | none => none
      | some (.next s) => scanLoop rounds s
      | some (.leave s) => some (scanEnd s)
      | some (.ret s) => some s

/-- The result, an `__s8`, and what is stored. -/
def slibSscanf (fmt : CStr) : Option (Int × List Stored) :=
  (scanLoop buf (fmt.length + 1) ⟨fmt, 0, 0, []⟩).map fun s => (s.num.bmod (2 ^ 8), s.args)

end Melis.Slib
