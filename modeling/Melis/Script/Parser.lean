import Melis.Lib.C
import Melis.Lib.Scan

/-!
# The compiler of script files

`parser_script` of `utility/host-tool/script/script.c`, with what it calls. The script is in a
buffer with a NUL behind it, and `src` is what the buffer holds from a pointer on. `none` is an
access outside of the script, of a string or of a table.
-/

namespace Melis.Script

open Lib

/-- `ITEM_MAIN_NAME_MAX`. -/
def itemMainNameMax : Nat := 32

/-- `TIEM_MAIN_MAX`. -/
def tiemMainMax : Nat := 128

/-- The bytes of `dest`, and of `dest_data`. -/
def destBytes : Nat := 512 * 1024

/-- The bytes of an entry of `dest`: eight words of a name and two words. -/
def entryBytes : Nat := 40

/-- The bytes of `sub_value`. -/
def subValueBytes : Nat := 128

def nul : Char := '\x00'

def isBlank (ch : Char) : Bool := ch == ' ' || ch == '\t'

def isEol (ch : Char) : Bool := ch == '\r' || ch == '\n'

/-! ## Lines -/

/-- `THIS_LINE_NULL` and so on. -/
inductive LineStatus
  | null
  | mainkey
  | subkey
  | error
  deriving DecidableEq, Repr

def lineFlag (ch : Char) : LineStatus :=
  if ch = ';' ∨ ch = '\r' then .null else if ch = '[' then .mainkey else .subkey

/-- The loop of `_get_line_status`, with `ch` read in front of `src`. A line of 512 characters
without its end is an error. -/
def lineLoop (lastLen : Int) : Nat → List Char → Option (Option Nat)
  | _, [] => none
  | len, ch :: src =>
    if 512 ≤ len then some none
    else if ch ≠ '\n' ∧ len < lastLen then lineLoop lastLen (len + 1) src
    else some (some (len + 1))

/-- `_get_line_status`: the status of the line and its length. -/
def getLineStatus (daddr : List Char) (lastLen : Int) : Option (LineStatus × Nat) :=
  match daddr with
  | [] => none
  | ch :: src =>
    match lineLoop (lastLen - 1) 1 src with
    | none => none
    | some none => some (.error, 0)
    | some (some len) => some (lineFlag ch, len)

/-- `_fill_line_mainkey`: the name of a section. One more character is read behind 32 of them, and
the last of these is then cut off. -/
def fillLineMainkey (pbuf : List Char) : Option CStr :=
  match scan (· == ']') itemMainNameMax pbuf.tail with
  | none => none
  | some (_, []) => none
  | some (itemName, _) => some (itemName.take (itemMainNameMax - 1))

/-- The loop that cuts off the blanks at the end of a string; `none` is that it comes to the
byte before the string. -/
def trimEnd (dst : CStr) : Option CStr :=
  match dst.reverse.dropWhile isBlank with
  | [] => none
  | dst => some dst.reverse

/-- What follows the `=` in `_get_item_value`. -/
def itemValue (src : List Char) : Option CStr :=
  match scanAll (!isBlank ·) src with
  | some (_, ch :: src) =>
    if isEol ch then some []
    else
      match scan (fun ch => ch == nul || isEol ch) (subValueBytes - 1) (ch :: src) with
      | some (dstvalue, _) => trimEnd dstvalue
      | none => none
  | _ => none

/-- `_get_item_value`: the name and the value. -/
def getItemValue (pbuf : List Char) : Option (CStr × CStr) :=
  match scanAll (!isBlank ·) pbuf with
  | some (_, ch :: src) =>
    if isEol ch then some ([], [])
    else
      match scan (· == '=') (itemMainNameMax - 1) (ch :: src) with
      | none => none
      | some (dstname, src) =>
        match trimEnd dstname, scanAll (· == '=') src with
        | some name, some (_, _ :: src) => (itemValue src).map (name, ·)
        | _, _ => none
  | _ => none

/-! ## Values -/

/-- What `_get_str2int` returns, with what it leaves in `value`. -/
inductive Value
  | error
  | singleWord (value : UInt32)
  | string (words kind : Nat)
  | gpio (value : List UInt32)
  deriving DecidableEq, Repr

def digit (ch : Char) : Option Nat :=
  if '0' ≤ ch ∧ ch ≤ '9' then some (ch.toNat - '0'.toNat) else none

def hexDigit (ch : Char) : Option Nat :=
  if '0' ≤ ch ∧ ch ≤ '9' then some (ch.toNat - '0'.toNat)
  else if 'A' ≤ ch ∧ ch ≤ 'F' then some (ch.toNat - 'A'.toNat + 10)
  else if 'a' ≤ ch ∧ ch ≤ 'f' then some (ch.toNat - 'a'.toNat + 10)
  else none

/-- The loops over the digits of a number. -/
def numberLoop (digit : Char → Option Nat) (base : UInt32) :
    UInt32 → List Char → Option (Option UInt32)
  | _, [] => none
  | tmpValue, ch :: src =>
    if ch = nul then some (some tmpValue)
    else
      match digit ch with
      | none => some none
      | some d => numberLoop digit base (tmpValue * base + UInt32.ofNat d) src

/-- A number that ends the value. -/
def numberValue (digit : Char → Option Nat) (base sign : UInt32) (src : List Char) : Option Value :=
  (numberLoop digit base 0 src).map fun
    | none => .error
    | some tmpValue => .singleWord (tmpValue * sign)

/-- A string up to `stop`, in whole words. -/
def stringValue (stop : Char) (kind : Nat) (src : List Char) : Option (Nat × Value) :=
  (scan (· == stop) subValueBytes src).map fun x =>
    (x.1.length, .string (if x.1.length % 4 ≠ 0 then x.1.length / 4 + 1 else x.1.length / 4) kind)

/-- The tests for the rest of `POWER`: `some none` if it is that, else the last character read. -/
def powerLoop : List Char → List Char → Option (Option Char)
  | [], _ => some none
  | _ :: _, [] => none
  | p :: ps, ch :: src => if ch.toLower = p then powerLoop ps src else some (some ch)

/-- The group of a pin, from the character `ch` that gives it. -/
def groupOf (ch : Char) : Option UInt32 :=
  if 'A' ≤ ch ∧ ch ≤ 'Z' then some (UInt32.ofNat (ch.toNat - 'A'.toNat + 1))
  else if 'a' ≤ ch ∧ ch ≤ 'z' then some (UInt32.ofNat (ch.toNat - 'a'.toNat + 1))
  else none

/-- The group of a pin and what follows; `some none` is an error. -/
def pinGroup : List Char → Option (Option (UInt32 × List Char))
  | [] => none
  | ch :: src =>
    if ch.toLower = 'o' then
      match powerLoop ['w', 'e', 'r'] src with
      | none => none
      | some none => some (some (0xffff, src.drop 3))
      | some (some ch) => some ((groupOf ch).map (·, src))
    else some ((groupOf ch).map (·, src))

/-- The number of a pin and what follows. -/
def pinLoop : UInt32 → List Char → Option (Option (UInt32 × List Char))
  | _, [] => none
  | tmpValue, ch :: src =>
    if ch = '<' then some (some (tmpValue, src))
    else
      match digit ch with
      | some d => pinLoop (tmpValue * 10 + UInt32.ofNat d) src
      | none => if ch = nul then some (some (tmpValue, ch :: src)) else some none

/-- A field of a pin, and the sign of the fields behind it. -/
def fieldValue (sign : UInt32) (tmpStr : CStr) : Option (UInt32 × UInt32) :=
  if tmpStr = "default".toList then some (1, sign)
  else if tmpStr = "none".toList ∨ tmpStr = "null".toList ∨ tmpStr = "-1".toList then
    some (-1, sign)
  else
    let number := fun (sign : UInt32) (digits : CStr) =>
      match numberLoop digit 10 0 (digits ++ [nul]) with
      | some (some tmpValue) => some (tmpValue * sign, sign)
      | _ => none
    match tmpStr with
    | '-' :: digits => number (-1) digits
    | digits => number sign digits

/-- The loop over the fields of a pin, of which `value` takes six. -/
def fieldLoop : UInt32 → List UInt32 → CStr → List Char → Option (Option (List UInt32))
  | _, _, _, [] => none
  | sign, fields, tmpStr, ch :: src =>
    if ch = '>' then
      match fieldValue sign tmpStr with
      | none => some none
      | some (field, sign) =>
        if 6 ≤ fields.length then none
        else
          match src with
          | [] => none
          | ch :: src =>
            if ch = '<' then
              match src with
              | [] => none
              | ch :: rest =>
                if ch = nul then some (some (fields ++ [field]))
                else fieldLoop sign (fields ++ [field]) [] (ch :: rest)
            else if ch = nul then some (some (fields ++ [field]))
            else some none
    else fieldLoop sign fields (tmpStr ++ [ch.toLower]) src

/-- The fields that are not given. -/
def gpioValue (group pin : UInt32) (fields : List UInt32) : Value :=
  if 1 ≤ fields.length ∧ fields.length ≤ 4 then
    .gpio (group :: pin :: fields ++ [1, 1, -1].drop (fields.length - 1))
  else .error

def portValue (src : List Char) : Option Value :=
  match pinGroup src with
  | none => none
  | some none => some .error
  | some (some (group, src)) =>
    match pinLoop 0 src with
    | none => none
    | some none => some .error
    | some (some (pin, src)) =>
      match src with
      | [] => none
      | ch :: rest =>
        if ch = nul then some (gpioValue group pin [])
        else
          match fieldLoop 1 [] [] (ch :: rest) with
          | none => none
          | some none => some .error
          | some (some fields) => some (gpioValue group pin fields)

def startsWith (s : String) (src : List Char) : Bool := s.toList.isPrefixOf src

/-- The value is that of a pin. -/
def IsPort (saddr : List Char) : Prop :=
  startsWith "port:" saddr ∧ (saddr.getD 5 nul).toLower = 'p'

instance : DecidablePred IsPort := fun _ => inferInstanceAs (Decidable (_ ∧ _))

/-- `_get_str2int`: the value, and what is then in the string. -/
def getStr2int (saddr : List Char) : Option (Value × List Char) :=
  let ch := fun i => saddr.getD i nul
  if IsPort saddr then (portValue (saddr.drop 6)).map (·, saddr)
  else if startsWith "port:" saddr then (stringValue nul 0 saddr).map (·.2, saddr)
  else if startsWith "string:" saddr then (stringValue nul 0 (saddr.drop 7)).map (·.2, saddr)
  else if ch 0 = '"' then
    (stringValue '"' 5 (saddr.drop 1)).map fun x => (x.2, saddr.set (x.1 + 1) nul)
  else if ch 0 = '0' ∧ (ch 1).toLower = 'x' then
    (numberValue hexDigit 16 1 (saddr.drop 2)).map (·, saddr)
  else if (digit (ch 0)).isSome then (numberValue digit 10 1 saddr).map (·, saddr)
  else if (digit (ch 1)).isSome ∧ ch 0 = '-' then
    (numberValue digit 10 (-1) (saddr.drop 1)).map (·, saddr)
  else (stringValue nul 0 saddr).map (·.2, saddr)

/-! ## Tables -/

/-- `script_item_t`. -/
structure Item where
  itemName : CStr
  itemLength : Nat
  itemOffset : Nat
  deriving DecidableEq, Repr

/-- An entry of `dest`: the name, the offset of the data, and its words and type. -/
structure Entry where
  subName : CStr
  offset : Nat
  words : Nat
  type : Nat
  deriving DecidableEq, Repr

/-- The tables, and the result of the last conversion as `ret`. `itemTable` has the last section
first; `main_key_index`, `sub_value_index` and `dest_data_index` are the lengths. -/
structure Tables where
  itemTable : List Item
  dest : List Entry
  destData : List UInt32
  ret : Int
  deriving DecidableEq, Repr

def Tables.empty : Tables := ⟨[], [], [], -1⟩

/-- Bytes as words, with the last one filled up. -/
def wordsOf : List Char → List UInt32
  | a :: b :: c :: d :: bytes =>
    UInt32.ofNat (a.toNat + 2 ^ 8 * b.toNat + 2 ^ 16 * c.toNat + 2 ^ 24 * d.toNat) :: wordsOf bytes
  | _ => []

/-- `strncpy`: the string cut or filled up to `n` bytes. -/
def strncpy (src : List Char) (n : Nat) : List Char :=
  let str := (src.takeWhile (· ≠ nul)).take n
  str ++ List.replicate (n - str.length) nul

/-- The type of a value and its data, where the string is now `saddr`; `none` is an error. -/
def Value.data (saddr : List Char) : Value → Option (Nat × List UInt32)
  | .error => none
  | .singleWord value => some (1, [value])
  | .string words kind =>
    some (2, wordsOf (strncpy (saddr.drop (if kind = 0 then 7 else 1)) (4 * words)))
  | .gpio value => some (4, value)

/-- `sub_value` with a value in it. -/
def subValue (value : CStr) : List Char :=
  value ++ List.replicate (subValueBytes - value.length) nul

/-- The conversion of an entry's value. -/
def convert (value : CStr) : Option (Option (Nat × List UInt32)) :=
  (getStr2int (subValue value)).map fun x => x.1.data x.2

namespace Tables

variable (t : Tables)

/-- The line of a section. -/
def addItem (src : List Char) : Option Tables :=
  match fillLineMainkey src with
  | none => none
  | some itemName =>
    if tiemMainMax ≤ t.itemTable.length then none
    else
      let itemOffset := match t.itemTable with
        | [] => 0
        | item :: _ => item.itemOffset + item.itemLength * 10
      some { t with itemTable := ⟨itemName, 0, itemOffset⟩ :: t.itemTable }

/-- The data of an entry, behind its name. -/
def pushEntry (subName : CStr) (type : Nat) (data : List UInt32) : Option Tables :=
  if destBytes < entryBytes * (t.dest.length + 1) ∨ destBytes < 4 * (t.destData.length + data.length)
  then none
  else
    some
      { itemTable := t.itemTable.modifyHead fun item => { item with itemLength := item.itemLength + 1 }
        dest := t.dest ++ [⟨subName, t.destData.length, data.length, type⟩]
        destData := t.destData ++ data
        ret := type }

/-- The line of an entry of a section; an error leaves the loop. -/
def addEntry (src : List Char) : Option (Except Tables Tables) :=
  match getItemValue src with
  | none => none
  | some (name, value) =>
    let subName := name.takeWhile (· ≠ nul)
    if destBytes < entryBytes * t.dest.length + subName.length + 1 then none
    else
      match convert value with
      | none => none
      | some none => some (.error { t with ret := -1 })
      | some (some (type, data)) => (t.pushEntry subName type data).map .ok

/-- The `switch` of `parser_script`. -/
def fillLine (src : List Char) : LineStatus → Option (Except Tables Tables)
  | .null => some (.ok t)
  | .mainkey => (t.addItem src).map .ok
  | .subkey => if t.itemTable = [] then some (.ok t) else t.addEntry src
  | .error => some (.error t)

end Tables

/-- The loop over the lines, which ends on an error. `scriptLen` is what is left of the script. -/
def parserLoop : Nat → List Char → Int → Tables → Option (Except Tables Tables)
  | 0, _, _, _ => none
  | fuel + 1, src, scriptLen, t =>
    if scriptLen = 0 then some (.ok t)
    else
      match getLineStatus src scriptLen with
      | none => none
      | some (lineStatus, lineLen) =>
        match t.fillLine src lineStatus with
        | some (.ok t) => parserLoop fuel (src.drop lineLen) (scriptLen - lineLen) t
        | stop => stop

/-- The name of a section or an entry, in words. -/
def nameWords (name : CStr) : List UInt32 :=
  wordsOf ((name ++ List.replicate itemMainNameMax nul).take itemMainNameMax)

/-- What is written, in words: the head, the sections, the entries and the data. -/
def Tables.blocks (t : Tables) : List (List UInt32) :=
  let items := t.itemTable.length
  let entries := t.dest.length
  [ [UInt32.ofNat items, 0, 1, 2],
    t.itemTable.reverse.flatMap fun item =>
      nameWords item.itemName ++
        [UInt32.ofNat item.itemLength, UInt32.ofNat (item.itemOffset + 10 * items + 4)],
    t.dest.flatMap fun entry =>
      nameWords entry.subName ++
        [UInt32.ofNat (entry.offset + 10 * items + entries * 10 + 4),
          UInt32.ofNat entry.words ||| UInt32.ofNat entry.type <<< 16],
    t.destData ]

/-- What the host does: whether there is memory for `dest` and for `dest_data`, and how many bytes
each `fwrite` takes at most. -/
structure Host where
  dest : Bool
  destData : Bool
  fwrite : Nat → Nat

/-- What is written: the tables, and how many bytes of each of their blocks. -/
structure File where
  tables : Tables
  written : List Nat
  deriving DecidableEq, Repr

structure Outcome where
  ret : Int
  file : Option File
  deriving DecidableEq, Repr

/-- What follows `_err`. -/
def leave (ret : Int) (file : Option File) : Outcome := ⟨if 0 ≤ ret then 0 else -1, file⟩

/-- The calls of `fwrite`. -/
def writeFile (host : Host) (t : Tables) : File :=
  ⟨t, t.blocks.mapIdx fun i words => min (4 * words.length) (host.fwrite i)⟩

/-- `parser_script` of a script in `pbuf`. -/
def parserScript (host : Host) (pbuf : List Char) : Option Outcome :=
  if host.dest = false ∨ host.destData = false then some (leave (-1) none)
  else
    match parserLoop (pbuf.length + 2) (pbuf ++ [nul]) pbuf.length .empty with
    | none => none
    | some (.error t) => some (leave t.ret none)
    | some (.ok t) =>
      if t.itemTable = [] then some (leave t.ret none)
      else some (leave t.ret (some (writeFile host t)))

end Melis.Script
