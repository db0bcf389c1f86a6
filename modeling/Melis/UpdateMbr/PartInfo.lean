import Melis.Lib.C

/-!
# The partitions of a compiled script

From `script.c` of the host tool `update_mbr`: the main keys of a compiled script, of which the
partitions are those behind `partition_start`, and the values of their sub keys. `none` is an
access outside the script or a value that does not fit in the variable for it.
-/

namespace Melis.UpdateMbr

open Lib

abbrev Byte := BitVec 8

abbrev Word := BitVec 32

/-- `data` are the bytes of the script from the offset of the value on. -/
structure script_sub_key where
  sub_name : CStr
  pattern : Nat
  word_count : Nat
  data : List Byte

structure script_main_key where
  main_name : CStr
  subs : List script_sub_key

/-- `behind` is what the bytes behind the main keys read as. -/
structure Script where
  keys : List script_main_key
  behind : List script_main_key

/-- The main keys by index, and what is taken for them. -/
def Script.slots (script : Script) : List script_main_key := script.keys ++ script.behind

def SCRIPT_PARSER_OK : Int := 0

def SCRIPT_PARSER_KEY_NOT_FIND : Int := -4

/-- The `strcmp` of a main key with `partition`. -/
def isPartition (key : script_main_key) : Bool := key.main_name = "partition".toList

def isPartitionStart (key : script_main_key) : Bool := key.main_name = "partition_start".toList

/-- `partition_start` and `partition_next`. -/
structure Cursor where
  start : Nat
  next : Nat

def script_parser_fetch_partition (script : Script) (c : Cursor) : Option (Int × Cursor) :=
  let c := if c.start = 0 then
      match script.keys.findIdx? isPartitionStart with
      | some i => ⟨i, i⟩
      | none => c
    else c
  if c.start = 0 then some (-1, c)
  else
    let c := { c with next := c.next + 1 }
    match script.slots[c.next]? with
    | none => none
    | some key =>
      if isPartition key then some ((c.next : Int), c) else some (0, c)

/-- Copies the first `n` bytes of a value to a variable. -/
def memcpy (value data : List Byte) (n : Nat) : Option (List Byte) :=
  if n ≤ data.length ∧ n ≤ value.length then some (data.take n ++ value.drop n) else none

def script_parser_fetch_mainkey_sub (sub_name : String) (key : script_main_key)
    (value : List Byte) : Option (Int × List Byte) :=
  if isPartition key = false then some (-1, value)
  else
    match key.subs.find? fun sub => sub.sub_name = sub_name.toList with
    | none => some (SCRIPT_PARSER_KEY_NOT_FIND, value)
    | some sub =>
      let ok (v : Option (List Byte)) := v.map fun v => (SCRIPT_PARSER_OK, v)
      match sub.pattern with
      | 1 => ok (memcpy value sub.data 4)
      | 2 =>
        if sub.word_count = 0 then some (1, value)
        else ok (memcpy value sub.data (4 * sub.word_count))
      | 4 => ok (memcpy value sub.data (4 * sub.word_count))
      | _ => ok (some value)

/-! ## The tables of the partitions

From `update_mbr.c`: `update_for_part_info` makes the table of the partitions, and the one of what
is downloaded to them, from the partitions of a script. A string that is longer than its field
goes on in the fields behind it.
-/

structure sunxi_partition where
  addrhi : Word
  addrlo : Word
  lenhi : Word
  lenlo : Word
  classname : List Byte
  name : List Byte
  user_type : Word
  keydata : Word
  ro : Word

structure sunxi_mbr where
  version : Word
  magic : List Byte
  copy : Word
  PartCount : Word
  array : List sunxi_partition

structure dl_one_part_info where
  name : List Byte
  addrhi : Word
  addrlo : Word
  lenhi : Word
  lenlo : Word
  dl_filename : List Byte
  vf_filename : List Byte
  encrypt : Word
  verify : Word

structure sunxi_download_info where
  version : Word
  magic : List Byte
  download_count : Word
  one_part_info : List dl_one_part_info

def ascii (s : String) : List Byte := s.toList.map fun c => BitVec.ofNat 8 c.toNat

/-- The C string in a buffer; `none` without a NUL in it. -/
def cstr (buf : List Byte) : Option (List Byte) :=
  if 0#8 ∈ buf then some (buf.takeWhile (· ≠ 0#8)) else none

/-- The word at `i`. -/
def wordAt (buf : List Byte) (i : Nat) : Word :=
  buf.getD (i + 3) 0 ++ buf.getD (i + 2) 0 ++ buf.getD (i + 1) 0 ++ buf.getD i 0

/-- The bytes of a word, put at the start of a variable. -/
def setWord (w : Word) (value : List Byte) : List Byte :=
  [w.extractLsb' 0 8, w.extractLsb' 8 8, w.extractLsb' 16 8, w.extractLsb' 24 8] ++ value.drop 4

/-- A field of `n` bytes, zero before, behind a `strcpy`. -/
def padded (n : Nat) (s : List Byte) : List Byte := (s ++ List.replicate n 0).take n

/-- The last component of the path, in upper case, over the first of the 16 bytes of `name`;
`none` if the path does not fit in 260 bytes. -/
def get_file_name (cwd : Option (List Byte)) (path name : List Byte) : Option (List Byte) :=
  let slash := 0x2f#8
  let buffer := if path.head? = some slash then some path
    else cwd.map fun cwd => cwd ++ slash :: path
  match buffer with
  | none => some name
  | some buffer =>
    if buffer.length < 260 then
      let component := buffer.reverse.takeWhile (fun c => c ≠ slash ∧ c ≠ 0x5c#8) |>.reverse
      let upper := (component.take 16).map fun c =>
        if c = 0x2e#8 then 0x5f#8 else if 0x61#8 ≤ c ∧ c ≤ 0x7a#8 then c - 0x20#8 else c
      some (upper ++ name.drop upper.length)
    else none

/-- What a section says about the download to its partition. -/
structure Download where
  filename : List Byte
  verify : Word
  vf_filename : List Byte
  encrypt : Word

/-- What a section says about its partition. -/
structure Section where
  name : List Byte
  user_type : Word
  ro : Word
  keydata : Word
  lenlo : Word
  download : Option Download

/-- `DISK`, the name of a partition without a size. -/
def UDISK : List Byte := ascii "UDISK"

/-- A word that a sub key sets, and `old` where there is none. -/
def fetchWord (sub_name : String) (key : script_main_key) (value : List Byte) (old : Word) :
    Option (Word × List Byte) :=
  (script_parser_fetch_mainkey_sub sub_name key value).map fun (ret, value) =>
    (if ret = 0 then wordAt value 0 else old, value)

/-- The file that is downloaded, if there is one. -/
def readFile (cwd : Option (List Byte)) (key : script_main_key) :
    Option (Option (List Byte)) := do
  let (ret, fullname) ← script_parser_fetch_mainkey_sub "downloadfile" key (List.replicate 260 0)
  if ret = 0 then
    let path ← cstr fullname
    let filename ← get_file_name cwd path (List.replicate 16 0x30)
    some (some filename)
  else some none

/-- `verify` and `encrypt` of a file. -/
def readDownload (key : script_main_key) (filename value : List Byte) :
    Option (Download × List Byte) := do
  let (ret, value) ← script_parser_fetch_mainkey_sub "verify" key (setWord 1 value)
  let verify := wordAt value 0
  let vf_filename := if ret = 0 ∧ verify = 0 then List.replicate 16 0
    else 0x56 :: filename.take 15
  let (encrypt, value) ← fetchWord "encrypt" key value 0
  some ({ filename, verify, vf_filename, encrypt }, value)

def readFlags (key : script_main_key) :
    Option (List Byte) → List Byte → Option (Option Download × List Byte)
  | none, value => some (none, value)
  | some filename, value =>
    (readDownload key filename value).map fun (d, value) => (some d, value)

/-- A section of the script as the loop of `update_for_part_info` reads it; `.error` where the
name or the size is missing. -/
def readSection (cwd : Option (List Byte)) (key : script_main_key) :
    Option (Except Unit Section) := do
  let (ret, value) ← script_parser_fetch_mainkey_sub "name" key (List.replicate 32 0)
  if ret ≠ 0 then some (.error ())
  else
    let name ← cstr value
    let file ← readFile cwd key
    let spill := padded 32 name
    let (user_type, value) ← fetchWord "user_type" key value (wordAt spill 16)
    let (ro, value) ← fetchWord "ro" key value (wordAt spill 24)
    let (keydata, value) ← fetchWord "keydata" key value (wordAt spill 20)
    let (download, value) ← readFlags key file value
    if name = UDISK then some (.ok { name, user_type, ro, keydata, lenlo := 0, download })
    else
      let (ret, value) ← script_parser_fetch_mainkey_sub "size" key value
      if ret = 0 then
        some (.ok { name, user_type, ro, keydata, lenlo := wordAt value 0, download })
      else some (.error ())

/-- The sectors of the partitions. -/
def sunxi_partition.addr (p : sunxi_partition) : Nat := p.addrlo.toNat + p.addrhi.toNat * 2 ^ 32

def sunxi_partition.len (p : sunxi_partition) : Nat := p.lenlo.toNat + p.lenhi.toNat * 2 ^ 32

/-- The address behind the partitions before, high and low; without one, behind the MBR. -/
def nextAddr (mbr_size : Word) (array : List sunxi_partition) : Word × Word :=
  match array.getLast? with
  | none => (0, mbr_size)
  | some p =>
    let start_sector := (p.addrlo.toNat ||| p.addrhi.toNat <<< 32) + p.lenlo.toNat
    (BitVec.ofNat 32 (start_sector >>> 32), BitVec.ofNat 32 start_sector)

/-- What the loop has made so far. -/
structure Tables where
  array : List sunxi_partition
  downloads : List dl_one_part_info
  udisk_exist : Bool

def Tables.add (mbr_size : Word) (t : Tables) (s : Section) : Tables :=
  let (addrhi, addrlo) := nextAddr mbr_size t.array
  { array := t.array ++
      [{ addrhi, addrlo, lenhi := 0, lenlo := s.lenlo
         classname := padded 16 (ascii "DISK"), name := padded 16 s.name
         user_type := s.user_type, keydata := s.keydata, ro := s.ro }]
    downloads := t.downloads ++
      match s.download with
      | none => []
      | some d =>
        [{ name := padded 16 s.name, addrhi, addrlo
           lenhi := wordAt (padded 32 s.name) 24, lenlo := s.lenlo
           dl_filename := d.filename, vf_filename := d.vf_filename
           encrypt := d.encrypt, verify := d.verify }]
    udisk_exist := t.udisk_exist || s.name = UDISK }

/-- The entries that the structure of the table has room for: behind the 120 of the array are
reserved bytes for another eight. -/
def roomForParts : Nat := 128

/-- The loop; `left` are the entries that still fit in the structure. -/
def fillTables (script : Script) (cwd : Option (List Byte)) (mbr_size : Word) :
    Nat → Cursor → Tables → Option (Except Unit (Int × Tables))
  | left, c, t =>
    match script_parser_fetch_partition script c with
    | none => none
    | some (part_handle, c) =>
      if part_handle ≤ 0 then some (.ok (part_handle, t))
      else
        match left with
        | 0 => none
        | left + 1 =>
          match script.slots[c.next]? with
          | none => none
          | some key =>
            match readSection cwd key with
            | none => none
            | some (.error _) => some (.error ())
            | some (.ok s) => fillTables script cwd mbr_size left c (t.add mbr_size s)

/-- The disk of the user is behind the other partitions, with no size. -/
def appendUdisk (mbr_size : Word) (t : Tables) : Option (List sunxi_partition) :=
  if t.udisk_exist then some t.array
  else if t.array = [] ∨ t.array.length ≥ roomForParts then none
  else
    let (addrhi, addrlo) := nextAddr mbr_size t.array
    some (t.array ++
      [{ addrhi, addrlo, lenhi := 0, lenlo := 0
         classname := padded 16 (ascii "DISK"), name := padded 16 UDISK
         user_type := 0, keydata := 0, ro := 0 }])

/-- The two tables that are written to files. -/
def results (mbr_count : Word) (t : Tables) (array : List sunxi_partition) :
    sunxi_mbr × sunxi_download_info :=
  ({ version := 0x00000200
     magic := ascii "softw411"
     copy := if mbr_count = 0 then 4 else mbr_count
     PartCount := BitVec.ofNat 32 array.length
     array },
   { version := 0x00000200
     magic := ascii "softw411"
     download_count := BitVec.ofNat 32 t.downloads.length
     one_part_info := t.downloads })

/-- `.error` is the result `-1`. -/
def update_for_part_info (script : Script) (cwd : Option (List Byte)) (mbr_count mbr_size : Word) :
    Option (Except Unit (sunxi_mbr × sunxi_download_info)) :=
  match fillTables script cwd mbr_size roomForParts ⟨0, 0⟩ ⟨[], [], false⟩ with
  | none => none
  | some (.error _) => some (.error ())
  | some (.ok (part_handle, t)) =>
    if part_handle < 0 then some (.error ())
    else (appendUdisk mbr_size t).map fun array => .ok (results mbr_count t array)

end Melis.UpdateMbr
