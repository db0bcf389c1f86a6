import Melis.Mods.Isolation

/-!
# The ELF loader

`LDR_LoadELFFile` of `loader.c`, on the bytes of a file. A seek outside the file leaves the
position, and a read that the file cannot answer in full leaves the rest of the buffer; neither
result is looked at. What `rt_malloc` answers, and what stands in its blocks, are arguments.
`none` is a write or a read outside a buffer. `HasMagic` says what the sections of a file
are, whether or not the loader gets at them.
-/

namespace Melis.Mods.Ldr

abbrev Bytes := List UInt8

/-- A 16-bit number, the low byte first. -/
def half (bs : Bytes) (p : Nat) : Nat := (bs.getD p 0).toNat + 256 * (bs.getD (p + 1) 0).toNat

/-- A 32-bit number. -/
def word (bs : Bytes) (p : Nat) : Nat := half bs p + 65536 * half bs (p + 2)

/-- `'\x7f', "ELF"` -/
def ELFMAG : Bytes := [0x7f, 0x45, 0x4c, 0x46]

/-- `"MAGIC"` -/
def MAGIC : Bytes := [0x4d, 0x41, 0x47, 0x49, 0x43]

/-- `"ePDK.mod"` -/
def modMagic : Bytes := [0x65, 0x50, 0x44, 0x4b, 0x2e, 0x6d, 0x6f, 0x64]

/-- `"ePDK.exf"` -/
def exfMagic : Bytes := [0x65, 0x50, 0x44, 0x4b, 0x2e, 0x65, 0x78, 0x66]

def LDR_INVALID_FILE : Nat := 0

def LDR_PROCESS_FILE : Nat := 1

/-! ## Headers -/

section

variable (ELFHdr SecHdr : Bytes)

def shoff : Nat := word ELFHdr 32
def shentsize : Nat := half ELFHdr 46
def shnum : Nat := half ELFHdr 48
def shstrndx : Nat := half ELFHdr 50

def shName : Nat := word SecHdr 0
def shOffset : Nat := word SecHdr 16
def shSize : Nat := word SecHdr 20

end

/-! ## The file and the heap -/

structure Heap where
  /-- Whether `rt_malloc` finds that many bytes. -/
  malloc : Nat → Bool
  bytes : Nat → UInt8

/-- The position after `esFSYS_fseek`, whose `Offset` is an `__s32`. -/
def esFSYS_fseek (file : Bytes) (Offset pos : Nat) : Nat :=
  if Offset < 2 ^ 31 ∧ Offset ≤ file.length then Offset else pos

/-- The buffer and the position after `esFSYS_fread` of `n` bytes. -/
def esFSYS_fread (file pData : Bytes) (n pos : Nat) : Option (Bytes × Nat) :=
  let read := (file.drop pos).take n
  if read.length ≤ pData.length then
    some (read ++ pData.drop read.length, pos + read.length)
  else none

/-- `rt_strncmp` of the string at `&cs[p]` with a text that has no NUL: whether they agree. -/
def rt_strncmp (cs : Bytes) : Nat → Bytes → Option Bool
  | _, [] => some true
  | p, c :: ct => (cs[p]?).bind fun b => if b = c then rt_strncmp cs (p + 1) ct else some false

/-- The header of section `Idx`, over what `SecHdr` held. -/
def readSecHdr (file ELFHdr SecHdr : Bytes) (Idx pos : Nat) : Option (Bytes × Nat) :=
  let Offset := (shoff ELFHdr + shentsize ELFHdr * Idx) % 2 ^ 32
  esFSYS_fread file SecHdr (shentsize ELFHdr) (esFSYS_fseek file Offset pos)

def fileType (Magic : Bytes) : Nat :=
  if Magic.take 8 = modMagic then LDR_MODULE_FILE
  else if Magic.take 8 = exfMagic then LDR_PROCESS_FILE
  else LDR_INVALID_FILE

/-- The magic of the section with header `SecHdr`. -/
def readMagic (file SecHdr : Bytes) (pos : Nat) : Option Nat :=
  (esFSYS_fread file (List.replicate 64 0) 64 (esFSYS_fseek file (shOffset SecHdr) pos)).map
    fun r => fileType r.1

/-- The loop over the sections, with the turns left: `MagicIdx` and `FileType`. -/
def findMagic (file ELFHdr shstrtbl : Bytes) : Nat → Nat → Bytes → Nat → Option (Nat × Nat)
  | 0, _, _, _ => some (LDR_INVALID_INDEX.toNat, LDR_INVALID_FILE)
  | n + 1, Idx, SecHdr, pos => do
    let (SecHdr, pos) ← readSecHdr file ELFHdr SecHdr Idx pos
    let equal ← rt_strncmp shstrtbl (shName SecHdr) MAGIC
    if equal then
      let FileType ← readMagic file SecHdr pos
      some (Idx, FileType)
    else findMagic file ELFHdr shstrtbl n (Idx + 1) SecHdr pos

/-- `open_elf_t` but for the file. -/
structure OpenElf where
  IsMFSROMELF : Bool
  FileType : Nat
  shoff : Nat
  MagicIdx : Nat
  SecNum : Nat
  deriving DecidableEq, Repr

def sizeofOpenElf : Nat := 24

/-- What a call returns, and the string tables it has not freed. -/
structure Loaded where
  pOPENELF : Option OpenElf
  tables : Nat
  deriving DecidableEq, Repr

/-- The end of the call, after the string table has been freed. -/
def openElf (heap : Heap) (ELFHdr : Bytes) (MagicIdx FileType : Nat) : Option OpenElf :=
  if MagicIdx = LDR_INVALID_INDEX.toNat ∨ FileType = LDR_INVALID_FILE then none
  else if heap.malloc sizeofOpenElf then
    some { IsMFSROMELF := false, FileType, shoff := shoff ELFHdr, MagicIdx, SecNum := shnum ELFHdr }
  else none

def LDR_LoadELFFile (heap : Heap) (file : Bytes) : Option Loaded := do
  let (ELFHdr, pos) ← esFSYS_fread file (List.replicate 52 0) 52 (esFSYS_fseek file 0 0)
  if ELFHdr.take 4 ≠ ELFMAG then some { pOPENELF := none, tables := 0 } else
  let (SecHdr, pos) ← readSecHdr file ELFHdr (List.replicate 40 0) (shstrndx ELFHdr) pos
  let size := shSize SecHdr
  if heap.malloc size = false then some { pOPENELF := none, tables := 0 } else
  let shstrtbl := (List.range size).map heap.bytes
  let tables := 1
  let (shstrtbl, pos) ←
    esFSYS_fread file shstrtbl size (esFSYS_fseek file (shOffset SecHdr) pos)
  let (MagicIdx, FileType) ← findMagic file ELFHdr shstrtbl (shnum ELFHdr) 0 SecHdr pos
  let tables := tables - 1
  some { pOPENELF := openElf heap ELFHdr MagicIdx FileType, tables }

/-! ## The sections of a file -/

section

variable (file : Bytes)

/-- An ELF file begins with its magic. -/
def IsElf : Prop := file.take 4 = ELFMAG

instance : Decidable (IsElf file) := inferInstanceAs (Decidable (_ = _))

/-- The header of the file. -/
def elfHdr : Bytes := file.take 52 ++ List.replicate (52 - file.length) 0

def secAt (i : Nat) : Nat := shoff (elfHdr file) + shentsize (elfHdr file) * i

/-- The header of section `i` lies in the file, with its fields up to the size. -/
def HasSection (i : Nat) : Prop :=
  52 ≤ file.length ∧ 24 ≤ shentsize (elfHdr file) ∧
    secAt file i + shentsize (elfHdr file) ≤ file.length

def secHdr (i : Nat) : Bytes := file.drop (secAt file i)

/-- The string table. -/
def strTable : Bytes :=
  let hdr := secHdr file (shstrndx (elfHdr file))
  (file.drop (shOffset hdr)).take (shSize hdr)

/-- The name of section `i` begins with `MAGIC`. -/
def Named (i : Nat) : Prop :=
  HasSection file i ∧ ((strTable file).drop (shName (secHdr file i))).take 5 = MAGIC

/-- The first section named `MAGIC` is section `i`. -/
def FirstMagic (i : Nat) : Prop :=
  i < shnum (elfHdr file) ∧ Named file i ∧ ∀ j < i, ¬ Named file j

/-- An ELF file whose first section named `MAGIC` holds one of the two magics. -/
def HasMagic : Prop :=
  IsElf file ∧ HasSection file (shstrndx (elfHdr file)) ∧ ∃ i, FirstMagic file i ∧
    ((file.drop (shOffset (secHdr file i))).take 8 = modMagic ∨
      (file.drop (shOffset (secHdr file i))).take 8 = exfMagic)

end

end Melis.Mods.Ldr
