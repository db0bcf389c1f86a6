import Mathlib.Data.Int.NatAbs
import Melis.Lib.Isolation
import Melis.Lib.Run

/-!
# The module table

`mods.c`: modules are installed and uninstalled by threads, each step of a call
between two places where another thread can run. The store they share has a slot
for each module id, the control blocks, the handles of the loader and the pages of
virtual memory that are mapped. The pages that `awos_arch_vmem_delete` takes away
are a parameter, since the architectures count them differently.
-/

namespace Melis.Mods

open Lib Function

abbrev Tid := Nat

def LDR_MODULE_FILE : Nat := 2

def LDR_INVALID_INDEX : UInt32 := 0xffffffff

def EELF_SHT_PROGBITS : UInt32 := 1

def EELF_SHT_NOBITS : UInt32 := 8

def EELF_SHF_ALLOC : UInt32 := 2

def EMOD_TYPE_USER : UInt8 := 0xff

def EPOS_umod_segsize : UInt32 := 32 * 1024 * 1024

def EPOS_smod_segsize : UInt32 := 1024 * 1024

def EPOS_umod_startaddr : UInt32 := 0x80000000

def EPOS_smod_startaddr : UInt32 := 0xe0000000

def EPOS_umid_min : UInt8 := 64

def EPOS_umid_max : UInt8 := 95

def EPOS_smid_min : UInt8 := 96

def EPOS_smid_max : UInt8 := 0xfc

/-- `__section_rom_hdr_t` -/
structure SectionHdr where
  Size : UInt32
  VAddr : UInt32
  Type_ : UInt32
  Flags : UInt32
  deriving DecidableEq, Repr

/-- What the loader reads of a file. -/
structure ModFile where
  FileType : Nat
  MagicIdx : UInt32
  /-- `type` in the magic section. -/
  type : UInt8
  sections : List SectionHdr
  deriving DecidableEq, Repr

/-- `__module_mcb_t` -/
structure Mcb where
  id : UInt8
  type : UInt8
  vmbitmap : UInt32
  deriving DecidableEq, Repr

/-! ## The store -/

inductive Key
  | slot (id : UInt8)
  | mcb (p : UInt32)
  | handle (h : UInt32)
  | page (n : Nat)
  deriving DecidableEq, Repr

/-- What there is under a key: the control block of a module, whether a handle is open and
whether a page is mapped. -/
abbrev Val : Key → Type
  | .slot _ => Option UInt32
  | .mcb _ => Option Mcb
  | .handle _ => Bool
  | .page _ => Bool

def empty : ∀ k, Val k
  | .slot _ => none
  | .mcb _ => none
  | .handle _ => false
  | .page _ => false

/-- Writes one key. -/
def put (k : Key) (v : Val k) (k' : Key) (old : Val k') : Val k' :=
  if h : k = k' then h ▸ v else old

/-- Writes `f` of what was there to the pages. -/
def putPages (f : Nat → Bool → Bool) : ∀ k, Val k → Val k
  | .page n, old => f n old
  | .slot _, old => old
  | .mcb _, old => old
  | .handle _, old => old

/-! ## Sections in memory -/

/-- A section of the program, which is loaded or cleared. -/
def SectionHdr.alloc (sec : SectionHdr) : Bool :=
  (sec.Type_ = EELF_SHT_PROGBITS ∨ sec.Type_ = EELF_SHT_NOBITS) ∧ sec.Flags &&& EELF_SHF_ALLOC ≠ 0

def moduleAddr (mcb : Mcb) : UInt32 :=
  if mcb.type = EMOD_TYPE_USER then
    EPOS_umod_startaddr + (mcb.id.toUInt32 - EPOS_umid_min.toUInt32) * EPOS_umod_segsize
  else 0

/-- The pages that `MODS_LoadSectionData` creates: from the next multiple of 4 KB on. -/
def sectionPages (mcb : Mcb) (sec : SectionHdr) (n : Nat) : Bool :=
  let VMAddr := moduleAddr mcb + sec.VAddr
  let AlignAddr := (VMAddr + 0xfff) &&& ~~~ 0xfff
  let npage := (sec.Size + VMAddr - AlignAddr + 0xfff) >>> 12
  sec.alloc && decide (AlignAddr.toNat / 4096 ≤ n ∧ n < AlignAddr.toNat / 4096 + npage.toNat)

/-- `BitNum` bits from `BitIndex` on; a bit from 32 on is shifted out. -/
def setBits (vmbitmap : UInt32) : (BitNum BitIndex : Nat) → UInt32
  | 0, _ => vmbitmap
  | BitNum + 1, BitIndex =>
    setBits (vmbitmap ||| UInt32.ofNat (2 ^ BitIndex % 2 ^ 32)) BitNum (BitIndex + 1)

def MODS_SectionVMBitMapSet (mcb : Mcb) (sec : SectionHdr) : Mcb :=
  if sec.alloc then
    let vBaseAddr := if mcb.type = EMOD_TYPE_USER then sec.VAddr
      else sec.VAddr - (EPOS_smod_startaddr +
        (mcb.id.toUInt32 - EPOS_smid_min.toUInt32) * EPOS_smod_segsize)
    let BitNum := (sec.Size + 1024 * 1024 - 1) >>> 20
    let BitIndex := (vBaseAddr >>> 20).toNat % 32
    { mcb with vmbitmap := setBits mcb.vmbitmap BitNum.toNat BitIndex }
  else mcb

def MODS_VMBitMapIsSet (vmbitmap : UInt32) (BitIndex : Nat) : Bool :=
  vmbitmap &&& UInt32.ofNat (2 ^ (BitIndex % 32)) != 0

/-- The pages of a delete, by the address and the number of pages. -/
abbrev VmemDelete := UInt32 → UInt32 → Nat → Bool

variable (vmem_delete : VmemDelete)

/-- The pages that `MODS_DestoryModuleVM` takes away. -/
def destroyPages (mcb : Mcb) (n : Nat) : Bool :=
  (List.range 32).any fun BitIndex => MODS_VMBitMapIsSet mcb.vmbitmap BitIndex &&
    if mcb.type = EMOD_TYPE_USER then
      vmem_delete (EPOS_umod_startaddr + (mcb.id.toUInt32 - EPOS_umid_min.toUInt32 +
        UInt32.ofNat BitIndex) * EPOS_umod_segsize) (EPOS_umod_segsize >>> 10) n
    else
      vmem_delete (EPOS_smod_startaddr + (mcb.id.toUInt32 - EPOS_smid_min.toUInt32 +
        UInt32.ofNat BitIndex) * EPOS_smod_segsize) (EPOS_smod_segsize >>> 10) n

/-- `0` where there is no id. -/
def MODS_GetModuleID (slot : UInt8 → Option UInt32) (type : UInt8) : UInt8 :=
  if type = EMOD_TYPE_USER then
    ((List.range' EPOS_umid_min.toNat 32).find? fun mid => (slot (UInt8.ofNat mid)).isNone).elim 0
      UInt8.ofNat
  else if EPOS_smid_max - EPOS_smid_min < type then 0
  else EPOS_smid_min + type

/-! ## Threads -/

/-- Where a thread is in a call. -/
inductive Pc
  | idle
  /-- `LDR_LoadFile` -/
  | load (file : ModFile)
  | fileType (file : ModFile) (hLDR : UInt32)
  | magic (file : ModFile) (hLDR : UInt32)
  /-- With interrupts off. -/
  | getId (file : ModFile) (hLDR : UInt32)
  | mallocMcb (file : ModFile) (hLDR : UInt32) (mid : UInt8)
  | setSlot (file : ModFile) (hLDR : UInt32) (mid : UInt8) (mcb : UInt32)
  | initMcb (file : ModFile) (hLDR : UInt32) (mid : UInt8) (mcb : UInt32)
  | mallocName (file : ModFile) (hLDR : UInt32) (mid : UInt8) (mcb : UInt32)
  /-- In `MODS_CreateModuleVM`, at a section. -/
  | section_ (file : ModFile) (hLDR : UInt32) (mid : UInt8) (mcb : UInt32) (index : Nat)
  | bitmap (file : ModFile) (hLDR : UInt32) (mid : UInt8) (mcb : UInt32) (index : Nat)
  | undo (hLDR : UInt32) (mid : UInt8) (mcb : UInt32)
  | notify (hLDR : UInt32) (mid : UInt8) (mcb : UInt32)
  | unload (hLDR : UInt32) (mid : UInt8) (mcb : UInt32)
  /-- From `error` on. -/
  | clearSlot (hLDR : UInt32) (mid : UInt8) (mcb : Option UInt32)
  | unloadError (hLDR : UInt32) (mcb : Option UInt32)
  | freeError (mcb : Option UInt32)
  /-- In `esMODS_MUninstall`. -/
  | exit (id : UInt8) (mcb : UInt32)
  | destroy (id : UInt8) (mcb : UInt32)
  | free (id : UInt8) (mcb : UInt32)
  | clear (id : UInt8)
  deriving DecidableEq, Repr

inductive Call
  | install (file : ModFile)
  | uninstall (id : UInt8)
  deriving DecidableEq, Repr

/-- What a step meets: the call a thread makes, what an operation returns, and the memory or the
handle that it gets. -/
structure Env where
  call : Call := .uninstall 0
  ok : Bool := true
  /-- Whether there is memory behind the pages; `awos_arch_vmem_create` does not say. -/
  mapped : Bool := true
  ptr : UInt32 := 0
  deriving DecidableEq, Repr

structure State where
  shared : Shared Tid Val
  pc : Tid → Pc
  /-- What the last call of a thread returned; `EPDK_FAIL` is kept as `0xffffffff`. -/
  ret : Tid → UInt32
  /-- The pages that were mapped in a call and are not unmapped since. -/
  own : Tid → Nat → Bool
  /-- The ids under which a module was installed and not uninstalled. -/
  installed : UInt8 → Bool

def State.mem (s : State) : ∀ k, Val k := s.shared.mem

def State.goto (s : State) (t : Tid) (pc : Pc) : State := { s with pc := update s.pc t pc }

def State.return_ (s : State) (t : Tid) (ret : UInt32) : State :=
  { s with pc := update s.pc t .idle, ret := update s.ret t ret }

def State.write (s : State) (t : Tid) (k : Key) (v : Val k) : State :=
  { s with shared := s.shared.act t (put k v) }

def State.map (s : State) (t : Tid) (pages : Nat → Bool) : State :=
  { s with
    shared := s.shared.act t (putPages fun n old => old || pages n)
    own := update s.own t fun n => s.own t n || pages n }

/-- Nobody has mapped any more what is unmapped. -/
def State.unmap (s : State) (t : Tid) (pages : Nat → Bool) : State :=
  { s with
    shared := s.shared.act t (putPages fun n old => old && !pages n)
    own := fun t' n => s.own t' n && !pages n }

def EPDK_OK : UInt32 := 0

def EPDK_FAIL : UInt32 := 0xffffffff

/-- A handle is closed once. -/
def State.close (s : State) (t : Tid) (hLDR : UInt32) : Option State :=
  if s.mem (.handle hLDR) then some (s.write t (.handle hLDR) false) else none

/-- One step of the thread `t`; `none` where memory is used that is not there. -/
def step (s : State) (t : Tid) (e : Env) : Option State :=
  match s.pc t with
  | .idle =>
    match e.call with
    | .install file => some ({ s with shared := s.shared.enter t }.goto t (.load file))
    | .uninstall id => do
      let mcb ← s.mem (.slot id)
      some ({ s with shared := s.shared.enter t }.goto t (.exit id mcb))
  | .load file =>
    if e.ok then some ((s.write t (.handle e.ptr) true).goto t (.fileType file e.ptr))
    else some (s.return_ t 0)
  | .fileType file hLDR =>
    if file.FileType = LDR_MODULE_FILE then some (s.goto t (.magic file hLDR))
    else some (s.goto t (.clearSlot hLDR 0 none))
  | .magic file hLDR =>
    if file.MagicIdx ≠ LDR_INVALID_INDEX ∧ e.ok then some (s.goto t (.getId file hLDR))
    else some (s.goto t (.clearSlot hLDR 0 none))
  | .getId file hLDR =>
    let mid := MODS_GetModuleID (fun id => s.mem (.slot id)) file.type
    if mid = 0 then some (s.goto t (.clearSlot hLDR 0 none))
    else if s.mem (.slot mid) ≠ none then some (s.return_ t mid.toUInt32)
    else some (s.goto t (.mallocMcb file hLDR mid))
  | .mallocMcb file hLDR mid =>
    if e.ok then
      some ((s.write t (.mcb e.ptr) (some ⟨0, 0, 0⟩)).goto t (.setSlot file hLDR mid e.ptr))
    else some (s.goto t (.clearSlot hLDR mid none))
  | .setSlot file hLDR mid mcb =>
    some ((s.write t (.slot mid) (some mcb)).goto t (.initMcb file hLDR mid mcb))
  | .initMcb file hLDR mid mcb => do
    let m ← s.mem (.mcb mcb)
    some ((s.write t (.mcb mcb) (some { m with id := mid, type := file.type })).goto t
      (.mallocName file hLDR mid mcb))
  | .mallocName file hLDR mid mcb =>
    if e.ok ∧ file.sections ≠ [] then some (s.goto t (.section_ file hLDR mid mcb 0))
    else some (s.goto t (.clearSlot hLDR mid (some mcb)))
  | .section_ file hLDR mid mcb index => do
    match file.sections[index]? with
    | none => some (s.goto t (.notify hLDR mid mcb))
    | some sec =>
      if index = file.MagicIdx.toNat then
        some (s.goto t (.section_ file hLDR mid mcb (index + 1)))
      else if e.ok then
        let m ← s.mem (.mcb mcb)
        if sec.alloc ∧ ¬ e.mapped then none
        else some ((s.map t (sectionPages m sec)).goto t (.bitmap file hLDR mid mcb index))
      else
        some (s.goto t (.undo hLDR mid mcb))
  | .bitmap file hLDR mid mcb index => do
    let m ← s.mem (.mcb mcb)
    let m := match file.sections[index]? with
      | some sec => if e.ok then MODS_SectionVMBitMapSet m sec else m
      | none => m
    some ((s.write t (.mcb mcb) (some m)).goto t (.section_ file hLDR mid mcb (index + 1)))
  | .undo hLDR mid mcb => do
    let m ← s.mem (.mcb mcb)
    some (((s.unmap t (destroyPages vmem_delete m)).write t (.mcb mcb)
      (some { m with vmbitmap := 0 })).goto t (.clearSlot hLDR mid (some mcb)))
  | .notify hLDR mid mcb =>
    if e.ok then some (s.goto t (.unload hLDR mid mcb))
    else some (s.goto t (.clearSlot hLDR mid (some mcb)))
  | .unload hLDR mid _ => do
    let s ← s.close t hLDR
    some ({ s with
      own := update s.own t fun _ => false
      installed := update s.installed mid true }.return_ t mid.toUInt32)
  | .clearSlot hLDR mid mcb =>
    let s := if mid = 0 then s else s.write t (.slot mid) none
    some (s.goto t (.unloadError hLDR mcb))
  | .unloadError hLDR mcb => do
    let s ← s.close t hLDR
    some (s.goto t (.freeError mcb))
  | .freeError none => some (s.return_ t 0)
  | .freeError (some mcb) => do
    let _ ← s.mem (.mcb mcb)
    some ((s.write t (.mcb mcb) none).return_ t 0)
  | .exit id mcb => do
    let _ ← s.mem (.mcb mcb)
    if e.ok then some (s.goto t (.destroy id mcb)) else some (s.return_ t EPDK_FAIL)
  | .destroy id mcb => do
    let m ← s.mem (.mcb mcb)
    some (((s.unmap t (destroyPages vmem_delete m)).write t (.mcb mcb)
      (some { m with vmbitmap := 0 })).goto t (.free id mcb))
  | .free id mcb => do
    let _ ← s.mem (.mcb mcb)
    some ((s.write t (.mcb mcb) none).goto t (.clear id))
  | .clear id =>
    some ({ s.write t (.slot id) none with installed := update s.installed id false }.return_ t
      EPDK_OK)

/-- Threads that take steps in any order. -/
def mods : Machine State (Tid × Env) where
  next s i := step vmem_delete s i.1 i.2

def init : State where
  shared := ⟨empty, fun _ => empty⟩
  pc _ := .idle
  ret _ := 0
  own _ _ := false
  installed _ := false

/-! ## What is claimed of a run -/

/-- The id that a call works on. -/
def Pc.id : Pc → Option UInt8
  | .mallocMcb _ _ mid | .setSlot _ _ mid _ | .initMcb _ _ mid _ | .mallocName _ _ mid _ => some mid
  | .section_ _ _ mid _ _ | .bitmap _ _ mid _ _ => some mid
  | .undo _ mid _ | .notify _ mid _ | .unload _ mid _ => some mid
  | .clearSlot _ mid _ => if mid = 0 then none else some mid
  | .exit id _ | .destroy id _ | .free id _ | .clear id => some id
  | _ => none

def Pc.Uninstalling : Pc → Prop
  | .exit .. | .destroy .. | .free .. | .clear .. => True
  | _ => False

def Pc.Installing (pc : Pc) : Prop := pc ≠ .idle ∧ ¬ pc.Uninstalling

/-- No call is working on the id. -/
def Unclaimed (s : State) (id : UInt8) : Prop := ∀ t, (s.pc t).id ≠ some id

/-- Where no call is at work, the slots that are not empty are those of the modules that are
installed. -/
def Sound (s : State) : Prop :=
  ∀ id, Unclaimed s id → ((s.mem (.slot id)).isSome ↔ s.installed id = true)

/-- An install that returns has closed the handles it opened, each once, and if it has failed or
the module was there before, then everything is as if it had not been called. -/
def StepOk (s : State) (i : Tid × Env) (s' : State) : Prop :=
  (s.pc i.1).Installing → s'.pc i.1 = .idle →
    (∀ h, s'.mem (.handle h) = s.shared.base i.1 (.handle h)) ∧
      (s'.ret i.1 = 0 ∨ (∃ file h, s.pc i.1 = .getId file h) → s'.mem = s.shared.base i.1)

/-- What the kernel promises: handles, memory and pages that are handed out are not in use. -/
def Legal (s : State) (i : Tid × Env) : Prop :=
  match s.pc i.1 with
  | .load _ => i.2.ok = true → s.mem (.handle i.2.ptr) = false
  | .mallocMcb _ _ _ => i.2.ok = true → s.mem (.mcb i.2.ptr) = none
  | .section_ file _ _ mcb index => i.2.ok = true → ∀ m ∈ s.mem (.mcb mcb),
      ∀ sec ∈ file.sections[index]?, ∀ n, sectionPages m sec n = true → s.mem (.page n) = false
  | _ => True

/-- An install finds its slot empty, an uninstall finds a module, and no other call is at work on
the id; there is memory for the pages, and where a call fails with pages mapped, these are given
back exactly. -/
def Undisturbed (s : State) (i : Tid × Env) : Prop :=
  match s.pc i.1 with
  | .idle =>
    match i.2.call with
    | .install _ => True
    | .uninstall id => s.mem (.slot id) ≠ none ∧ Unclaimed s id
  | .getId file _ =>
    let mid := MODS_GetModuleID (fun id => s.mem (.slot id)) file.type
    mid ≠ 0 → s.mem (.slot mid) = none ∧ Unclaimed s mid
  | .section_ .. => i.2.mapped = true
  | .undo _ _ mcb => ∀ m ∈ s.mem (.mcb mcb), ∀ n, s.mem (.page n) = true →
      destroyPages vmem_delete m n = s.own i.1 n
  | .notify .. => i.2.ok = true ∨ ∀ n, s.own i.1 n = false
  | _ => True

end Melis.Mods
