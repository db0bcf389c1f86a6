import Melis.Lib.C
import Melis.Mods.Install

/-!
# The virtual memory of a module

`MODS_CreateModuleVM` and `MODS_DestoryModuleVM` of `mods.c`, over the page tables of the
Cortex-A7 port (`mmu.c` and `page_2nd_level.c`), which counts both ways in pages of 4 KB. `none` is
an access to a page that is not mapped, or a `BUG()`, which loops. `rt_page_alloc` is a
parameter: whether it finds so many pages.
-/

namespace Melis.Mods.VirtualMemory

open Lib

def PAGE_SIZE : Nat := 4096

/-- Two megabytes. -/
def totalram_pages : Nat := 512

/-- `stale` is what a failed map leaves: mapped to memory that was given back. -/
inductive Page
  | unmapped
  | mapped
  | stale
  deriving DecidableEq, Repr

/-- `module_alloc_info_t` but for the physical pages. -/
structure AllocInfo where
  start : Nat
  end_ : Nat
  npages : Nat
  deriving DecidableEq, Repr

/-- The pages, by the number in the address, what they hold, and the records of
`module_alloc`, none of which is for more than `totalram_pages`. -/
structure Vm where
  page : Nat → Page
  byte : Nat → UInt8
  infos : List AllocInfo
  small : ∀ p ∈ infos, p.end_ ≤ p.start + totalram_pages * PAGE_SIZE

variable (rt_page_alloc : Nat → Bool)

/-! ## `page_2nd_level.c` -/

/-- The pages from the address `start` on. -/
def InPages (start n i : Nat) : Prop := start / PAGE_SIZE ≤ i ∧ i < start / PAGE_SIZE + n

instance (start n i : Nat) : Decidable (InPages start n i) := inferInstanceAs (Decidable (_ ∧ _))

/-- `__vmalloc_area_node`, where there are pages: a page that is mapped already ends the map. -/
def vmalloc_area (vm : Vm) (start n : Nat) (hn : n ≤ totalram_pages) : Vm :=
  if ∀ i ∈ List.range' (start / PAGE_SIZE) n, vm.page i = .unmapped then
    { page := fun i => if InPages start n i then .mapped else vm.page i
      byte := fun a => if InPages start n (a / PAGE_SIZE) then 0 else vm.byte a
      infos := ⟨start, start + n * PAGE_SIZE, n⟩ :: vm.infos
      small := fun p hp => (List.mem_cons.1 hp).elim
        (fun h => h ▸ Nat.add_le_add_left (Nat.mul_le_mul_right _ hn) _) (vm.small p) }
  else
    let taken := (List.range' (start / PAGE_SIZE) n).takeWhile fun i => vm.page i = .unmapped
    { vm with
      page := fun i => if i ∈ taken then .stale else vm.page i
      byte := fun a => if a / PAGE_SIZE ∈ taken then 0 else vm.byte a }

/-- Maps nothing outside [0xe2000000, 0xf0000000). -/
def module_alloc (vm : Vm) (start map_size : Nat) : Option Vm :=
  if map_size = 0 then some vm
  else if start < 0xe2000000 ∨ 0xf0000000 ≤ (start + map_size) % 2 ^ 32 then some vm
  else if hn : map_size / PAGE_SIZE ≤ totalram_pages then
    if rt_page_alloc (map_size / PAGE_SIZE) then
      some (vmalloc_area vm start (map_size / PAGE_SIZE) hn)
    else some vm
  else none

/-- The records after `find_alloc_info`; `none` where no record is for all of these pages. -/
def find_alloc_info (start end_ : Nat) : List AllocInfo → Option (List AllocInfo)
  | [] => none
  | p :: ps =>
    if p.start ≤ start ∧ end_ ≤ p.end_ then
      let npages := p.npages - (end_ - start) / PAGE_SIZE
      some (if npages = 0 then ps else { p with npages } :: ps)
    else (find_alloc_info start end_ ps).map (p :: ·)

theorem find_alloc_info_small {start end_ m : Nat} {infos infos' : List AllocInfo}
    (h : find_alloc_info start end_ infos = some infos')
    (hsmall : ∀ p ∈ infos, p.end_ ≤ p.start + m) : ∀ p ∈ infos', p.end_ ≤ p.start + m := by
  induction infos generalizing infos' with
  | nil => cases h
  | cons p ps ih =>
    obtain ⟨hp, hps⟩ := List.forall_mem_cons.1 hsmall
    unfold find_alloc_info at h
    split at h
    · cases h
      split
      · exact hps
      · exact List.forall_mem_cons.2 ⟨hp, hps⟩
    · obtain ⟨qs, hqs, rfl⟩ := Option.map_eq_some_iff.1 h
      exact List.forall_mem_cons.2 ⟨hp, ih hqs hps⟩

/-- The pages are unmapped whether or not there is a record; without one it is a `BUG()`. -/
def module_free (vm : Vm) (start free_size : Nat) : Option Vm :=
  if start = 0 ∨ free_size = 0 then some vm
  else if start % PAGE_SIZE ≠ 0 then some vm
  else
    match h : find_alloc_info start (start + free_size) vm.infos with
    | none => none
    | some infos => some
      { page := fun i =>
          if InPages start (free_size / PAGE_SIZE) i then .unmapped else vm.page i
        byte := vm.byte
        infos
        small := find_alloc_info_small h vm.small }

/-! ## `mmu.c` -/

def awos_arch_vmem_create (vm : Vm) (virtaddr npage : Nat) : Option Vm :=
  module_alloc rt_page_alloc vm virtaddr (npage * PAGE_SIZE % 2 ^ 32)

def awos_arch_vmem_delete (vm : Vm) (virtaddr npage : Nat) : Option Vm :=
  if npage = 0 then some vm else module_free vm virtaddr (npage * PAGE_SIZE % 2 ^ 32)

/-- Bytes written by the processor. -/
def Vm.store (vm : Vm) (addr : Nat) (bs : List UInt8) : Option Vm :=
  if ∀ k < bs.length, vm.page ((addr + k) % 2 ^ 32 / PAGE_SIZE) ≠ .unmapped then
    some { vm with byte := fun a =>
      if addr ≤ a ∧ a < addr + bs.length then bs.getD (a - addr) 0 else vm.byte a }
  else none

/-! ## `mods.c` -/

/-- A section, and the bytes that `LDR_GetSecData` reads of it. -/
structure Section where
  hdr : SectionHdr
  data : List UInt8
  deriving DecidableEq, Repr

namespace Section

variable (sec : Section)

/-- What stands in memory in the end: the data of the file, or zeros. -/
def image : List UInt8 :=
  if sec.hdr.Type_ = EELF_SHT_PROGBITS then sec.data.take sec.hdr.Size.toNat
  else List.replicate sec.hdr.Size.toNat 0

/-- `VMAddr` -/
def addr (mcb : Mcb) : Nat := (moduleAddr mcb + sec.hdr.VAddr).toNat

/-- `AlignAddr`: the next multiple of 4 KB. -/
def alignAddr (mcb : Mcb) : Nat := alignDown ((sec.addr mcb + 0xfff) % 2 ^ 32) PAGE_SIZE

def npage (mcb : Mcb) : Nat :=
  u32 (sec.hdr.Size.toNat + sec.addr mcb - sec.alignAddr mcb + 0xfff) / PAGE_SIZE

end Section

/-- It fails for no section: `awos_arch_vmem_create` returns 0 whatever was mapped. -/
def MODS_LoadSectionData (vm : Vm) (mcb : Mcb) (sec : Section) : Option Vm :=
  if sec.hdr.alloc then
    (awos_arch_vmem_create rt_page_alloc vm (sec.alignAddr mcb) (sec.npage mcb)).bind fun vm =>
      vm.store (sec.addr mcb) sec.image
  else some vm

/-- The loop of `MODS_CreateModuleVM`, from section `Index` on. -/
def loadSections (MagicIndex : Nat) : List Section → Nat → Vm → Mcb → Option (Vm × Mcb)
  | [], _, vm, mcb => some (vm, mcb)
  | sec :: secs, Index, vm, mcb =>
    if Index = MagicIndex then loadSections MagicIndex secs (Index + 1) vm mcb
    else
      (MODS_LoadSectionData rt_page_alloc vm mcb sec).bind fun vm =>
        loadSections MagicIndex secs (Index + 1) vm (MODS_SectionVMBitMapSet mcb sec.hdr)

def MODS_CreateModuleVM (secs : List Section) (MagicIndex : Nat) (vm : Vm) (mcb : Mcb) :
    Option (Vm × Mcb) :=
  if secs = [] then some (vm, mcb)
  else loadSections rt_page_alloc MagicIndex secs 0 vm { mcb with vmbitmap := 0 }

/-- The window that `MODS_DestoryModuleVM` takes for a bit, and its size. -/
def unitAddr (mcb : Mcb) (BitIndex : Nat) : UInt32 :=
  if mcb.type = EMOD_TYPE_USER then
    EPOS_umod_startaddr + (mcb.id.toUInt32 - EPOS_umid_min.toUInt32 + UInt32.ofNat BitIndex) *
      EPOS_umod_segsize
  else
    EPOS_smod_startaddr + (mcb.id.toUInt32 - EPOS_smid_min.toUInt32 + UInt32.ofNat BitIndex) *
      EPOS_smod_segsize

def segsize (mcb : Mcb) : UInt32 :=
  if mcb.type = EMOD_TYPE_USER then EPOS_umod_segsize else EPOS_smod_segsize

/-- The loop of `MODS_DestoryModuleVM`, over the bits that are left. -/
def deleteUnits (mcb : Mcb) : List Nat → Vm → Option Vm
  | [], vm => some vm
  | BitIndex :: rest, vm =>
    if MODS_VMBitMapIsSet mcb.vmbitmap BitIndex then
      (awos_arch_vmem_delete vm (unitAddr mcb BitIndex).toNat (segsize mcb >>> 10).toNat).bind
        fun vm => deleteUnits mcb rest vm
    else deleteUnits mcb rest vm

def MODS_DestoryModuleVM (vm : Vm) (mcb : Mcb) : Option (Vm × Mcb) :=
  (deleteUnits mcb (List.range 32) vm).map fun vm => (vm, { mcb with vmbitmap := 0 })

/-! ## Windows -/

/-- An id that `MODS_GetModuleID` gives, with the type. -/
def ValidId (mcb : Mcb) : Prop :=
  if mcb.type = EMOD_TYPE_USER then EPOS_umid_min ≤ mcb.id ∧ mcb.id ≤ EPOS_umid_max
  else EPOS_smid_min ≤ mcb.id ∧ mcb.id ≤ EPOS_smid_max

/-- The address window of a module. -/
def InWindow (mcb : Mcb) (a : Nat) : Prop :=
  (unitAddr mcb 0).toNat ≤ a ∧ a < (unitAddr mcb 0).toNat + (segsize mcb).toNat

/-- A section of the program that is loaded: its bytes lie in the window. -/
def Fits (mcb : Mcb) (secs : List Section) (MagicIndex : Nat) : Prop :=
  ∀ i sec, secs[i]? = some sec → i ≠ MagicIndex → sec.hdr.alloc →
    ∀ k < sec.hdr.Size.toNat, InWindow mcb (sec.addr mcb + k)

/-- Every byte of every section is mapped and holds what the file says. -/
def Loaded (mcb : Mcb) (secs : List Section) (MagicIndex : Nat) (vm : Vm) : Prop :=
  ∀ i sec, secs[i]? = some sec → i ≠ MagicIndex → sec.hdr.alloc →
    ∀ k < sec.hdr.Size.toNat, vm.page ((sec.addr mcb + k) / PAGE_SIZE) = .mapped ∧
      some (vm.byte (sec.addr mcb + k)) = sec.image[k]?

/-- A module is loaded, and its virtual memory is given back: what was mapped for it is
unmapped, and no page of another module. -/
def Accounts (secs : List Section) (MagicIndex : Nat) (vm : Vm) (id type : UInt8) : Prop :=
  ∃ vm₁ mcb₁, MODS_CreateModuleVM rt_page_alloc secs MagicIndex vm ⟨id, type, 0⟩ =
      some (vm₁, mcb₁) ∧ Loaded ⟨id, type, 0⟩ secs MagicIndex vm₁ ∧
    ∃ vm₂ mcb₂, MODS_DestoryModuleVM vm₁ mcb₁ = some (vm₂, mcb₂) ∧
      (∀ n, vm₁.page n ≠ vm.page n → vm₂.page n = .unmapped) ∧
      ∀ other, ValidId other → other.id ≠ id → ∀ n, InWindow other (n * PAGE_SIZE) →
        vm₂.page n = vm₁.page n

end Melis.Mods.VirtualMemory
