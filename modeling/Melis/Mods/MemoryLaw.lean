import Melis.Mods.VirtualMemory
import Mathlib.Data.Nat.Bitwise

/-!
# What a module leaves mapped

A section with a byte sets a bit of the bitmap, and the bit stays set. For a set bit
`MODS_DestoryModuleVM` hands over as many kilobytes as the window has and gets as many pages
of 4 KB unmapped: more than any record of `module_alloc` is for, so the call ends in a
`BUG()`. Only a module without a byte is loaded and given back as it should be.
-/

namespace Melis.Mods.VirtualMemory

open Lib

variable {rt_page_alloc : Nat → Bool} {vm vm' : Vm} {mcb mcb' : Mcb} {sec : Section}
  {secs : List Section} {hdr : SectionHdr} {MagicIndex Index i n b start size : Nat} {v w : UInt32}
  {id type : UInt8}

/-! ## Bits -/

theorem toNat_two_pow (hb : b < 32) : (UInt32.ofNat (2 ^ b)).toNat = 2 ^ b := by
  have hlt : 2 ^ b < 2 ^ 32 := Nat.pow_lt_pow_right Nat.one_lt_two hb
  rw [UInt32.toNat_ofNat', Nat.mod_eq_of_lt hlt]

theorem isSet_iff : MODS_VMBitMapIsSet v b = true ↔ v.toNat.testBit (b % 32) = true := by
  have hb : b % 32 < 32 := Nat.mod_lt _ (by decide)
  unfold MODS_VMBitMapIsSet
  rw [bne_iff_ne, ne_eq, ← UInt32.toNat_inj, UInt32.toNat_and, toNat_two_pow hb, Nat.and_two_pow]
  cases v.toNat.testBit (b % 32) with
  | false => simp
  | true => simp

theorem isSet_or (h : MODS_VMBitMapIsSet v b = true) : MODS_VMBitMapIsSet (v ||| w) b = true := by
  rw [isSet_iff] at h ⊢
  rw [UInt32.toNat_or, Nat.testBit_or, h, Bool.true_or]

theorem isSet_setBits (h : MODS_VMBitMapIsSet v b = true) :
    MODS_VMBitMapIsSet (setBits v n i) b = true := by
  induction n generalizing v i with
  | zero => exact h
  | succ n ih => exact ih (isSet_or h)

/-- The first bit of a section is set. -/
theorem isSet_setBits_first (hn : 0 < n) (hi : i < 32) :
    MODS_VMBitMapIsSet (setBits v n i) i = true := by
  cases n with
  | zero => cases hn
  | succ n =>
    have hlt : 2 ^ i < 2 ^ 32 := Nat.pow_lt_pow_right Nat.one_lt_two hi
    have hbit : MODS_VMBitMapIsSet (v ||| UInt32.ofNat (2 ^ i % 2 ^ 32)) i = true := by
      refine isSet_iff.2 ?_
      rw [UInt32.toNat_or, Nat.mod_eq_of_lt hlt, toNat_two_pow hi, Nat.mod_eq_of_lt hi,
        Nat.testBit_or, Nat.testBit_two_pow_self, Bool.or_true]
    unfold setBits
    exact isSet_setBits hbit

theorem bitMapSet_mono (h : MODS_VMBitMapIsSet mcb.vmbitmap b = true) :
    MODS_VMBitMapIsSet (MODS_SectionVMBitMapSet mcb hdr).vmbitmap b = true := by
  unfold MODS_SectionVMBitMapSet
  split
  · exact isSet_setBits h
  · exact h

@[simp] theorem bitMapSet_type : (MODS_SectionVMBitMapSet mcb hdr).type = mcb.type := by
  unfold MODS_SectionVMBitMapSet
  split <;> rfl

@[simp] theorem bitMapSet_id : (MODS_SectionVMBitMapSet mcb hdr).id = mcb.id := by
  unfold MODS_SectionVMBitMapSet
  split <;> rfl

/-- The number of megabytes that a section takes. -/
theorem bitNum_eq (h : hdr.Size.toNat ≤ 2 ^ 31) :
    ((hdr.Size + 1024 * 1024 - 1) >>> 20).toNat = (hdr.Size.toNat + (2 ^ 20 - 1)) / 2 ^ 20 := by
  have h20 : (20 : UInt32).toNat % 32 = 20 := by decide
  have hone : (1 : UInt32).toNat = 1 := rfl
  have hmega : (1024 * 1024 : UInt32).toNat = 2 ^ 20 := by decide
  have hsum : (hdr.Size + 1024 * 1024).toNat = hdr.Size.toNat + 2 ^ 20 := by
    rw [UInt32.toNat_add, hmega, Nat.mod_eq_of_lt (by omega)]
  have hle : (1 : UInt32) ≤ hdr.Size + 1024 * 1024 := by
    rw [UInt32.le_iff_toNat_le, hsum, hone]
    omega
  rw [UInt32.toNat_shiftRight, h20, UInt32.toNat_sub_of_le _ _ hle, hsum, hone,
    Nat.shiftRight_eq_div_pow, Nat.add_sub_assoc (Nat.one_le_two_pow)]

theorem bitMapSet_sets (mcb : Mcb) (halloc : hdr.alloc = true) (h0 : 0 < hdr.Size.toNat)
    (h : hdr.Size.toNat ≤ 2 ^ 31) :
    ∃ b < 32, MODS_VMBitMapIsSet (MODS_SectionVMBitMapSet mcb hdr).vmbitmap b = true := by
  unfold MODS_SectionVMBitMapSet
  rw [if_pos halloc]
  refine ⟨_, Nat.mod_lt _ (by decide), isSet_setBits_first ?_ (Nat.mod_lt _ (by decide))⟩
  rw [bitNum_eq h]
  omega

theorem bitMapSet_empty (h : hdr.Size.toNat = 0) : MODS_SectionVMBitMapSet mcb hdr = mcb := by
  unfold MODS_SectionVMBitMapSet
  split
  · simp only [bitNum_eq (h.trans_le (Nat.zero_le _)), h]
    rfl
  · rfl

/-! ## Deleting -/

/-- No record is for more than 512 pages. -/
theorem find_alloc_info_none {infos : List AllocInfo}
    (hsmall : ∀ p ∈ infos, p.end_ ≤ p.start + totalram_pages * PAGE_SIZE)
    (hsize : totalram_pages * PAGE_SIZE < size) :
    find_alloc_info start (start + size) infos = none := by
  induction infos with
  | nil => rfl
  | cons p ps ih =>
    obtain ⟨hp, hps⟩ := List.forall_mem_cons.1 hsmall
    unfold find_alloc_info
    rw [if_neg (by omega), ih hps]
    rfl

/-- `module_free` of more than two megabytes does not return. -/
theorem module_free_none (hstart : start ≠ 0) (halign : start % PAGE_SIZE = 0)
    (hsize : totalram_pages * PAGE_SIZE < size) : module_free vm start size = none := by
  have hnone : find_alloc_info start (start + size) vm.infos = none :=
    find_alloc_info_none vm.small hsize
  unfold module_free
  rw [if_neg (by omega), if_neg (not_not.2 halign)]
  split
  · rfl
  next h => cases hnone.symm.trans h

/-- How many windows behind the first one. -/
theorem unit_index {min : UInt8} (hmin : min ≤ id) (hb : b < 32) :
    (id.toUInt32 - min.toUInt32 + UInt32.ofNat b).toNat = id.toNat - min.toNat + b := by
  have hle : min.toNat ≤ id.toNat := UInt8.le_iff_toNat_le.1 hmin
  have hid := id.toNat_lt
  have hle32 : min.toUInt32 ≤ id.toUInt32 := by
    rw [UInt32.le_iff_toNat_le, UInt8.toNat_toUInt32, UInt8.toNat_toUInt32]
    exact hle
  rw [UInt32.toNat_add, UInt32.toNat_sub_of_le _ _ hle32, UInt8.toNat_toUInt32,
    UInt8.toNat_toUInt32, UInt32.toNat_ofNat', Nat.mod_eq_of_lt (by omega), Nat.mod_eq_of_lt (by omega)]

theorem unitAddr_user (hid : ValidId mcb) (htype : mcb.type = EMOD_TYPE_USER) (hb : b < 32) :
    (unitAddr mcb b).toNat = 0x80000000 + (mcb.id.toNat - 64 + b) * 2 ^ 25 := by
  unfold ValidId at hid
  rw [if_pos htype] at hid
  have hmax : mcb.id.toNat ≤ 95 := UInt8.le_iff_toNat_le.1 hid.2
  have hindex := unit_index hid.1 hb
  have hmin : EPOS_umid_min.toNat = 64 := rfl
  have hseg : EPOS_umod_segsize.toNat = 2 ^ 25 := by decide
  have hstart : EPOS_umod_startaddr.toNat = 0x80000000 := rfl
  rw [hmin] at hindex
  unfold unitAddr
  rw [if_pos htype, UInt32.toNat_add, UInt32.toNat_mul, hindex, hseg, hstart,
    Nat.mod_eq_of_lt (by omega), Nat.mod_eq_of_lt (by omega)]

theorem unitAddr_sys (hid : ValidId mcb) (htype : mcb.type ≠ EMOD_TYPE_USER) (hb : b < 32) :
    (unitAddr mcb b).toNat = 0xe0000000 + (mcb.id.toNat - 96 + b) * 2 ^ 20 := by
  unfold ValidId at hid
  rw [if_neg htype] at hid
  have hmax : mcb.id.toNat ≤ 252 := UInt8.le_iff_toNat_le.1 hid.2
  have hindex := unit_index hid.1 hb
  have hmin : EPOS_smid_min.toNat = 96 := rfl
  have hseg : EPOS_smod_segsize.toNat = 2 ^ 20 := by decide
  have hstart : EPOS_smod_startaddr.toNat = 0xe0000000 := rfl
  rw [hmin] at hindex
  unfold unitAddr
  rw [if_neg htype, UInt32.toNat_add, UInt32.toNat_mul, hindex, hseg, hstart,
    Nat.mod_eq_of_lt (by omega), Nat.mod_eq_of_lt (by omega)]

/-- A window is handed over as so many kilobytes, which are taken for pages. -/
theorem delete_unit (hid : ValidId mcb) (hb : b < 32) :
    awos_arch_vmem_delete vm (unitAddr mcb b).toNat (segsize mcb >>> 10).toNat = none := by
  unfold awos_arch_vmem_delete
  by_cases htype : mcb.type = EMOD_TYPE_USER
  · have hpages : (segsize mcb >>> 10).toNat = 32768 := by
      unfold segsize
      rw [if_pos htype]
      decide
    rw [hpages, if_neg (by decide), unitAddr_user hid htype hb]
    exact module_free_none (by omega) (by unfold PAGE_SIZE; omega) (by decide)
  · have hpages : (segsize mcb >>> 10).toNat = 1024 := by
      unfold segsize
      rw [if_neg htype]
      decide
    rw [hpages, if_neg (by decide), unitAddr_sys hid htype hb]
    exact module_free_none (by omega) (by unfold PAGE_SIZE; omega) (by decide)

theorem deleteUnits_none {bits : List Nat} (hid : ValidId mcb) (hbits : ∀ b ∈ bits, b < 32)
    (hset : ∃ b ∈ bits, MODS_VMBitMapIsSet mcb.vmbitmap b = true) :
    deleteUnits mcb bits vm = none := by
  induction bits with
  | nil =>
    obtain ⟨b, hb, -⟩ := hset
    cases hb
  | cons c bits ih =>
    obtain ⟨hc, hbits⟩ := List.forall_mem_cons.1 hbits
    unfold deleteUnits
    split
    next h =>
      rw [delete_unit hid hc]
      rfl
    next h =>
      refine ih hbits ?_
      obtain ⟨b, hb, hset⟩ := hset
      rcases List.mem_cons.1 hb with rfl | hb
      · exact absurd hset h
      · exact ⟨b, hb, hset⟩

theorem deleteUnits_empty {bits : List Nat}
    (hset : ∀ b ∈ bits, MODS_VMBitMapIsSet mcb.vmbitmap b = false) :
    deleteUnits mcb bits vm = some vm := by
  induction bits with
  | nil => rfl
  | cons c bits ih =>
    obtain ⟨hc, hbits⟩ := List.forall_mem_cons.1 hset
    unfold deleteUnits
    rw [hc, if_neg Bool.false_ne_true]
    exact ih hbits

/-! ## Loading -/

/-- The control block keeps its id and its type, and its bits. -/
structure Grows (mcb mcb' : Mcb) : Prop where
  id : mcb'.id = mcb.id
  type : mcb'.type = mcb.type
  bits : ∀ b, MODS_VMBitMapIsSet mcb.vmbitmap b = true → MODS_VMBitMapIsSet mcb'.vmbitmap b = true

theorem loadSections_grows
    (h : loadSections rt_page_alloc MagicIndex secs Index vm mcb = some (vm', mcb')) :
    Grows mcb mcb' := by
  induction secs generalizing Index vm mcb with
  | nil =>
    cases h
    exact ⟨rfl, rfl, fun _ hb => hb⟩
  | cons sec secs ih =>
    unfold loadSections at h
    split at h
    · exact ih h
    · obtain ⟨vm₁, -, h⟩ := Option.bind_eq_some_iff.1 h
      obtain ⟨hid, htype, hbits⟩ := ih h
      exact ⟨hid.trans bitMapSet_id, htype.trans bitMapSet_type,
        fun b hb => hbits b (bitMapSet_mono hb)⟩

/-- A section with a byte leaves a bit. -/
theorem loadSections_bit
    (h : loadSections rt_page_alloc MagicIndex secs Index vm mcb = some (vm', mcb'))
    (hsec : secs[i]? = some sec) (hi : Index + i ≠ MagicIndex) (halloc : sec.hdr.alloc = true)
    (h0 : 0 < sec.hdr.Size.toNat) (hsize : sec.hdr.Size.toNat ≤ 2 ^ 31) :
    ∃ b < 32, MODS_VMBitMapIsSet mcb'.vmbitmap b = true := by
  induction secs generalizing Index vm mcb i with
  | nil => cases hsec
  | cons s secs ih =>
    unfold loadSections at h
    cases i with
    | zero =>
      obtain rfl : s = sec := Option.some.inj hsec
      rw [if_neg (show Index ≠ MagicIndex from hi)] at h
      obtain ⟨vm₁, -, h⟩ := Option.bind_eq_some_iff.1 h
      obtain ⟨b, hb, hset⟩ := bitMapSet_sets mcb halloc h0 hsize
      exact ⟨b, hb, (loadSections_grows h).bits b hset⟩
    | succ i =>
      have hnext : Index + 1 + i ≠ MagicIndex := by omega
      split at h
      · exact ih h hsec hnext
      · obtain ⟨vm₁, -, h⟩ := Option.bind_eq_some_iff.1 h
        exact ih h hsec hnext

theorem npage_empty (h : sec.hdr.Size.toNat = 0) : sec.npage mcb = 0 := by
  have hlt : sec.addr mcb < 2 ^ 32 := (moduleAddr mcb + sec.hdr.VAddr).toNat_lt
  unfold Section.npage Section.alignAddr alignDown u32 PAGE_SIZE
  rw [h]
  omega

theorem store_nil (addr : Nat) : vm.store addr [] = some vm := by
  have hnone : ∀ k < ([] : List UInt8).length,
      vm.page ((addr + k) % 2 ^ 32 / PAGE_SIZE) ≠ .unmapped := fun k hk => absurd hk (Nat.not_lt_zero k)
  unfold Vm.store
  rw [if_pos hnone]
  have hbyte : (fun a => if addr ≤ a ∧ a < addr + ([] : List UInt8).length then
      ([] : List UInt8).getD (a - addr) 0 else vm.byte a) = vm.byte := by
    funext a
    exact if_neg (by rw [List.length_nil]; omega)
  rw [hbyte]

/-- A section without a byte changes nothing. -/
theorem loadSection_empty (h : sec.hdr.alloc = true → sec.hdr.Size.toNat = 0) :
    MODS_LoadSectionData rt_page_alloc vm mcb sec = some vm ∧
      MODS_SectionVMBitMapSet mcb sec.hdr = mcb := by
  by_cases halloc : sec.hdr.alloc = true
  · have himage : sec.image = [] := by
      unfold Section.image
      rw [h halloc]
      split <;> rfl
    have hcreate : awos_arch_vmem_create rt_page_alloc vm (sec.alignAddr mcb) (sec.npage mcb) =
        some vm := by
      unfold awos_arch_vmem_create module_alloc
      rw [npage_empty (h halloc)]
      rfl
    refine ⟨?_, bitMapSet_empty (h halloc)⟩
    unfold MODS_LoadSectionData
    rw [if_pos halloc, hcreate, Option.bind_some, himage, store_nil]
  · exact ⟨if_neg halloc, if_neg halloc⟩

theorem loadSections_empty (h : ∀ i sec, secs[i]? = some sec → Index + i ≠ MagicIndex →
      sec.hdr.alloc = true → sec.hdr.Size.toNat = 0) :
    loadSections rt_page_alloc MagicIndex secs Index vm mcb = some (vm, mcb) := by
  induction secs generalizing Index with
  | nil => rfl
  | cons sec secs ih =>
    have hrest : loadSections rt_page_alloc MagicIndex secs (Index + 1) vm mcb = some (vm, mcb) :=
      ih fun i s hs hi => h (i + 1) s hs (by omega)
    unfold loadSections
    split
    · exact hrest
    next hne =>
      obtain ⟨hload, hbits⟩ := loadSection_empty (h 0 sec rfl hne)
      rw [hload, Option.bind_some, hbits]
      exact hrest

/-! ## One section -/

/-- Only pages from `start` on are mapped. -/
theorem module_alloc_below (h : module_alloc rt_page_alloc vm start size = some vm')
    (hn : n < start / PAGE_SIZE) : vm'.page n = vm.page n := by
  unfold module_alloc at h
  split at h
  · cases h
    rfl
  · split at h
    · cases h
      rfl
    · split at h
      · split at h
        · cases h
          unfold vmalloc_area
          split
          · exact if_neg fun hin => absurd hin.1 (Nat.not_le.2 hn)
          · refine if_neg fun hin => ?_
            have hmem := List.mem_range'_1.1 (List.takeWhile_subset _ hin)
            omega
        · cases h
          rfl
      · cases h

/-- The start of a section is rounded up: a section that begins inside a page which is not
mapped already cannot be loaded. -/
theorem loadSection_inside (halloc : sec.hdr.alloc = true) (h0 : sec.image ≠ [])
    (haddr : sec.addr mcb % PAGE_SIZE ≠ 0) (hlast : sec.addr mcb + 0xfff < 2 ^ 32)
    (hpage : vm.page (sec.addr mcb / PAGE_SIZE) = .unmapped) :
    MODS_LoadSectionData rt_page_alloc vm mcb sec = none := by
  unfold MODS_LoadSectionData
  rw [if_pos halloc]
  refine Option.bind_eq_none_iff.2 fun vm₁ hcreate => ?_
  have hbelow : sec.addr mcb / PAGE_SIZE < sec.alignAddr mcb / PAGE_SIZE := by
    unfold PAGE_SIZE at haddr
    unfold Section.alignAddr alignDown PAGE_SIZE
    omega
  have hstill : vm₁.page (sec.addr mcb / PAGE_SIZE) = .unmapped := by
    rw [module_alloc_below hcreate hbelow, hpage]
  unfold Vm.store
  refine if_neg fun hall => hall 0 (List.length_pos_iff.2 h0) ?_
  rwa [Nat.add_zero, Nat.mod_eq_of_lt (by omega)]

/-- A section that begins at a page, where there are pages for it, is loaded. -/
theorem loadSection_aligned (halloc : sec.hdr.alloc = true) (haddr : sec.addr mcb % PAGE_SIZE = 0)
    (hlow : 0xe2000000 ≤ sec.addr mcb) (hhigh : sec.addr mcb + sec.hdr.Size.toNat < 0xefff0000)
    (h0 : 0 < sec.npage mcb) (hn : sec.npage mcb ≤ totalram_pages)
    (hpages : rt_page_alloc (sec.npage mcb) = true)
    (hfree : ∀ i, InPages (sec.addr mcb) (sec.npage mcb) i → vm.page i = .unmapped)
    (himage : sec.image.length = sec.hdr.Size.toNat) :
    ∃ vm', MODS_LoadSectionData rt_page_alloc vm mcb sec = some vm' ∧
      ∀ k < sec.hdr.Size.toNat, vm'.page ((sec.addr mcb + k) / PAGE_SIZE) = .mapped ∧
        some (vm'.byte (sec.addr mcb + k)) = sec.image[k]? := by
  have halign : sec.alignAddr mcb = sec.addr mcb := by
    unfold PAGE_SIZE at haddr
    unfold Section.alignAddr alignDown PAGE_SIZE
    omega
  have hnpage : sec.npage mcb = (sec.hdr.Size.toNat + 0xfff) / PAGE_SIZE := by
    unfold Section.npage
    rw [halign]
    unfold u32 PAGE_SIZE
    omega
  have hsize : sec.npage mcb * PAGE_SIZE % 2 ^ 32 = sec.npage mcb * PAGE_SIZE := by
    unfold totalram_pages at hn
    exact Nat.mod_eq_of_lt (by unfold PAGE_SIZE; omega)
  have hcreate : awos_arch_vmem_create rt_page_alloc vm (sec.alignAddr mcb) (sec.npage mcb) =
      some (vmalloc_area vm (sec.addr mcb) (sec.npage mcb) hn) := by
    have hdiv : sec.npage mcb * PAGE_SIZE / PAGE_SIZE = sec.npage mcb :=
      Nat.mul_div_cancel _ (by decide)
    have hrange : ¬ (sec.addr mcb < 0xe2000000 ∨
        0xf0000000 ≤ (sec.addr mcb + sec.npage mcb * PAGE_SIZE) % 2 ^ 32) := by
      rw [hnpage]
      unfold PAGE_SIZE
      omega
    unfold awos_arch_vmem_create module_alloc
    rw [hsize, halign, if_neg (by unfold PAGE_SIZE; omega), if_neg hrange]
    simp only [hdiv, hn, hpages, dif_pos, if_true]
  have hin : ∀ k < sec.hdr.Size.toNat,
      InPages (sec.addr mcb) (sec.npage mcb) ((sec.addr mcb + k) / PAGE_SIZE) := by
    intro k hk
    rw [hnpage]
    unfold InPages PAGE_SIZE
    unfold PAGE_SIZE at haddr
    omega
  have hpage : ∀ k < sec.hdr.Size.toNat,
      (vmalloc_area vm (sec.addr mcb) (sec.npage mcb) hn).page ((sec.addr mcb + k) / PAGE_SIZE) =
        .mapped := by
    intro k hk
    have hall : ∀ i ∈ List.range' (sec.addr mcb / PAGE_SIZE) (sec.npage mcb),
        vm.page i = .unmapped := fun i hi => hfree i (List.mem_range'_1.1 hi)
    unfold vmalloc_area
    rw [if_pos hall]
    exact if_pos (hin k hk)
  have hmod : ∀ k < sec.hdr.Size.toNat, (sec.addr mcb + k) % 2 ^ 32 = sec.addr mcb + k :=
    fun k hk => Nat.mod_eq_of_lt (by omega)
  unfold MODS_LoadSectionData
  rw [if_pos halloc, hcreate, Option.bind_some, Vm.store, if_pos]
  · refine ⟨_, rfl, fun k hk => ⟨hpage k hk, ?_⟩⟩
    have hk' : k < sec.image.length := hk.trans_eq himage.symm
    have hlt : sec.addr mcb + k < sec.addr mcb + sec.image.length := Nat.add_lt_add_left hk' _
    simp only [Nat.le_add_right, hlt, and_self, if_true, Nat.add_sub_cancel_left,
      List.getD_eq_getElem?_getD, List.getElem?_eq_getElem hk', Option.getD_some]
  · intro k hk
    have hk' : k < sec.hdr.Size.toNat := hk.trans_eq himage
    rw [hmod k hk', hpage k hk']
    decide

/-! ## A module and back -/

theorem size_le_of_fits (hfits : Fits mcb secs MagicIndex) (hsec : secs[i]? = some sec)
    (hi : i ≠ MagicIndex) (halloc : sec.hdr.alloc = true) : sec.hdr.Size.toNat ≤ 2 ^ 31 := by
  by_contra hgt
  have hseg : (segsize mcb).toNat ≤ 2 ^ 25 := by
    unfold segsize
    split <;> decide
  have hlast := hfits i sec hsec hi halloc (sec.hdr.Size.toNat - 1) (by omega)
  have hfirst := hfits i sec hsec hi halloc 0 (by omega)
  unfold InWindow at hlast hfirst
  omega

/-- A module with a byte is not given back. -/
theorem not_accounts (hid : ValidId ⟨id, type, 0⟩) (hfits : Fits ⟨id, type, 0⟩ secs MagicIndex)
    (hsec : secs[i]? = some sec) (hi : i ≠ MagicIndex) (halloc : sec.hdr.alloc = true)
    (h0 : 0 < sec.hdr.Size.toNat) : ¬ Accounts rt_page_alloc secs MagicIndex vm id type := by
  rintro ⟨vm₁, mcb₁, hcreate, -, vm₂, mcb₂, hdestroy, -⟩
  have hne : secs ≠ [] := by
    rintro rfl
    cases hsec
  unfold MODS_CreateModuleVM at hcreate
  rw [if_neg hne] at hcreate
  have hsize := size_le_of_fits hfits hsec hi halloc
  have hindex : 0 + i ≠ MagicIndex := by rwa [Nat.zero_add]
  obtain ⟨b, hb, hset⟩ := loadSections_bit hcreate hsec hindex halloc h0 hsize
  have hgrows := loadSections_grows hcreate
  have hid₁ : ValidId mcb₁ := by
    unfold ValidId at hid ⊢
    rwa [hgrows.id, hgrows.type]
  have hnone : deleteUnits mcb₁ (List.range 32) vm₁ = none :=
    deleteUnits_none hid₁ (fun _ => List.mem_range.1) ⟨b, List.mem_range.2 hb, hset⟩
  unfold MODS_DestoryModuleVM at hdestroy
  rw [hnone] at hdestroy
  cases hdestroy

theorem accounts_empty (h : ∀ i sec, secs[i]? = some sec → i ≠ MagicIndex → sec.hdr.alloc = true →
      sec.hdr.Size.toNat = 0) : Accounts rt_page_alloc secs MagicIndex vm id type := by
  have hcreate : MODS_CreateModuleVM rt_page_alloc secs MagicIndex vm ⟨id, type, 0⟩ =
      some (vm, ⟨id, type, 0⟩) := by
    unfold MODS_CreateModuleVM
    split
    · rfl
    · refine loadSections_empty fun i sec hsec hi => h i sec hsec ?_
      rwa [Nat.zero_add] at hi
  have hdestroy : MODS_DestoryModuleVM vm ⟨id, type, 0⟩ = some (vm, ⟨id, type, 0⟩) := by
    unfold MODS_DestoryModuleVM
    rw [deleteUnits_empty]
    · rfl
    · intro b _
      rw [← Bool.not_eq_true, isSet_iff]
      simp
  refine ⟨vm, _, hcreate, ?_, vm, _, hdestroy, fun n hn => absurd rfl hn, fun _ _ _ _ _ => rfl⟩
  intro i sec hsec hi halloc k hk
  rw [h i sec hsec hi halloc] at hk
  exact absurd hk (Nat.not_lt_zero k)

/-- A module of which every section lies in its window is loaded and given back as it should be
just if no section has a byte. -/
theorem accounts_iff (hid : ValidId ⟨id, type, 0⟩) (hfits : Fits ⟨id, type, 0⟩ secs MagicIndex) :
    Accounts rt_page_alloc secs MagicIndex vm id type ↔
      ∀ i sec, secs[i]? = some sec → i ≠ MagicIndex → sec.hdr.alloc = true →
        sec.hdr.Size.toNat = 0 := by
  refine ⟨fun hacc i sec hsec hi halloc => ?_, accounts_empty⟩
  by_contra h0
  exact not_accounts hid hfits hsec hi halloc (Nat.pos_of_ne_zero h0) hacc

/-- No page is mapped yet. -/
def emptyVm : Vm where
  page := fun _ => .unmapped
  byte := fun _ => 0
  infos := []
  small := fun _ hp => nomatch hp

/-- A section that is not loaded. -/
def magicSection : Section := ⟨⟨84, 0, EELF_SHT_PROGBITS, 0⟩, []⟩

theorem accounts_magic :
    Accounts (fun _ => true) [magicSection, magicSection] 0 emptyVm 128 32 := by
  have halloc : ∀ (i : Nat) (sec : Section), [magicSection, magicSection][i]? = some sec →
      sec.hdr.alloc = false := by
    intro i sec hsec
    obtain rfl : sec = magicSection := by simpa using List.mem_of_getElem? hsec
    rfl
  have hid : ValidId ⟨128, 32, 0⟩ := by
    unfold ValidId
    decide
  refine (accounts_iff hid ?_).2 ?_
  · intro i sec hsec _ h
    cases (halloc i sec hsec).symm.trans h
  · intro i sec hsec _ h
    cases (halloc i sec hsec).symm.trans h

/-- Four bytes at the start of the window. -/
def textSection : Section := ⟨⟨4, 0xe2000000, EELF_SHT_PROGBITS, EELF_SHF_ALLOC⟩, [1, 2, 3, 4]⟩

theorem accounts_text :
    ¬ Accounts (fun _ => true) [magicSection, textSection] 0 emptyVm 128 32 := by
  have hid : ValidId ⟨128, 32, 0⟩ := by
    unfold ValidId
    decide
  refine not_accounts (i := 1) hid ?_ rfl (by decide) (by decide) (by decide)
  intro i sec hsec hi halloc k hk
  have hmem : sec = textSection := by
    rcases i with _ | _ | i
    · exact absurd rfl hi
    · exact (Option.some.inj hsec).symm
    · cases hsec
  subst hmem
  have hsize : textSection.hdr.Size.toNat = 4 := rfl
  have haddr : textSection.addr ⟨128, 32, 0⟩ = 0xe2000000 := by decide
  have hunit : (unitAddr ⟨128, 32, 0⟩ 0).toNat = 0xe2000000 := by decide
  have hseg : (segsize ⟨128, 32, 0⟩).toNat = 2 ^ 20 := by decide
  unfold InWindow
  rw [haddr, hunit, hseg]
  omega

end Melis.Mods.VirtualMemory
