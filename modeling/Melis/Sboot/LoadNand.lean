import Melis.Sboot.LoadSectors

/-!
# Loading from raw NAND

`load_toc1_from_nand` tries the blocks of the boot area. A package that fits into a block is
searched there, copy behind copy (`load_and_check_in_one_blk`); a longer one goes on through the
good blocks behind it (`load_in_many_blks`). A chip with a page type stores only on some pages of
a block. The device answers each page read with the result of `NFB_PhyRead`; a page that is not
read in full leaves other bytes in memory. `NF_read` returns `NF_ERROR` for the result `FAIL`
only, and its callers look for `NF_OVERTIME_ERR` and `NF_ECC_ERR`.
-/

namespace Melis.Sboot

open Lib

def FAIL : Int := -1

def ECC_LIMIT : Int := 10

def NF_OK : Int := 0

def NF_GOOD_BLOCK : Int := 0

def NF_OVERTIME_ERR : Int := 1

def NF_ECC_ERR : Int := 2

def NF_BAD_BLOCK : Int := 3

def NF_ERROR : Int := -1

def ADV_NF_OK : Int := 0

def ADV_NF_OVERTIME_ERR : Int := 3

def ADV_NF_LACK_BLKS : Int := 4

def BOOT1_START_BLK_NUM : Nat := 4

/-- A page read as the device carries it out: the result of `NFB_PhyRead`, and the bytes and the
mark where the page is not read in full. -/
structure NandRead where
  ret : Int
  bytes : Nat → UInt8
  mark : UInt8

/-- The page was read, perhaps with as many errors as ECC can correct. -/
def NandRead.right (r : NandRead) : Bool := r.ret == 0 || r.ret == ECC_LIMIT

def Nand_Is_lsb_page (NAND_LSBPAGE_TYPE PAGE_CNT_OF_PHY_BLK page : Nat) : Bool :=
  if NAND_LSBPAGE_TYPE = 0 then true
  else if NAND_LSBPAGE_TYPE ∈ [0x20, 0x02, 0x10, 0x30] then
    if page = 0 then true
    else if page = PAGE_CNT_OF_PHY_BLK - 1 then false
    else page % 2 == 1
  else if NAND_LSBPAGE_TYPE ∈ [0x01, 0x40, 0x50] then
    if page = 0 ∨ page = 1 then true
    else if page = PAGE_CNT_OF_PHY_BLK - 2 ∨ page = PAGE_CNT_OF_PHY_BLK - 1 then false
    else page % 4 == 2 || page % 4 == 3
  else if NAND_LSBPAGE_TYPE = 0x41 then
    if page = 2 ∨ page = 3 then true
    else if page = PAGE_CNT_OF_PHY_BLK - 2 ∨ page = PAGE_CNT_OF_PHY_BLK - 1 then true
    else page % 4 == 0 || page % 4 == 1
  else if NAND_LSBPAGE_TYPE = 0x42 then
    if page ∈ [0, 1, 2, 3, 4, 5, 7, 8, 509] then true
    else if page ∈ [6, 508, 511] then false
    else page % 4 == 2 || page % 4 == 3
  else false

structure Nand where
  /-- What `NF_open` returns. -/
  init : Int
  NAND_LSBPAGE_TYPE : Nat
  SectorCntPerPage : Nat
  PageCntPerPhyBlk : Nat
  BOOT1_LAST_BLK_NUM : Nat
  bad : Nat → Bool
  /-- The bytes of a page, which is given by its row. -/
  byte : Nat → Nat → UInt8
  /-- The reads of a candidate: its mark, its header, the marks of its load, and the pages of
  each pass over a block. -/
  probe : Nat → NandRead
  head : Nat → NandRead
  check : Nat → Nat → NandRead
  page : Nat → Nat → Nat → Nat → NandRead
  two_le : 2 ≤ SectorCntPerPage
  page_dvd : 512 * SectorCntPerPage ∣ ALIGN_SIZE
  pages_pos : 0 < PageCntPerPhyBlk
  first_lsb : Nand_Is_lsb_page NAND_LSBPAGE_TYPE PageCntPerPhyBlk 0 = true

namespace Nand

variable (D : Dram) (dev : Nand)

def NF_PAGE_SIZE : Nat := 512 * dev.SectorCntPerPage

def NF_BLOCK_SIZE : Nat := dev.NF_PAGE_SIZE * dev.PageCntPerPhyBlk

def lsb (page : Nat) : Bool := Nand_Is_lsb_page dev.NAND_LSBPAGE_TYPE dev.PageCntPerPhyBlk page

def NAND_GetLsbblksize : Nat :=
  if dev.NAND_LSBPAGE_TYPE = 0 then dev.PageCntPerPhyBlk * dev.SectorCntPerPage * 512
  else ((List.range dev.PageCntPerPhyBlk).countP dev.lsb) * dev.SectorCntPerPage * 512

/-- The bytes that a read of page `p` of block `b` delivers. -/
def delivered (r : NandRead) (b p : Nat) : Nat → UInt8 :=
  if r.right then dev.byte (b * dev.PageCntPerPhyBlk + p) else r.bytes

/-- The first loop of `NF_read` over the pages of a list, for the whole pages. -/
def readPages (reads : Nat → NandRead) (b dst page_nr : Nat) :
    List Nat → Nat → Ram → Option (Int × Ram)
  | [], _, m => some (NF_OK, m)
  | p :: ps, page_index, m =>
    if page_index = page_nr then some (NF_OK, m)
    else if dev.lsb p then do
      let m ← D.put m (dst + dev.NF_PAGE_SIZE * page_index) dev.NF_PAGE_SIZE
        (dev.delivered (reads p) b p)
      if (reads p).ret = FAIL then return (NF_ERROR, m)
      readPages reads b dst page_nr ps (page_index + 1) m
    else readPages reads b dst page_nr ps page_index m

/-- The page of the last sectors, which the second loop counts from the first page on. -/
def residuePage (page_nr : Nat) : Nat :=
  ((List.range dev.PageCntPerPhyBlk).filter dev.lsb).getD page_nr dev.PageCntPerPhyBlk

/-- `NF_read` of `N` sectors of block `b`, from its sector `start_sct` on. -/
def NF_read (reads : Nat → NandRead) (b start_sct N dst : Nat) (m : Ram) : Option (Int × Ram) :=
  if start_sct % dev.SectorCntPerPage ≠ 0 then some (NF_ERROR, m)
  else do
    let page_nr := N / dev.SectorCntPerPage
    let residue := N % dev.SectorCntPerPage
    let (ret, m) ← dev.readPages D reads b dst page_nr
      (List.range' (start_sct / dev.SectorCntPerPage) dev.PageCntPerPhyBlk) 0 m
    if ret ≠ NF_OK then return (ret, m)
    if residue = 0 then return (NF_OK, m)
    let p := dev.residuePage page_nr
    if (reads p).ret = FAIL then return (NF_ERROR, m)
    let m ← D.put m (dst + dev.NF_PAGE_SIZE * page_nr) (512 * residue)
      (dev.delivered (reads p) b p)
    return (NF_OK, m)

def NF_read_status (r : NandRead) (blk_num : Nat) : Int :=
  let oob_buf := if r.right then if dev.bad blk_num then 0 else 0xFF else r.mark
  if r.ret = FAIL then NF_ERROR
  else if oob_buf ≠ 0xFF then NF_BAD_BLOCK
  else NF_GOOD_BLOCK

def load_uboot_in_one_block_judge (length : Nat) : Bool :=
  (length ≤ dev.NF_BLOCK_SIZE ∧ dev.NAND_LSBPAGE_TYPE = 0) ∨
    (length ≤ dev.NAND_GetLsbblksize ∧ dev.NAND_LSBPAGE_TYPE ≠ 0)

/-- One pass of the loop of `load_and_check_in_one_blk` for candidate `i`. -/
def checkCopy (i size c : Nat) (m : Ram) : Option (Try Ram) := do
  let (status, m) ← dev.NF_read D (dev.page i c i) i (c * size / 512) (size / 512) 0 m
  if status = NF_OVERTIME_ERR then return .giveUp m
  if status = NF_ECC_ERR then return .next m
  let sum ← verify_addsum D m size
  if sum = 0 then return .found m
  return .next m

/-- The number of passes. For size 0 the loop has no end, but its first pass faults. -/
def passes (size : Nat) : Nat := if size = 0 then 1 else dev.NF_BLOCK_SIZE / size

def load_and_check_in_one_blk (i size : Nat) (m : Ram) : Option (Try Ram) :=
  search (dev.checkCopy D i size) (List.range (dev.passes size)) m

/-- The loop of `load_in_many_blks` for candidate `i` over the blocks of a list. -/
def load_in_many_blks (i size : Nat) : List Nat → Nat → Ram → Option (Int × Ram)
  | [], buf_off, m => some (if buf_off = size then ADV_NF_OK else ADV_NF_LACK_BLKS, m)
  | b :: bs, buf_off, m =>
    if buf_off < size then
      if dev.NF_read_status (dev.check i b) b = NF_BAD_BLOCK then
        load_in_many_blks i size bs buf_off m
      else do
        let blk_size_load :=
          if dev.NAND_LSBPAGE_TYPE ≠ 0 then dev.NAND_GetLsbblksize else dev.NF_BLOCK_SIZE
        let size_loaded := min (size - buf_off) blk_size_load
        let (status, m) ← dev.NF_read D (dev.page i 0 b) b 0 (size_loaded / 512) buf_off m
        if status = NF_OVERTIME_ERR then return (ADV_NF_OVERTIME_ERR, m)
        load_in_many_blks i size bs (buf_off + size_loaded) m
    else some (if buf_off = size then ADV_NF_OK else ADV_NF_LACK_BLKS, m)

/-- The blocks from candidate `i` on. -/
def area (i : Nat) : List Nat := List.range' i (dev.BOOT1_LAST_BLK_NUM + 1 - i)

def attempt (i : Nat) (m : Ram) : Option (Try Ram) :=
  if dev.NF_read_status (dev.probe i) i = NF_BAD_BLOCK then some (.next m)
  else do
    let (status, m) ← dev.NF_read D (fun _ => dev.head i) i 0 1 0 m
    if status = NF_OVERTIME_ERR then return .next m
    if magic m ≠ TOC_MAIN_INFO_MAGIC then return .next m
    let length := valid_len m
    if length &&& (ALIGN_SIZE - 1) ≠ 0 then return .next m
    if dev.load_uboot_in_one_block_judge length then
      (dev.load_and_check_in_one_blk D i length m).map fun
        | .found m => .found m
        | .next m => .next m
        | .giveUp m => .next m
    else do
      let (status, m) ← dev.load_in_many_blks D i length (dev.area i) 0 m
      if status = ADV_NF_LACK_BLKS then return .giveUp m
      if status = ADV_NF_OVERTIME_ERR then return .next m
      let sum ← verify_addsum D m length
      if sum = 0 then return .found m
      return .next m

end Nand

def load_toc1_from_nand (D : Dram) (dev : Nand) (m : Ram) : Option (Int × Ram) :=
  if dev.init = NF_ERROR then some (-1, m)
  else (search (dev.attempt D) (dev.area BOOT1_START_BLK_NUM) m).map searchRet

namespace Nand

section

variable {D : Dram} {dev : Nand} {m m' : Ram} {r : NandRead} {reads : Nat → NandRead}
  {b p s i c k n dst size off page_nr page_index : Nat} {ps bs : List Nat}

/-! ## Pages -/

theorem page_pos : 0 < dev.NF_PAGE_SIZE := by
  have := dev.two_le
  unfold NF_PAGE_SIZE
  omega

/-- The bytes of the pages of a list one after another. -/
def pagesOf (dev : Nand) (b : Nat) (ps : List Nat) : Ram :=
  image dev.NF_PAGE_SIZE (fun p => dev.byte (b * dev.PageCntPerPhyBlk + p)) ps

theorem right_ne (h : r.right = true) : r.ret ≠ FAIL := by
  intro heq
  simp [NandRead.right, heq, FAIL, ECC_LIMIT] at h

theorem delivered_right (h : r.right = true) :
    dev.delivered r b p = dev.byte (b * dev.PageCntPerPhyBlk + p) := if_pos h

theorem readPages_ok (hle : page_index ≤ page_nr)
    (henough : page_nr ≤ page_index + (ps.filter dev.lsb).length)
    (hok : ∀ p ∈ (ps.filter dev.lsb).take (page_nr - page_index), (reads p).right = true)
    (hfits : dst + dev.NF_PAGE_SIZE * page_nr ≤ D.room) :
    ∃ m', dev.readPages D reads b dst page_nr ps page_index m = some (NF_OK, m') ∧ ∀ k, m' k =
      if dst + dev.NF_PAGE_SIZE * page_index ≤ k ∧ k < dst + dev.NF_PAGE_SIZE * page_nr then
        dev.pagesOf b (ps.filter dev.lsb) (k - (dst + dev.NF_PAGE_SIZE * page_index))
      else m k := by
  induction ps generalizing page_index m with
  | nil =>
    have heq : page_index = page_nr := by
      simp at henough
      omega
    subst heq
    refine ⟨m, rfl, fun k => ?_⟩
    rw [if_neg (by omega)]
  | cons p ps ih =>
    rw [readPages]
    by_cases hend : page_index = page_nr
    · subst hend
      refine ⟨m, if_pos rfl, fun k => ?_⟩
      rw [if_neg (by omega)]
    · rw [if_neg hend]
      cases hlsb : dev.lsb p with
      | false =>
        rw [List.filter_cons_of_neg (by simp [hlsb])] at henough hok ⊢
        exact ih hle henough hok
      | true =>
        obtain ⟨n, hn⟩ : ∃ n, page_nr - page_index = n + 1 := ⟨page_nr - page_index - 1, by omega⟩
        rw [List.filter_cons_of_pos hlsb] at henough hok ⊢
        rw [hn, List.take_succ_cons] at hok
        obtain ⟨hpage, hpages⟩ := List.forall_mem_cons.1 hok
        have hnext : dev.NF_PAGE_SIZE * (page_index + 1) =
            dev.NF_PAGE_SIZE * page_index + dev.NF_PAGE_SIZE := Nat.mul_succ _ _
        have hroom : dev.NF_PAGE_SIZE * (page_index + 1) ≤ dev.NF_PAGE_SIZE * page_nr :=
          Nat.mul_le_mul_left _ (by omega)
        rw [List.length_cons] at henough
        obtain ⟨m', hm', hbytes⟩ := ih (m := fun k =>
            if dst + dev.NF_PAGE_SIZE * page_index ≤ k ∧
                k < dst + dev.NF_PAGE_SIZE * page_index + dev.NF_PAGE_SIZE then
              dev.byte (b * dev.PageCntPerPhyBlk + p) (k - (dst + dev.NF_PAGE_SIZE * page_index))
            else m k) (by omega : page_index + 1 ≤ page_nr) (by omega)
          (by rwa [show page_nr - (page_index + 1) = n by omega])
        refine ⟨m', ?_, fun k => ?_⟩
        · rw [if_pos rfl, put_eq_some _ _ (by omega), delivered_right hpage]
          simp only [Option.bind_eq_bind, Option.bind_some, right_ne hpage, if_false]
          exact hm'
        · rw [hbytes k]
          by_cases hin : dst + dev.NF_PAGE_SIZE * page_index ≤ k ∧
              k < dst + dev.NF_PAGE_SIZE * page_nr
          · rw [if_pos hin]
            unfold pagesOf
            by_cases hthis : k < dst + dev.NF_PAGE_SIZE * page_index + dev.NF_PAGE_SIZE
            · rw [if_neg (by omega), if_pos ⟨hin.1, hthis⟩, image_of_lt (by omega)]
            · rw [if_pos (by omega), image_of_le (by omega)]
              exact congrArg _ (by omega)
          · rw [if_neg hin, if_neg (by omega), if_neg (by omega)]

/-- The pages of a block that store something, from page `s` on. -/
def lsbPages (dev : Nand) (s : Nat) : List Nat :=
  (List.range' s (dev.PageCntPerPhyBlk - s)).filter dev.lsb

/-- What block `b` stores from page `s` on. -/
def stored (dev : Nand) (b s : Nat) : Ram := dev.pagesOf b (dev.lsbPages s)

/-- The reads of the first `n` such pages are right. -/
def ReadsRight (dev : Nand) (reads : Nat → NandRead) (s n : Nat) : Prop :=
  ∀ p ∈ (dev.lsbPages s).take n, (reads p).right = true

theorem image_append {byte : Nat → Nat → UInt8} (hk : k < size * bs.length) :
    image size byte (bs ++ ps) k = image size byte bs k := by
  induction bs generalizing k with
  | nil => simp at hk
  | cons b bs ih =>
    rw [List.length_cons, Nat.mul_succ] at hk
    rw [List.cons_append]
    by_cases hthis : k < size
    · rw [image_of_lt hthis, image_of_lt hthis]
    · rw [image_of_le (by omega), image_of_le (by omega)]
      exact ih (by omega)

theorem filter_lsb (dev : Nand) (s : Nat) : ∃ qs,
    (List.range' s dev.PageCntPerPhyBlk).filter dev.lsb = dev.lsbPages s ++ qs := by
  by_cases hs : s ≤ dev.PageCntPerPhyBlk
  · refine ⟨(List.range' dev.PageCntPerPhyBlk s).filter dev.lsb, ?_⟩
    unfold lsbPages
    rw [← List.filter_append]
    have happ := @List.range'_append_1 s (dev.PageCntPerPhyBlk - s) s
    rw [show s + (dev.PageCntPerPhyBlk - s) = dev.PageCntPerPhyBlk by omega,
      show dev.PageCntPerPhyBlk - s + s = dev.PageCntPerPhyBlk by omega] at happ
    rw [happ]
  · refine ⟨(List.range' s dev.PageCntPerPhyBlk).filter dev.lsb, ?_⟩
    unfold lsbPages
    rw [show dev.PageCntPerPhyBlk - s = 0 by omega]
    rfl

/-- Whole pages are read in order, over those that store nothing. -/
theorem NF_read_pages (henough : n ≤ (dev.lsbPages s).length) (hok : dev.ReadsRight reads s n)
    (hfits : dst + dev.NF_PAGE_SIZE * n ≤ D.room) :
    ∃ m', dev.NF_read D reads b (dev.SectorCntPerPage * s) (dev.SectorCntPerPage * n) dst m =
        some (NF_OK, m') ∧ ∀ k, m' k =
      if dst ≤ k ∧ k < dst + dev.NF_PAGE_SIZE * n then dev.stored b s (k - dst) else m k := by
  have hpos : 0 < dev.SectorCntPerPage := Nat.lt_of_lt_of_le (by decide) dev.two_le
  obtain ⟨qs, hqs⟩ := filter_lsb dev s
  have hlen : n ≤ 0 + ((List.range' s dev.PageCntPerPhyBlk).filter dev.lsb).length := by
    rw [hqs, List.length_append]
    omega
  have hright : ∀ p ∈ ((List.range' s dev.PageCntPerPhyBlk).filter dev.lsb).take (n - 0),
      (reads p).right = true := by
    rw [hqs, Nat.sub_zero, List.take_append_of_le_length henough]
    exact hok
  obtain ⟨m', hm', hbytes⟩ := readPages_ok (D := D) (b := b) (m := m) (Nat.zero_le n) hlen hright
    hfits
  rw [hqs, Nat.mul_zero, Nat.add_zero] at hbytes
  refine ⟨m', ?_, fun k => ?_⟩
  · unfold NF_read
    rw [Nat.mul_mod_right, Nat.mul_mod_right, Nat.mul_div_cancel_left _ hpos,
      Nat.mul_div_cancel_left _ hpos, if_neg (by simp)]
    simp [hm', NF_OK]
  · rw [hbytes k]
    by_cases hin : dst ≤ k ∧ k < dst + dev.NF_PAGE_SIZE * n
    · have hle : dev.NF_PAGE_SIZE * n ≤ dev.NF_PAGE_SIZE * (dev.lsbPages s).length :=
        Nat.mul_le_mul_left _ henough
      rw [if_pos hin, if_pos hin]
      exact image_append (by omega)
    · rw [if_neg hin, if_neg hin]

theorem lsbPages_zero (dev : Nand) : ∃ ps, dev.lsbPages 0 = 0 :: ps := by
  obtain ⟨n, hn⟩ : ∃ n, dev.PageCntPerPhyBlk = n + 1 :=
    ⟨dev.PageCntPerPhyBlk - 1, by have := dev.pages_pos; omega⟩
  unfold lsbPages
  rw [Nat.sub_zero, hn, List.range'_succ, List.filter_cons_of_pos (show dev.lsb 0 = true from dev.first_lsb)]
  exact ⟨_, rfl⟩

/-- The header of a block. -/
theorem NF_read_head (hok : r.right = true) (hfits : 512 ≤ D.room) :
    ∃ m', dev.NF_read D (fun _ => r) b 0 1 0 m = some (NF_OK, m') ∧
      AgreeTo 512 m' (dev.stored b 0) := by
  obtain ⟨ps, hps⟩ := lsbPages_zero dev
  have htwo := dev.two_le
  have hpage : dev.residuePage 0 = 0 := by
    unfold lsbPages at hps
    unfold residuePage
    rw [List.range_eq_range', show dev.PageCntPerPhyBlk = dev.PageCntPerPhyBlk - 0 from rfl, hps]
    rfl
  refine ⟨fun k => if 0 ≤ k ∧ k < 0 + 512 then dev.byte (b * dev.PageCntPerPhyBlk + 0) (k - 0)
    else m k, ?_, ?_⟩
  · unfold NF_read
    rw [Nat.zero_mod, if_neg (by simp), Nat.div_eq_of_lt (by omega), Nat.mod_eq_of_lt (by omega)]
    have hpages : dev.readPages D (fun _ => r) b 0 0
        (List.range' (0 / dev.SectorCntPerPage) dev.PageCntPerPhyBlk) 0 m = some (NF_OK, m) := by
      cases List.range' (0 / dev.SectorCntPerPage) dev.PageCntPerPhyBlk with
      | nil => rfl
      | cons p ps => rfl
    simp only [hpages, hpage, Option.bind_eq_bind, Option.bind_some, right_ne hok,
      delivered_right hok, put_eq_some m _ (show 0 + dev.NF_PAGE_SIZE * 0 + 512 * 1 ≤ D.room by omega)]
    rfl
  · intro k hk
    have hle : 512 ≤ dev.NF_PAGE_SIZE := by
      unfold NF_PAGE_SIZE
      omega
    unfold stored pagesOf
    rw [hps, image_of_lt (by omega)]
    simp [hk]

/-! ## Blocks -/

/-- What a block can store. -/
def capacity (dev : Nand) : Nat := dev.NF_PAGE_SIZE * (dev.lsbPages 0).length

theorem length_lsbPages_le (dev : Nand) (s : Nat) :
    (dev.lsbPages s).length ≤ (dev.lsbPages 0).length := by
  have hsub : (List.range' s (dev.PageCntPerPhyBlk - s)).Sublist
      (List.range' 0 (dev.PageCntPerPhyBlk - 0)) := by
    by_cases hs : s ≤ dev.PageCntPerPhyBlk
    · have happ := @List.range'_append_1 0 s (dev.PageCntPerPhyBlk - s)
      rw [Nat.zero_add, show s + (dev.PageCntPerPhyBlk - s) = dev.PageCntPerPhyBlk - 0 by omega]
        at happ
      rw [← happ]
      exact List.sublist_append_right _ _
    · rw [show dev.PageCntPerPhyBlk - s = 0 by omega]
      exact List.nil_sublist _
  exact (hsub.filter dev.lsb).length_le

theorem lsb_of_type (h : dev.NAND_LSBPAGE_TYPE = 0) : dev.lsb p = true := if_pos h

theorem NF_BLOCK_SIZE_eq (h : dev.NAND_LSBPAGE_TYPE = 0) : dev.NF_BLOCK_SIZE = dev.capacity := by
  unfold NF_BLOCK_SIZE capacity lsbPages
  rw [List.filter_eq_self.2 fun p _ => lsb_of_type h, List.length_range', Nat.sub_zero]

theorem NAND_GetLsbblksize_eq (h : dev.NAND_LSBPAGE_TYPE ≠ 0) :
    dev.NAND_GetLsbblksize = dev.capacity := by
  unfold NAND_GetLsbblksize capacity lsbPages NF_PAGE_SIZE
  rw [if_neg h, List.countP_eq_length_filter, List.range_eq_range', Nat.sub_zero, Nat.mul_assoc,
    Nat.mul_comm _ 512, Nat.mul_comm]

theorem judge_eq : dev.load_uboot_in_one_block_judge size = decide (size ≤ dev.capacity) := by
  unfold load_uboot_in_one_block_judge
  by_cases h : dev.NAND_LSBPAGE_TYPE = 0
  · simp [h, NF_BLOCK_SIZE_eq h]
  · simp [h, NAND_GetLsbblksize_eq h]

/-- The good blocks of a list. -/
def goods (dev : Nand) (bs : List Nat) : List Nat := bs.filter (!dev.bad ·)

/-- What blocks store, one after another. -/
def across (dev : Nand) (bs : List Nat) : Ram := image dev.capacity (fun b => dev.stored b 0) bs

/-- The mark of a block is read as it is. -/
def MarkSeen (dev : Nand) (r : NandRead) (b : Nat) : Prop :=
  dev.NF_read_status r b = NF_BAD_BLOCK ↔ dev.bad b = true

/-- The marks and the pages on the way of a load of `size` bytes are read as they are. -/
def BlocksSeen (dev : Nand) (i : Nat) : List Nat → Nat → Prop
  | [], _ => True
  | b :: bs, size => size = 0 ∨ dev.MarkSeen (dev.check i b) b ∧
      if dev.bad b then BlocksSeen dev i bs size
      else dev.ReadsRight (dev.page i 0 b) 0 (min size dev.capacity / dev.NF_PAGE_SIZE) ∧
        BlocksSeen dev i bs (size - dev.capacity)

theorem goods_bad (hmark : dev.bad b = true) : dev.goods (b :: bs) = dev.goods bs :=
  List.filter_cons_of_neg (by simp [hmark])

theorem goods_good (hmark : dev.bad b = false) : dev.goods (b :: bs) = b :: dev.goods bs :=
  List.filter_cons_of_pos (by simp [hmark])

theorem markSeen_ne (h : dev.MarkSeen r b) (hmark : dev.bad b = false) :
    dev.NF_read_status r b ≠ NF_BAD_BLOCK := by
  intro heq
  rw [h.1 heq] at hmark
  cases hmark

theorem capacity_pos : 0 < dev.capacity := by
  obtain ⟨ps, hps⟩ := lsbPages_zero dev
  unfold capacity
  rw [hps]
  exact Nat.mul_pos page_pos (Nat.succ_pos _)

theorem page_dvd_capacity : dev.NF_PAGE_SIZE ∣ dev.capacity := Nat.dvd_mul_right _ _

theorem dvd_min {a b d : Nat} (ha : d ∣ a) (hb : d ∣ b) : d ∣ min a b := by
  rcases Nat.le_total a b with h | h
  · rwa [Nat.min_eq_left h]
  · rwa [Nat.min_eq_right h]

/-- A read of whole pages, with its size in bytes. -/
theorem NF_read_bytes (hdvd : dev.NF_PAGE_SIZE ∣ size)
    (henough : size / dev.NF_PAGE_SIZE ≤ (dev.lsbPages s).length)
    (hok : dev.ReadsRight reads s (size / dev.NF_PAGE_SIZE)) (hfits : dst + size ≤ D.room) :
    ∃ m', dev.NF_read D reads b (dev.NF_PAGE_SIZE * s / 512) (size / 512) dst m =
        some (NF_OK, m') ∧ ∀ k, m' k =
      if dst ≤ k ∧ k < dst + size then dev.stored b s (k - dst) else m k := by
  obtain ⟨n, rfl⟩ := hdvd
  rw [Nat.mul_div_cancel_left _ page_pos] at henough hok
  obtain ⟨m', hm', hbytes⟩ := NF_read_pages (D := D) (b := b) (m := m) henough hok hfits
  have hsectors (k : Nat) : dev.NF_PAGE_SIZE * k / 512 = dev.SectorCntPerPage * k := by
    unfold NF_PAGE_SIZE
    rw [Nat.mul_assoc, Nat.mul_div_cancel_left _ (by decide)]
  refine ⟨m', ?_, hbytes⟩
  rw [hsectors, hsectors]
  exact hm'

theorem load_in_many_blks_ok (off : Nat) (hoff : off ≤ size) (hdvd : dev.NF_PAGE_SIZE ∣ size - off)
    (hseen : dev.BlocksSeen i bs (size - off))
    (hfits : min size (off + dev.capacity * (dev.goods bs).length) ≤ D.room) :
    ∃ m', dev.load_in_many_blks D i size bs off m = some (if size ≤ off + dev.capacity *
        (dev.goods bs).length then ADV_NF_OK else ADV_NF_LACK_BLKS, m') ∧
      ∀ k, m' k = if off ≤ k ∧ k < min size (off + dev.capacity * (dev.goods bs).length) then
        dev.across (dev.goods bs) (k - off) else m k := by
  have hpos : 0 < dev.capacity := capacity_pos
  induction bs generalizing off m with
  | nil =>
    have hnil : off + dev.capacity * (dev.goods []).length = off := rfl
    rw [hnil]
    refine ⟨m, ?_, fun k => ?_⟩
    · unfold load_in_many_blks
      by_cases heq : off = size
      · rw [if_pos heq, if_pos (by omega)]
      · rw [if_neg heq, if_neg (by omega)]
    · rw [if_neg (by omega)]
  | cons b bs ih =>
    unfold load_in_many_blks
    by_cases hlt : off < size
    · rw [if_pos hlt]
      obtain ⟨hcheck, hseen⟩ := hseen.resolve_left (by omega)
      cases hmark : dev.bad b with
      | true =>
        rw [if_pos hmark] at hseen
        rw [goods_bad hmark] at hfits ⊢
        rw [if_pos (hcheck.2 hmark)]
        exact ih off hoff hdvd hseen hfits
      | false =>
        rw [if_neg (by simp [hmark])] at hseen
        rw [goods_good hmark] at hfits ⊢
        rw [List.length_cons, Nat.mul_succ] at hfits ⊢
        rw [if_neg (markSeen_ne hcheck hmark)]
        obtain ⟨hpages, hseen⟩ := hseen
        have hload : (if dev.NAND_LSBPAGE_TYPE ≠ 0 then dev.NAND_GetLsbblksize
            else dev.NF_BLOCK_SIZE) = dev.capacity := by
          by_cases htype : dev.NAND_LSBPAGE_TYPE = 0
          · rw [if_neg (not_not.2 htype), NF_BLOCK_SIZE_eq htype]
          · rw [if_pos htype, NAND_GetLsbblksize_eq htype]
        have hle : min (size - off) dev.capacity / dev.NF_PAGE_SIZE ≤ (dev.lsbPages 0).length :=
          Nat.div_le_of_le_mul (Nat.min_le_right _ _)
        obtain ⟨m₁, hm₁, hbytes₁⟩ := NF_read_bytes (D := D) (b := b) (m := m)
          (dvd_min hdvd page_dvd_capacity) hle hpages (by omega : off + _ ≤ D.room)
        have hsub : size - off - dev.capacity =
            size - (off + min (size - off) dev.capacity) := by omega
        have hdvd' : dev.NF_PAGE_SIZE ∣ size - (off + min (size - off) dev.capacity) := by
          rw [← hsub]
          exact Nat.dvd_sub hdvd page_dvd_capacity
        rw [hsub] at hseen
        obtain ⟨m₂, hm₂, hbytes₂⟩ := ih (m := m₁) _ (by omega) hdvd' hseen (by omega)
        refine ⟨m₂, ?_, fun k => ?_⟩
        · simp only [hload, Nat.mul_zero, Nat.zero_div] at hm₁ ⊢
          rw [hm₁]
          refine hm₂.trans (congrArg some (Prod.ext ?_ rfl))
          by_cases hall : size ≤ off + (dev.capacity * (dev.goods bs).length + dev.capacity)
          · exact (if_pos (by omega)).trans (if_pos (by omega)).symm
          · exact (if_neg (by omega)).trans (if_neg (by omega)).symm
        · rw [hbytes₂ k]
          unfold across
          by_cases hin : off ≤ k ∧
              k < min size (off + (dev.capacity * (dev.goods bs).length + dev.capacity))
          · rw [if_pos hin]
            by_cases hthis : k < off + dev.capacity
            · rw [if_neg (by omega), hbytes₁ k, if_pos (by omega), image_of_lt (by omega)]
            · rw [if_pos (by omega), image_of_le (by omega)]
              exact congrArg _ (by omega)
          · rw [if_neg hin, if_neg (by omega), hbytes₁ k, if_neg (by omega)]
    · rw [if_neg hlt, if_pos (by omega), if_pos (by omega)]
      refine ⟨m, rfl, fun k => ?_⟩
      rw [if_neg (by omega)]

/-! ## Copies -/

/-- The page at which copy `c` begins. -/
def place (dev : Nand) (len c : Nat) : Nat := c * (len / dev.NF_PAGE_SIZE)

/-- The checksum over `len` bytes. -/
abbrev Sums (m : Ram) (len : Nat) : Prop := sumWords m (len / 4) = add_sum m

/-- Copy `c` of length `len` in block `i` is intact. -/
structure IntactIn (dev : Nand) (i len c : Nat) : Prop where
  package : Package (dev.stored i (dev.place len c))
  length : valid_len (dev.stored i (dev.place len c)) = len
  aligned : len &&& (ALIGN_SIZE - 1) = 0
  inside : (c + 1) * len ≤ dev.NF_BLOCK_SIZE
  enough : len / dev.NF_PAGE_SIZE ≤ (dev.lsbPages (dev.place len c)).length

/-- The copy that begins in block `i` and goes on in others. -/
def copy (dev : Nand) (i : Nat) : Ram := dev.across (dev.goods (dev.area i))

structure IntactAcross (dev : Nand) (i : Nat) : Prop where
  package : Package (dev.copy i)
  aligned : valid_len (dev.copy i) &&& (ALIGN_SIZE - 1) = 0
  long : dev.capacity < valid_len (dev.copy i)
  enough : valid_len (dev.copy i) ≤ dev.capacity * (dev.goods (dev.area i)).length

def Intact (dev : Nand) (i : Nat) : Prop :=
  dev.bad i = false ∧ ((∃ len c, dev.IntactIn i len c) ∨ dev.IntactAcross i)

/-- A package that is a copy within a block, or one that begins there. -/
def Good (dev : Nand) (m : Ram) : Prop :=
  Package m ∧ ∃ i ∈ dev.area BOOT1_START_BLK_NUM, dev.bad i = false ∧
    ((∃ c, valid_len m / dev.NF_PAGE_SIZE ≤ (dev.lsbPages (dev.place (valid_len m) c)).length ∧
      AgreeTo (max 64 (valid_len m)) m (dev.stored i (dev.place (valid_len m) c))) ∨
    valid_len m ≤ dev.capacity * (dev.goods (dev.area i)).length ∧
      AgreeTo (max 64 (valid_len m)) m (dev.copy i))

/-- The pages of copy `c` are in the block and are read as they are, and if its bytes have the
right sum they are a package of length `len`. -/
structure PassSane (dev : Nand) (i len c : Nat) : Prop where
  enough : len / dev.NF_PAGE_SIZE ≤ (dev.lsbPages (dev.place len c)).length
  right : dev.ReadsRight (dev.page i c i) (dev.place len c) (len / dev.NF_PAGE_SIZE)
  header : Sums (dev.stored i (dev.place len c)) len →
    magic (dev.stored i (dev.place len c)) = TOC_MAIN_INFO_MAGIC ∧
      valid_len (dev.stored i (dev.place len c)) = len

/-- The header of block `i` is one that the code goes on with. -/
def Plausible (dev : Nand) (i : Nat) : Prop :=
  magic (dev.stored i 0) = TOC_MAIN_INFO_MAGIC ∧
    valid_len (dev.stored i 0) &&& (ALIGN_SIZE - 1) = 0

/-- The reads of candidate `i`, with the candidates `is` behind it, deliver what the device
holds; no copy stands behind a damaged one in a block, or before one of another length; a
plausible length is not 0 and fits; and if there are not enough blocks for it, then none of `is`
is intact. -/
structure Sane (D : Dram) (dev : Nand) (i : Nat) (is : List Nat) : Prop where
  probe : dev.MarkSeen (dev.probe i) i
  head : dev.bad i = false → (dev.head i).right = true
  heads : dev.bad i = false → ∀ len c, dev.IntactIn i len c →
    dev.Plausible i ∧ valid_len (dev.stored i 0) = len
  length : dev.bad i = false → dev.Plausible i → valid_len (dev.stored i 0) ≠ 0
  within : dev.bad i = false → dev.Plausible i → valid_len (dev.stored i 0) ≤ dev.capacity →
    valid_len (dev.stored i 0) ≤ D.room ∧ ∀ c,
      (c + 1) * valid_len (dev.stored i 0) ≤ dev.NF_BLOCK_SIZE →
      (∀ c' < c, ¬ dev.IntactIn i (valid_len (dev.stored i 0)) c') →
      dev.PassSane i (valid_len (dev.stored i 0)) c
  across : dev.bad i = false → dev.Plausible i → dev.capacity < valid_len (dev.stored i 0) →
    dev.BlocksSeen i (dev.area i) (valid_len (dev.stored i 0)) ∧
    min (valid_len (dev.stored i 0)) (dev.capacity * (dev.goods (dev.area i)).length) ≤ D.room ∧
    (dev.capacity * (dev.goods (dev.area i)).length < valid_len (dev.stored i 0) →
      ∀ j ∈ is, ¬ dev.Intact j)

theorem page_dvd_aligned {len : Nat} (h : len &&& (ALIGN_SIZE - 1) = 0) :
    dev.NF_PAGE_SIZE ∣ len := Nat.dvd_trans dev.page_dvd (aligned_dvd h)

theorem checkCopy_does {len : Nat} {cs : List Nat} (halign : len &&& (ALIGN_SIZE - 1) = 0)
    (hne : len ≠ 0) (hroom : len ≤ D.room) (hinside : (c + 1) * len ≤ dev.NF_BLOCK_SIZE)
    (hsane : dev.PassSane i len c) :
    Search.Does (dev.checkCopy D i len)
      (fun m => ∃ c, dev.IntactIn i len c ∧ AgreeTo len m (dev.stored i (dev.place len c)))
      (dev.IntactIn i len) c cs m := by
  have hlong : 16384 ≤ len := aligned_le halign hne
  have hdvd : dev.NF_PAGE_SIZE ∣ len := page_dvd_aligned halign
  obtain ⟨m', hm', hbytes⟩ := NF_read_bytes (D := D) (b := i) (m := m) hdvd hsane.enough
    hsane.right (by omega : 0 + len ≤ D.room)
  have hplace : dev.NF_PAGE_SIZE * dev.place len c = c * len := by
    unfold place
    rw [Nat.mul_left_comm, Nat.mul_div_cancel' hdvd]
  rw [hplace] at hm'
  have hagree : AgreeTo len m' (dev.stored i (dev.place len c)) := by
    intro k hk
    rw [hbytes k]
    exact if_pos ⟨Nat.zero_le k, by omega⟩
  have hverify := verify_of_le (D := D) (m := m') (by omega : 16 ≤ len) hroom
  rw [hagree.sumWords (by omega), hagree.add_sum (by omega)] at hverify
  by_cases hsum : Sums (dev.stored i (dev.place len c)) len
  · obtain ⟨hmagic, hlength⟩ := hsane.header hsum
    rw [if_pos hsum] at hverify
    have hintact : dev.IntactIn i len c := by
      refine ⟨⟨hmagic, by omega, ?_⟩, hlength, halign, hinside, hsane.enough⟩
      rw [hlength]
      exact hsum
    refine .found m' ?_ ⟨c, hintact, hagree⟩ hintact
    simp [checkCopy, hm', hverify, NF_OK, NF_OVERTIME_ERR, NF_ECC_ERR]
  · rw [if_neg hsum] at hverify
    refine .next m' ?_ fun hintact => hsum ?_
    · simp [checkCopy, hm', hverify, NF_OK, NF_OVERTIME_ERR, NF_ECC_ERR]
    · have hpackage := hintact.package.2.2
      rwa [hintact.length] at hpackage

/-! ## The search -/

theorem area_eq_cons (hi : i ∈ dev.area b) :
    dev.area i = i :: List.range' (i + 1) (dev.BOOT1_LAST_BLK_NUM - i) := by
  unfold area at hi ⊢
  rw [List.mem_range'_1] at hi
  rw [show dev.BOOT1_LAST_BLK_NUM + 1 - i = dev.BOOT1_LAST_BLK_NUM - i + 1 by omega,
    List.range'_succ]

/-- A copy begins with what its first block stores. -/
theorem copy_agrees (hi : i ∈ dev.area b) (hmark : dev.bad i = false) :
    AgreeTo dev.capacity (dev.copy i) (dev.stored i 0) := by
  intro k hk
  unfold copy across
  rw [area_eq_cons hi, goods_good hmark]
  exact image_of_lt hk

theorem sector_le_capacity (dev : Nand) : 512 ≤ dev.capacity := by
  have htwo := dev.two_le
  obtain ⟨ps, hps⟩ := lsbPages_zero dev
  have hle : dev.NF_PAGE_SIZE ≤ dev.capacity := by
    unfold capacity
    rw [hps]
    exact Nat.le_mul_of_pos_right _ (Nat.succ_pos _)
  unfold NF_PAGE_SIZE at hle
  omega

theorem within_found {len : Nat} (hi : i ∈ dev.area BOOT1_START_BLK_NUM)
    (hmark : dev.bad i = false) (hlong : 16384 ≤ len) (hintact : dev.IntactIn i len c)
    (hagree : AgreeTo len m (dev.stored i (dev.place len c))) : dev.Good m := by
  have hlen : valid_len m = len := (hagree.valid_len (by omega)).trans hintact.length
  have hlength := hintact.length
  refine ⟨hintact.package.congr hagree.symm (by omega) (by omega), i, hi, hmark, .inl ⟨c, ?_⟩⟩
  rw [hlen, Nat.max_eq_right (by omega)]
  exact ⟨hintact.enough, hagree⟩

theorem load_and_check_finds {len : Nat} (halign : len &&& (ALIGN_SIZE - 1) = 0) (hne : len ≠ 0)
    (hroom : len ≤ D.room)
    (hsane : ∀ c, (c + 1) * len ≤ dev.NF_BLOCK_SIZE → (∀ c' < c, ¬ dev.IntactIn i len c') →
      dev.PassSane i len c) :
    ∃ t, dev.load_and_check_in_one_blk D i len m = some t ∧
      (∀ m', t = .found m' →
        ∃ c, dev.IntactIn i len c ∧ AgreeTo len m' (dev.stored i (dev.place len c))) ∧
      ((∃ c, dev.IntactIn i len c) → ∃ m', t = .found m') := by
  have hpasses : dev.passes len = dev.NF_BLOCK_SIZE / len := if_neg hne
  have hpos : 0 < len := Nat.pos_of_ne_zero hne
  have hinside (c : Nat) : c < dev.passes len ↔ (c + 1) * len ≤ dev.NF_BLOCK_SIZE := by
    rw [hpasses, Nat.lt_iff_add_one_le, Nat.le_div_iff_mul_le hpos]
  have htried : Search.Tried (dev.IntactIn i len)
      (fun c _ => (c + 1) * len ≤ dev.NF_BLOCK_SIZE ∧ dev.PassSane i len c)
      (List.range' 0 (dev.passes len)) := by
    refine Search.tried_range' fun c _ hlt hbefore _ => ?_
    rw [Nat.zero_add, hinside] at hlt
    exact ⟨hlt, hsane c hlt fun c' hc' => hbefore c' (Nat.zero_le c') hc'⟩
  obtain ⟨t, ht, hgood, hfound⟩ := Search.search_finds (m := m)
    (fun c _ cs m hC => checkCopy_does (D := D) halign hne hroom hC.1 hC.2) htried
  unfold load_and_check_in_one_blk
  rw [List.range_eq_range']
  refine ⟨t, ht, hgood, ?_⟩
  rintro ⟨c, hc⟩
  refine hfound ⟨c, ?_, hc⟩
  rw [List.mem_range'_1, Nat.zero_add, hinside]
  exact ⟨Nat.zero_le c, hc.inside⟩

theorem plausible_of_intact {is : List Nat} (hsane : dev.Sane D i is)
    (hi : i ∈ dev.area BOOT1_START_BLK_NUM) (hintact : dev.Intact i) : dev.Plausible i := by
  obtain ⟨hmark, ⟨len, c, hin⟩ | hacross⟩ := hintact
  · exact (hsane.heads hmark len c hin).1
  · have hcopy := (copy_agrees hi hmark).mono (sector_le_capacity dev)
    rw [Plausible, ← hcopy.magic (by omega), ← hcopy.valid_len (by omega)]
    exact ⟨hacross.package.1, hacross.aligned⟩

section

variable {is : List Nat} {m₁ : Ram} (hi : i ∈ dev.area BOOT1_START_BLK_NUM)
  (hsane : dev.Sane D i is) (hmark : dev.bad i = false)
  (hm₁ : dev.NF_read D (fun _ => dev.head i) i 0 1 0 m = some (NF_OK, m₁))
  (hagree : AgreeTo 512 m₁ (dev.stored i 0))

include hsane hmark hm₁ hagree

/-- A candidate without a header to go on with is passed over. -/
theorem attempt_skip (h : ¬ dev.Plausible i) : dev.attempt D i m = some (.next m₁) := by
  have hgood := markSeen_ne hsane.probe hmark
  have hmagic := hagree.magic (by omega)
  have hlen := hagree.valid_len (by omega)
  by_cases hm : magic (dev.stored i 0) = TOC_MAIN_INFO_MAGIC
  · have halign : valid_len (dev.stored i 0) &&& (ALIGN_SIZE - 1) ≠ 0 := fun h' => h ⟨hm, h'⟩
    simp [attempt, hgood, hm₁, hmagic, hm, hlen, halign, NF_OK, NF_OVERTIME_ERR]
  · simp [attempt, hgood, hm₁, hmagic, hm, NF_OK, NF_OVERTIME_ERR]

theorem attempt_within (h : dev.Plausible i) (hone : valid_len (dev.stored i 0) ≤ dev.capacity) :
    dev.attempt D i m =
      (dev.load_and_check_in_one_blk D i (valid_len (dev.stored i 0)) m₁).map fun
        | .found m => .found m
        | .next m => .next m
        | .giveUp m => .next m := by
  have hgood := markSeen_ne hsane.probe hmark
  have hmagic := hagree.magic (by omega)
  have hlen := hagree.valid_len (by omega)
  simp [attempt, hgood, hm₁, hmagic, h.1, hlen, h.2, judge_eq, hone, NF_OK, NF_OVERTIME_ERR]

theorem attempt_across (h : dev.Plausible i) (hlong : dev.capacity < valid_len (dev.stored i 0)) :
    dev.attempt D i m = (do
      let (status, m) ← dev.load_in_many_blks D i (valid_len (dev.stored i 0)) (dev.area i) 0 m₁
      if status = ADV_NF_LACK_BLKS then return .giveUp m
      if status = ADV_NF_OVERTIME_ERR then return .next m
      let sum ← verify_addsum D m (valid_len (dev.stored i 0))
      if sum = 0 then return .found m
      return .next m) := by
  have hgood := markSeen_ne hsane.probe hmark
  have hmagic := hagree.magic (by omega)
  have hlen := hagree.valid_len (by omega)
  have hnot : ¬ valid_len (dev.stored i 0) ≤ dev.capacity := by omega
  simp [attempt, hgood, hm₁, hmagic, h.1, hlen, h.2, judge_eq, hnot, NF_OK, NF_OVERTIME_ERR]

include hi

theorem within_does (h : dev.Plausible i) (hone : valid_len (dev.stored i 0) ≤ dev.capacity) :
    Search.Does (dev.attempt D) dev.Good dev.Intact i is m := by
  have hne := hsane.length hmark h
  obtain ⟨hroom, hpass⟩ := hsane.within hmark h hone
  have hlong : 16384 ≤ valid_len (dev.stored i 0) := aligned_le h.2 hne
  obtain ⟨t, ht, hfound, hacc⟩ := load_and_check_finds (D := D) (m := m₁) h.2 hne hroom hpass
  have hattempt := attempt_within hsane hmark hm₁ hagree h hone
  rw [ht, Option.map_some] at hattempt
  have hnone (hnot : ¬ ∃ m', t = .found m') : ¬ dev.Intact i := by
    rintro ⟨-, ⟨len, c, hin⟩ | hacross⟩
    · have heq := (hsane.heads hmark len c hin).2
      subst heq
      exact hnot (hacc ⟨c, hin⟩)
    · have hlong := hacross.long
      have hcopy := (copy_agrees hi hmark).mono (sector_le_capacity dev)
      rw [hcopy.valid_len (by omega)] at hlong
      omega
  cases t with
  | found m' =>
    obtain ⟨c, hin, hagree'⟩ := hfound m' rfl
    exact .found m' hattempt (within_found hi hmark hlong hin hagree') ⟨hmark, .inl ⟨_, c, hin⟩⟩
  | next m' => exact .next m' hattempt (hnone fun ⟨_, h⟩ => nomatch h)
  | giveUp m' => exact .next m' hattempt (hnone fun ⟨_, h⟩ => nomatch h)

theorem across_does (h : dev.Plausible i) (hlong : dev.capacity < valid_len (dev.stored i 0)) :
    Search.Does (dev.attempt D) dev.Good dev.Intact i is m := by
  obtain ⟨hseen, hroom, hlack⟩ := hsane.across hmark h hlong
  have hcopy := copy_agrees hi hmark
  have hsector := sector_le_capacity dev
  have hlen : valid_len (dev.copy i) = valid_len (dev.stored i 0) := hcopy.valid_len (by omega)
  have hbig : 16384 ≤ valid_len (dev.stored i 0) := aligned_le h.2 (hsane.length hmark h)
  have hdvd : dev.NF_PAGE_SIZE ∣ valid_len (dev.stored i 0) := page_dvd_aligned h.2
  have hattempt := attempt_across hsane hmark hm₁ hagree h hlong
  -- a copy in the block has a length that a block can store
  have hacross (hintact : dev.Intact i) : dev.IntactAcross i := by
    obtain ⟨-, ⟨len, c, hin⟩ | hacross⟩ := hintact
    · have heq := (hsane.heads hmark len c hin).2
      have hle := Nat.le_trans hin.enough (length_lsbPages_le dev _)
      have hcap : len ≤ dev.capacity := by
        obtain ⟨n, rfl⟩ : dev.NF_PAGE_SIZE ∣ len := page_dvd_aligned hin.aligned
        rw [Nat.mul_div_cancel_left _ page_pos] at hle
        exact Nat.mul_le_mul_left _ hle
      omega
    · exact hacross
  obtain ⟨m₂, hm₂, hbytes⟩ := load_in_many_blks_ok (D := D) (m := m₁) 0
    (Nat.zero_le (valid_len (dev.stored i 0))) hdvd hseen (by rwa [Nat.zero_add])
  rw [Nat.zero_add] at hm₂ hbytes
  rw [hm₂] at hattempt
  by_cases henough : valid_len (dev.stored i 0) ≤ dev.capacity * (dev.goods (dev.area i)).length
  · have hagree₂ : AgreeTo (valid_len (dev.stored i 0)) m₂ (dev.copy i) := by
      intro k hk
      rw [hbytes k]
      exact if_pos ⟨Nat.zero_le k, by omega⟩
    have hlen₂ : valid_len m₂ = valid_len (dev.stored i 0) :=
      (hagree₂.valid_len (by omega)).trans hlen
    have hverify := verify_of_le (D := D) (m := m₂) (by omega : 16 ≤ valid_len (dev.stored i 0))
      (by omega)
    rw [hagree₂.sumWords (by omega), hagree₂.add_sum (by omega)] at hverify
    by_cases hsum : Sums (dev.copy i) (valid_len (dev.stored i 0))
    · rw [if_pos hsum] at hverify
      have hpackage : Package (dev.copy i) := by
        refine ⟨(hcopy.magic (by omega)).trans h.1, by omega, ?_⟩
        rw [hlen]
        exact hsum
      refine .found m₂ ?_
        ⟨hpackage.congr hagree₂.symm (by omega) (by omega), i, hi, hmark, .inr ⟨by omega, ?_⟩⟩
        ⟨hmark, .inr ⟨hpackage, hlen.symm ▸ h.2, by omega, by omega⟩⟩
      · simp [hattempt, henough, hverify, ADV_NF_OK, ADV_NF_LACK_BLKS, ADV_NF_OVERTIME_ERR]
      · rwa [hlen₂, Nat.max_eq_right (by omega)]
    · rw [if_neg hsum] at hverify
      refine .next m₂ ?_ fun hintact => hsum ?_
      · simp [hattempt, henough, hverify, ADV_NF_OK, ADV_NF_LACK_BLKS, ADV_NF_OVERTIME_ERR]
      · rw [← hlen]
        exact (hacross hintact).package.2.2
  · refine .giveUp m₂ ?_ fun j hj => ?_
    · simp [hattempt, henough, ADV_NF_LACK_BLKS]
    · rcases List.mem_cons.1 hj with rfl | hj
      · intro hintact
        have := (hacross hintact).enough
        omega
      · exact hlack (by omega) j hj

end

theorem attempt_does {is : List Nat} (hi : i ∈ dev.area BOOT1_START_BLK_NUM)
    (hsane : dev.Sane D i is) : Search.Does (dev.attempt D) dev.Good dev.Intact i is m := by
  cases hmark : dev.bad i with
  | true =>
    refine .next m (if_pos (hsane.probe.2 hmark)) fun hintact => ?_
    rw [hintact.1] at hmark
    cases hmark
  | false =>
    have hfits := D.head_fits
    obtain ⟨m₁, hm₁, hagree⟩ := NF_read_head (D := D) (b := i) (m := m) (hsane.head hmark)
      (by omega)
    by_cases h : dev.Plausible i
    · by_cases hone : valid_len (dev.stored i 0) ≤ dev.capacity
      · exact within_does hi hsane hmark hm₁ hagree h hone
      · exact across_does hi hsane hmark hm₁ hagree h (by omega)
    · exact .next m₁ (attempt_skip hsane hmark hm₁ hagree h)
        fun hintact => h (plausible_of_intact hsane hi hintact)

/-- The condition for the candidates that are tried, the last of which is the first one with an
intact copy. -/
def Condition (D : Dram) (dev : Nand) : Prop :=
  if dev.init = NF_ERROR then ∀ i ∈ dev.area BOOT1_START_BLK_NUM, ¬ dev.Intact i
  else Search.Tried dev.Intact (dev.Sane D) (dev.area BOOT1_START_BLK_NUM)

theorem boots (h : dev.Condition D) : Boots (load_toc1_from_nand D dev m) dev.Good
    (∃ i ∈ dev.area BOOT1_START_BLK_NUM, dev.Intact i) := by
  unfold Condition at h
  unfold load_toc1_from_nand
  by_cases hinit : dev.init = NF_ERROR
  · rw [if_pos hinit] at h ⊢
    refine ⟨-1, m, rfl, fun h => absurd h (by decide), ?_⟩
    rintro ⟨i, hi, hintact⟩
    exact absurd hintact (h i hi)
  · rw [if_neg hinit] at h ⊢
    exact boots_of_finds (Search.search_finds (fun _ hi _ _ hC => attempt_does hi hC) h)

end

end Nand

end Melis.Sboot
