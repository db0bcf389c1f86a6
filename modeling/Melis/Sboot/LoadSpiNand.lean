import Melis.Sboot.LoadSectors

/-!
# Loading from SPI NAND

`load_toc1_from_spinand` tries the blocks of a range as the first block of a copy, and
`Spinand_Load_Boot1_Copy` goes on through the blocks behind it, over bad ones, without a limit;
`n` is the number of blocks that it may look at. The device answers each page read with the
results of its transfers, and the status register after it; where its ECC gave up it delivers
other bytes than it holds. `spi_wait_status` gets the status by value, so that the register
does not come back.
-/

namespace Melis.Sboot

open Lib

def ERR_ECC : Int := 12

def SPINAND_BAD_BLOCK : Int := 1

def SPINAND_GOOD_BLOCK : Int := 0

def NAND_OP_FALSE : Int := -1

/-- A page read as the device carries it out. -/
structure SpiRead where
  /-- `Spic_rw` of the command, of the main data and of the mark. -/
  cmd : Int
  main : Int
  spare : Int
  /-- The two results of `spi_wait_status`. -/
  wait : Int
  again : Int
  status : UInt8
  /-- The bytes and the mark that come where ECC gave up. -/
  bytes : Nat → UInt8
  mark : UInt8

/-- The ECC bits of the status register. -/
def eccBits (status : UInt8) : UInt8 := status >>> 4 &&& 3

namespace SpiRead

variable (r : SpiRead)

/-- The pages that ECC could not correct. -/
def uncorrectable : Bool := eccBits r.status == 2

def spi_nand_read_x1 (mbuf : Bool) : Int :=
  if r.cmd ≠ 0 then r.cmd
  else if r.wait ≠ 0 then r.wait
  else if mbuf ∧ r.main ≠ 0 then r.main
  else if r.spare ≠ 0 then r.spare
  else 0

/-- The read fails so that the code sees it, or delivers what the page holds. -/
def Seen : Prop := r.spi_nand_read_x1 true ≠ 0 ∨ r.uncorrectable = false

end SpiRead

structure SpiNand where
  /-- What `SpiNand_PhyInit` returns. -/
  init : Int
  UBOOT_START_BLK_NUM : Nat
  UBOOT_LAST_BLK_NUM : Nat
  SPN_PAGE_SIZE : Nat
  pages : Nat
  blocks : Nat
  bad : Nat → Bool
  byte : Nat → Nat → UInt8
  /-- The reads of a candidate: its mark, its header, the marks and the pages of its load. -/
  probe : Nat → SpiRead
  head : Nat → SpiRead
  check : Nat → Nat → SpiRead
  page : Nat → Nat → Nat → SpiRead
  sector_le_page : 512 ≤ SPN_PAGE_SIZE
  pages_pos : 0 < pages
  last_lt : UBOOT_LAST_BLK_NUM < blocks

namespace SpiNand

variable (D : Dram) (dev : SpiNand)

def SPN_BLOCK_SIZE : Nat := dev.SPN_PAGE_SIZE * dev.pages

def SpiNand_Check_BadBlock (r : SpiRead) (block_num : Nat) : Int :=
  let bad_flag := if r.uncorrectable then r.mark else if dev.bad block_num then 0 else 0xFF
  if r.spi_nand_read_x1 false ≠ 0 then NAND_OP_FALSE
  else if bad_flag ≠ 0xFF then SPINAND_BAD_BLOCK
  else SPINAND_GOOD_BLOCK

/-- The bytes that a read of page `p` of block `b` delivers. -/
def delivered (r : SpiRead) (b p : Nat) : Nat → UInt8 := fun k =>
  if r.uncorrectable then r.bytes k else dev.byte b (dev.SPN_PAGE_SIZE * p + k)

/-- `read_single_page` of `data_size` bytes of page `p`, to `dst`. -/
def read_single_page (r : SpiRead) (b p data_size dst : Nat) (m : Ram) : Option (Bool × Ram) :=
  if r.cmd ≠ 0 ∨ r.wait ≠ 0 then some (false, m)
  else (D.put m dst data_size (dev.delivered r b p)).map fun m =>
    (r.spi_nand_read_x1 true = 0, m)

/-- The loop of `SpiNand_Read` over `n` pages from page `p` of block `b` on, of which `rest`
bytes are wanted. -/
def readPages (reads : Nat → SpiRead) (b dst : Nat) : Nat → Nat → Nat → Ram → Option (Bool × Ram)
  | 0, _, _, m => some (true, m)
  | n + 1, p, rest, m => do
    let data_size := min rest dev.SPN_PAGE_SIZE
    let (ok, m) ← dev.read_single_page D (reads p) b p data_size (dst + dev.SPN_PAGE_SIZE * p) m
    if !ok then return (false, m)
    readPages reads b dst n (p + 1) (rest - data_size) m

/-- `SpiNand_Read` of whole sectors, `size` bytes, from the first of block `b` on. -/
def SpiNand_Read (reads : Nat → SpiRead) (b dst size : Nat) (m : Ram) : Option (Bool × Ram) :=
  dev.readPages D reads b dst ((size + dev.SPN_PAGE_SIZE - 1) / dev.SPN_PAGE_SIZE) 0 size m

/-- The loop of `Spinand_Load_Boot1_Copy` for candidate `i`, over the blocks of a list; `none`
where they do not suffice. -/
def Spinand_Load_Boot1_Copy (i size : Nat) : List Nat → Nat → Ram → Option (Bool × Ram)
  | [], buf_off, m => if buf_off < size then none else some (true, m)
  | b :: blks, buf_off, m =>
    if buf_off < size then
      if dev.SpiNand_Check_BadBlock (dev.check i b) b = SPINAND_BAD_BLOCK then
        Spinand_Load_Boot1_Copy i size blks buf_off m
      else do
        let size_loaded := min (size - buf_off) dev.SPN_BLOCK_SIZE
        let (ok, m) ← dev.SpiNand_Read D (dev.page i b) b buf_off size_loaded m
        if !ok then return (false, m)
        Spinand_Load_Boot1_Copy i size blks (buf_off + size_loaded) m
    else some (true, m)

def attempt (n i : Nat) (m : Ram) : Option (Try Ram) :=
  if dev.SpiNand_Check_BadBlock (dev.probe i) i = SPINAND_BAD_BLOCK then some (.next m)
  else do
    let (ok, m) ← dev.SpiNand_Read D (fun _ => dev.head i) i 0 512 m
    if !ok then return .next m
    if magic m ≠ TOC_MAIN_INFO_MAGIC then return .next m
    let length := valid_len m
    if length &&& (ALIGN_SIZE - 1) ≠ 0 then return .next m
    let (ok, m) ← dev.Spinand_Load_Boot1_Copy D i length (List.range' i (n - i)) 0 m
    if !ok then return .next m
    let sum ← verify_addsum D m length
    if sum ≠ 0 then return .next m
    return .found m

/-- The candidates. -/
def range : List Nat :=
  List.range' dev.UBOOT_START_BLK_NUM (dev.UBOOT_LAST_BLK_NUM + 1 - dev.UBOOT_START_BLK_NUM)

end SpiNand

def load_toc1_from_spinand (D : Dram) (dev : SpiNand) (n : Nat) (m : Ram) : Option (Int × Ram) :=
  if dev.init ≠ 0 then some (-1, m)
  else (search (dev.attempt D n) dev.range m).map searchRet

namespace SpiNand

section

variable {D : Dram} {dev : SpiNand} {m m' : Ram} {r : SpiRead} {reads : Nat → SpiRead}
  {b p i k n dst size rest off data_size : Nat} {bs : List Nat}

/-- A page read succeeds. -/
def Ok (r : SpiRead) : Prop := r.spi_nand_read_x1 true = 0

theorem Ok.started (h : Ok r) : r.cmd = 0 ∧ r.wait = 0 := by
  unfold Ok SpiRead.spi_nand_read_x1 at h
  split at h
  · contradiction
  · split at h
    · contradiction
    · rename_i hcmd hwait
      exact ⟨not_not.1 hcmd, not_not.1 hwait⟩

theorem Ok.delivered (h : Ok r) (hseen : r.Seen) :
    dev.delivered r b p = fun k => dev.byte b (dev.SPN_PAGE_SIZE * p + k) := by
  have hecc := hseen.resolve_left fun hne => hne h
  funext k
  simp [SpiNand.delivered, hecc]

theorem read_single_page_ok (h : Ok r) (hseen : r.Seen) (hfits : dst + data_size ≤ D.room) :
    dev.read_single_page D r b p data_size dst m = some (true, fun k =>
      if dst ≤ k ∧ k < dst + data_size then dev.byte b (dev.SPN_PAGE_SIZE * p + (k - dst))
      else m k) := by
  obtain ⟨hcmd, hwait⟩ := h.started
  unfold read_single_page
  rw [if_neg (by simp [hcmd, hwait]), put_eq_some _ _ hfits, h.delivered hseen, Option.map_some]
  exact congrArg some (Prod.ext (decide_eq_true h) rfl)

theorem read_single_page_true (h : Ok r) (hfits : dst + data_size ≤ D.room) :
    ∃ m', dev.read_single_page D r b p data_size dst m = some (true, m') := by
  obtain ⟨hcmd, hwait⟩ := h.started
  unfold read_single_page
  rw [if_neg (by simp [hcmd, hwait]), put_eq_some _ _ hfits, Option.map_some]
  exact ⟨_, congrArg some (Prod.ext (decide_eq_true h) rfl)⟩

theorem read_single_page_failed (h : ¬ Ok r) (hfits : dst + data_size ≤ D.room) :
    ∃ m', dev.read_single_page D r b p data_size dst m = some (false, m') := by
  unfold read_single_page
  split
  · exact ⟨m, rfl⟩
  · rw [put_eq_some _ _ hfits, Option.map_some]
    exact ⟨_, congrArg some (Prod.ext (decide_eq_false h) rfl)⟩

theorem page_pos : 0 < dev.SPN_PAGE_SIZE := by
  have := dev.sector_le_page
  omega

theorem readPages_ok (hok : ∀ q, p ≤ q → q < p + n → Ok (reads q) ∧ (reads q).Seen)
    (hlo : rest ≤ n * dev.SPN_PAGE_SIZE) (hhi : n * dev.SPN_PAGE_SIZE < rest + dev.SPN_PAGE_SIZE)
    (hfits : 0 < rest → dst + dev.SPN_PAGE_SIZE * p + rest ≤ D.room) :
    ∃ m', dev.readPages D reads b dst n p rest m = some (true, m') ∧ ∀ k, m' k =
      if dst + dev.SPN_PAGE_SIZE * p ≤ k ∧ k < dst + dev.SPN_PAGE_SIZE * p + rest then
        dev.byte b (k - dst) else m k := by
  induction n generalizing p rest m with
  | zero =>
    rw [Nat.zero_mul] at hlo
    refine ⟨m, rfl, fun k => ?_⟩
    rw [if_neg (by omega)]
  | succ n ih =>
    rw [Nat.succ_mul] at hlo hhi
    obtain ⟨hpage, hseen⟩ := hok p (Nat.le_refl p) (by omega)
    have hroom := hfits (by omega)
    have hfits' : dst + dev.SPN_PAGE_SIZE * p + min rest dev.SPN_PAGE_SIZE ≤ D.room := by omega
    have hnext : dev.SPN_PAGE_SIZE * (p + 1) = dev.SPN_PAGE_SIZE * p + dev.SPN_PAGE_SIZE :=
      Nat.mul_succ _ _
    obtain ⟨m', hm', hbytes⟩ := @ih (fun k =>
        if dst + dev.SPN_PAGE_SIZE * p ≤ k ∧
            k < dst + dev.SPN_PAGE_SIZE * p + min rest dev.SPN_PAGE_SIZE then
          dev.byte b (dev.SPN_PAGE_SIZE * p + (k - (dst + dev.SPN_PAGE_SIZE * p)))
        else m k) (p + 1) (rest - min rest dev.SPN_PAGE_SIZE)
      (fun q hp hq => hok q (by omega) (by omega)) (by omega) (by omega) (by omega)
    refine ⟨m', ?_, fun k => ?_⟩
    · rw [readPages, read_single_page_ok hpage hseen hfits']
      exact hm'
    · rw [hbytes k]
      by_cases hin : dst + dev.SPN_PAGE_SIZE * p ≤ k ∧ k < dst + dev.SPN_PAGE_SIZE * p + rest
      · rw [if_pos hin]
        by_cases hthis : k < dst + dev.SPN_PAGE_SIZE * p + min rest dev.SPN_PAGE_SIZE
        · rw [if_neg (by omega), if_pos ⟨hin.1, hthis⟩]
          exact congrArg _ (by omega)
        · exact if_pos (by omega)
      · rw [if_neg hin, if_neg (by omega), if_neg (by omega)]

theorem readPages_failed (hbad : ∃ q, p ≤ q ∧ q < p + n ∧ ¬ Ok (reads q))
    (hhi : n * dev.SPN_PAGE_SIZE < rest + dev.SPN_PAGE_SIZE)
    (hfits : dst + dev.SPN_PAGE_SIZE * p + rest ≤ D.room) :
    ∃ m', dev.readPages D reads b dst n p rest m = some (false, m') := by
  induction n generalizing p rest m with
  | zero =>
    obtain ⟨q, hp, hq, -⟩ := hbad
    omega
  | succ n ih =>
    rw [Nat.succ_mul] at hhi
    have hroom : dst + dev.SPN_PAGE_SIZE * p + min rest dev.SPN_PAGE_SIZE ≤ D.room := by omega
    have hnext : dev.SPN_PAGE_SIZE * (p + 1) = dev.SPN_PAGE_SIZE * p + dev.SPN_PAGE_SIZE :=
      Nat.mul_succ _ _
    rw [readPages]
    by_cases hpage : Ok (reads p)
    · obtain ⟨m₁, hm₁⟩ : ∃ m₁, dev.read_single_page D (reads p) b p (min rest dev.SPN_PAGE_SIZE)
          (dst + dev.SPN_PAGE_SIZE * p) m = some (true, m₁) := read_single_page_true hpage hroom
      rw [hm₁]
      obtain ⟨q, hp, hq, hbad⟩ := hbad
      have hne : q ≠ p := fun heq => hbad (heq ▸ hpage)
      have hzero : n ≠ 0 := by omega
      have hle : dev.SPN_PAGE_SIZE ≤ n * dev.SPN_PAGE_SIZE :=
        Nat.le_mul_of_pos_left _ (Nat.pos_of_ne_zero hzero)
      exact ih ⟨q, by omega, by omega, hbad⟩ (by omega) (by omega)
    · obtain ⟨m', hm'⟩ : ∃ m', dev.read_single_page D (reads p) b p (min rest dev.SPN_PAGE_SIZE)
          (dst + dev.SPN_PAGE_SIZE * p) m = some (false, m') := read_single_page_failed hpage hroom
      rw [hm']
      exact ⟨m', rfl⟩

/-- The pages that hold the first `size` bytes can be read. -/
def BlockOk (dev : SpiNand) (reads : Nat → SpiRead) (size : Nat) : Prop :=
  ∀ p, dev.SPN_PAGE_SIZE * p < size → Ok (reads p)

/-- These pages deliver what they hold. -/
def BlockSeen (dev : SpiNand) (reads : Nat → SpiRead) (size : Nat) : Prop :=
  ∀ p, dev.SPN_PAGE_SIZE * p < size → (reads p).Seen

theorem page_count (dev : SpiNand) (size : Nat) :
    size ≤ (size + dev.SPN_PAGE_SIZE - 1) / dev.SPN_PAGE_SIZE * dev.SPN_PAGE_SIZE ∧
    (size + dev.SPN_PAGE_SIZE - 1) / dev.SPN_PAGE_SIZE * dev.SPN_PAGE_SIZE <
      size + dev.SPN_PAGE_SIZE := by
  have hpos : 0 < dev.SPN_PAGE_SIZE := page_pos
  have hdiv := Nat.div_add_mod (size + dev.SPN_PAGE_SIZE - 1) dev.SPN_PAGE_SIZE
  have hmod := Nat.mod_lt (size + dev.SPN_PAGE_SIZE - 1) hpos
  rw [Nat.mul_comm] at hdiv
  omega

theorem lt_page_count :
    p < (size + dev.SPN_PAGE_SIZE - 1) / dev.SPN_PAGE_SIZE ↔ dev.SPN_PAGE_SIZE * p < size := by
  have hpos : 0 < dev.SPN_PAGE_SIZE := page_pos
  rw [Nat.lt_iff_add_one_le, Nat.le_div_iff_mul_le hpos, Nat.succ_mul, Nat.mul_comm]
  omega

theorem SpiNand_Read_ok (hok : dev.BlockOk reads size) (hseen : dev.BlockSeen reads size)
    (hfits : dst + size ≤ D.room) :
    ∃ m', dev.SpiNand_Read D reads b dst size m = some (true, m') ∧ ∀ k, m' k =
      if dst ≤ k ∧ k < dst + size then dev.byte b (k - dst) else m k := by
  obtain ⟨hlo, hhi⟩ := page_count dev size
  obtain ⟨m', hm', hbytes⟩ := readPages_ok (p := 0) (b := b) (m := m)
    (fun q _ hq => have hlt := lt_page_count.1 (by omega)
      ⟨hok q hlt, hseen q hlt⟩) hlo hhi (fun _ => by omega)
  exact ⟨m', hm', hbytes⟩

theorem SpiNand_Read_failed (hbad : ¬ dev.BlockOk reads size)
    (hfits : dst + size ≤ D.room) :
    ∃ m', dev.SpiNand_Read D reads b dst size m = some (false, m') := by
  simp only [BlockOk, Classical.not_forall] at hbad
  obtain ⟨q, hq, hbad⟩ := hbad
  have hcount := lt_page_count.2 hq
  exact readPages_failed (p := 0) ⟨q, Nat.zero_le q, by omega, hbad⟩ (page_count dev size).2
    (by omega)

/-! ### Copies -/

/-- The good blocks from block `i` on. -/
def goods (dev : SpiNand) (i : Nat) : List Nat :=
  (List.range' i (dev.blocks - i)).filter (!dev.bad ·)

/-- The copy that begins in block `i`, bad blocks skipped. -/
def copy (dev : SpiNand) (i : Nat) : Ram := image dev.SPN_BLOCK_SIZE dev.byte (dev.goods i)

/-- The pages of the first `size` bytes of the blocks can be read for candidate `i`. -/
def BlocksOk (dev : SpiNand) (i : Nat) : List Nat → Nat → Prop
  | [], _ => True
  | b :: bs, size => dev.BlockOk (dev.page i b) (min size dev.SPN_BLOCK_SIZE) ∧
      BlocksOk dev i bs (size - dev.SPN_BLOCK_SIZE)

/-- An intact copy from block `i` on that can be read. -/
def Intact (dev : SpiNand) (i : Nat) : Prop :=
  dev.bad i = false ∧ Ok (dev.head i) ∧ Package (dev.copy i) ∧
    valid_len (dev.copy i) &&& (ALIGN_SIZE - 1) = 0 ∧
    valid_len (dev.copy i) ≤ dev.SPN_BLOCK_SIZE * (dev.goods i).length ∧
    dev.BlocksOk i (dev.goods i) (valid_len (dev.copy i))

def Good (dev : SpiNand) (m : Ram) : Prop :=
  Package m ∧ ∃ i ∈ dev.range, dev.bad i = false ∧ AgreeTo (max 64 (valid_len m)) m (dev.copy i)

/-- The mark of a block is read as it is. -/
def MarkSeen (dev : SpiNand) (r : SpiRead) (b : Nat) : Prop :=
  dev.SpiNand_Check_BadBlock r b = SPINAND_BAD_BLOCK ↔ dev.bad b = true

/-- On the way of a load over blocks that are read in full: their marks are read as they are and
their pages deliver what they hold. -/
def BlocksSeen (dev : SpiNand) (i : Nat) : List Nat → Nat → Prop
  | [], _ => True
  | b :: bs, size => size = 0 ∨ dev.MarkSeen (dev.check i b) b ∧
      if dev.bad b then BlocksSeen dev i bs size
      else dev.BlockOk (dev.page i b) (min size dev.SPN_BLOCK_SIZE) →
        dev.BlockSeen (dev.page i b) (min size dev.SPN_BLOCK_SIZE) ∧
          BlocksSeen dev i bs (size - dev.SPN_BLOCK_SIZE)

/-- The code sees each error of the reads of candidate `i`, and a length in a header with the
right magic can be one: it is not 0, it fits, and the device has as many good blocks. -/
structure Sane (D : Dram) (dev : SpiNand) (i : Nat) : Prop where
  probe : dev.MarkSeen (dev.probe i) i
  head : dev.bad i = false → (dev.head i).Seen
  length : dev.bad i = false → Ok (dev.head i) → magic (dev.copy i) = TOC_MAIN_INFO_MAGIC →
    valid_len (dev.copy i) &&& (ALIGN_SIZE - 1) = 0 → valid_len (dev.copy i) ≠ 0 ∧
      valid_len (dev.copy i) ≤ D.room ∧
      valid_len (dev.copy i) ≤ dev.SPN_BLOCK_SIZE * (dev.goods i).length ∧
      dev.BlocksSeen i (List.range' i (dev.blocks - i)) (valid_len (dev.copy i))

theorem markSeen_ne {r : SpiRead} (h : dev.MarkSeen r b) (hmark : dev.bad b = false) :
    dev.SpiNand_Check_BadBlock r b ≠ SPINAND_BAD_BLOCK := by
  intro heq
  rw [h.1 heq] at hmark
  cases hmark

theorem filter_bad (hmark : dev.bad b = true) :
    (b :: bs).filter (!dev.bad ·) = bs.filter (!dev.bad ·) :=
  List.filter_cons_of_neg (by simp [hmark])

theorem filter_good (hmark : dev.bad b = false) :
    (b :: bs).filter (!dev.bad ·) = b :: bs.filter (!dev.bad ·) :=
  List.filter_cons_of_pos (by simp [hmark])

theorem load_ok (off : Nat) (hseen : dev.BlocksSeen i bs (size - off)) (hroom : size ≤ D.room)
    (henough : size ≤ off + dev.SPN_BLOCK_SIZE * (bs.filter (!dev.bad ·)).length)
    (hok : dev.BlocksOk i (bs.filter (!dev.bad ·)) (size - off)) :
    ∃ m', dev.Spinand_Load_Boot1_Copy D i size bs off m = some (true, m') ∧ ∀ k, m' k =
      if off ≤ k ∧ k < size then
        image dev.SPN_BLOCK_SIZE dev.byte (bs.filter (!dev.bad ·)) (k - off)
      else m k := by
  induction bs generalizing off m with
  | nil =>
    refine ⟨m, ?_, fun k => ?_⟩
    · unfold Spinand_Load_Boot1_Copy
      exact if_neg (by simpa using henough)
    · rw [if_neg]
      simp at henough
      omega
  | cons b bs ih =>
    unfold Spinand_Load_Boot1_Copy
    by_cases hoff : off < size
    · rw [if_pos hoff]
      obtain ⟨hcheck, hseen⟩ := hseen.resolve_left (by omega)
      cases hmark : dev.bad b with
      | true =>
        rw [if_pos hmark] at hseen
        rw [filter_bad hmark] at henough hok ⊢
        rw [if_pos (hcheck.2 hmark)]
        exact ih off hseen henough hok
      | false =>
        rw [if_neg (by simp [hmark])] at hseen
        rw [filter_good hmark] at henough hok ⊢
        rw [List.length_cons, Nat.mul_succ] at henough
        obtain ⟨hblock, hrest⟩ := hok
        obtain ⟨hpages, hseen⟩ := hseen hblock
        have hfits : off + min (size - off) dev.SPN_BLOCK_SIZE ≤ D.room := by omega
        obtain ⟨m₁, hm₁, hbytes₁⟩ := SpiNand_Read_ok (m := m) (b := b) hblock hpages hfits
        have hsub : size - off - dev.SPN_BLOCK_SIZE =
            size - (off + min (size - off) dev.SPN_BLOCK_SIZE) := by omega
        rw [hsub] at hrest hseen
        obtain ⟨m₂, hm₂, hbytes₂⟩ := ih (m := m₁) _ hseen (by omega) hrest
        refine ⟨m₂, ?_, fun k => ?_⟩
        · exact (if_neg (markSeen_ne hcheck hmark)).trans
            (Option.bind_eq_some_iff.2 ⟨_, hm₁, hm₂⟩)
        · rw [hbytes₂ k]
          by_cases hin : off ≤ k ∧ k < size
          · rw [if_pos hin]
            by_cases hthis : k < off + dev.SPN_BLOCK_SIZE
            · rw [if_neg (by omega), hbytes₁ k, if_pos (by omega), image_of_lt (by omega)]
            · rw [if_pos (by omega), image_of_le (by omega)]
              exact congrArg _ (by omega)
          · rw [if_neg hin, if_neg (by omega), hbytes₁ k, if_neg (by omega)]
    · rw [if_neg hoff]
      refine ⟨m, rfl, fun k => ?_⟩
      rw [if_neg (by omega)]

theorem blocksOk_zero : dev.BlocksOk i bs 0 := by
  induction bs with
  | nil => trivial
  | cons b bs ih =>
    refine ⟨fun p hp => ?_, ?_⟩
    · omega
    · rwa [Nat.zero_sub]

theorem load_failed (off : Nat) (hseen : dev.BlocksSeen i bs (size - off)) (hroom : size ≤ D.room)
    (hbad : ¬ dev.BlocksOk i (bs.filter (!dev.bad ·)) (size - off)) :
    ∃ m', dev.Spinand_Load_Boot1_Copy D i size bs off m = some (false, m') := by
  induction bs generalizing off m with
  | nil => exact absurd trivial hbad
  | cons b bs ih =>
    have hoff : off < size := by
      by_contra hle
      rw [Nat.sub_eq_zero_of_le (Nat.le_of_not_lt hle)] at hbad
      exact hbad blocksOk_zero
    obtain ⟨hcheck, hseen⟩ := hseen.resolve_left (by omega)
    unfold Spinand_Load_Boot1_Copy
    rw [if_pos hoff]
    cases hmark : dev.bad b with
    | true =>
      rw [if_pos hmark] at hseen
      rw [filter_bad hmark] at hbad
      rw [if_pos (hcheck.2 hmark)]
      exact ih off hseen hbad
    | false =>
      rw [if_neg (by simp [hmark])] at hseen
      rw [filter_good hmark] at hbad
      have hgood := markSeen_ne hcheck hmark
      have hfits : off + min (size - off) dev.SPN_BLOCK_SIZE ≤ D.room := by omega
      by_cases hblock : dev.BlockOk (dev.page i b) (min (size - off) dev.SPN_BLOCK_SIZE)
      · obtain ⟨hpages, hseen⟩ := hseen hblock
        obtain ⟨m₁, hm₁, -⟩ := SpiNand_Read_ok (m := m) (b := b) hblock hpages hfits
        have hsub : size - off - dev.SPN_BLOCK_SIZE =
            size - (off + min (size - off) dev.SPN_BLOCK_SIZE) := by omega
        have hrest : ¬ dev.BlocksOk i (bs.filter (!dev.bad ·))
            (size - (off + min (size - off) dev.SPN_BLOCK_SIZE)) := by
          rw [← hsub]
          exact fun h => hbad ⟨hblock, h⟩
        rw [hsub] at hseen
        obtain ⟨m₂, hm₂⟩ := ih (m := m₁) _ hseen hrest
        exact ⟨m₂, (if_neg hgood).trans (Option.bind_eq_some_iff.2 ⟨_, hm₁, hm₂⟩)⟩
      · obtain ⟨m₁, hm₁⟩ := SpiNand_Read_failed (m := m) (b := b) hblock hfits
        exact ⟨m₁, (if_neg hgood).trans (Option.bind_eq_some_iff.2 ⟨_, hm₁, rfl⟩)⟩

theorem load_copy (hseen : dev.BlocksSeen i (List.range' i (dev.blocks - i)) size)
    (hroom : size ≤ D.room) (henough : size ≤ dev.SPN_BLOCK_SIZE * (dev.goods i).length)
    (hok : dev.BlocksOk i (dev.goods i) size) :
    ∃ m', dev.Spinand_Load_Boot1_Copy D i size (List.range' i (dev.blocks - i)) 0 m =
        some (true, m') ∧
      ∀ k, m' k = if 0 ≤ k ∧ k < size then dev.copy i k else m k :=
  load_ok 0 hseen hroom (by rwa [Nat.zero_add]) hok

theorem load_copy_failed (hseen : dev.BlocksSeen i (List.range' i (dev.blocks - i)) size)
    (hroom : size ≤ D.room) (hbad : ¬ dev.BlocksOk i (dev.goods i) size) :
    ∃ m', dev.Spinand_Load_Boot1_Copy D i size (List.range' i (dev.blocks - i)) 0 m =
      some (false, m') :=
  load_failed 0 hseen hroom hbad

/-! ### The search -/

theorem goods_cons (hgood : dev.bad i = false) (hi : i < dev.blocks) :
    ∃ bs, dev.goods i = i :: bs := by
  unfold goods
  obtain ⟨n, hn⟩ : ∃ n, dev.blocks - i = n + 1 := ⟨dev.blocks - i - 1, by omega⟩
  rw [hn, List.range'_succ, List.filter_cons_of_pos (by simp [hgood])]
  exact ⟨_, rfl⟩

theorem lt_blocks (hi : i ∈ dev.range) : i < dev.blocks := by
  have := dev.last_lt
  unfold range at hi
  rw [List.mem_range'_1] at hi
  omega

/-- What the memory holds after the header of a good block is read. -/
theorem head_agrees (hi : i ∈ dev.range) (hgood : dev.bad i = false)
    (hbytes : ∀ k, m' k = if 0 ≤ k ∧ k < 0 + 512 then dev.byte i (k - 0) else m k) :
    AgreeTo 512 m' (dev.copy i) := by
  obtain ⟨bs, hbs⟩ := goods_cons hgood (lt_blocks hi)
  have hle : 512 ≤ dev.SPN_BLOCK_SIZE :=
    Nat.le_trans dev.sector_le_page (Nat.le_mul_of_pos_right _ dev.pages_pos)
  intro k hk
  unfold copy
  rw [hbytes k, if_pos ⟨Nat.zero_le k, by omega⟩, hbs, image_of_lt (by omega)]
  rfl

theorem attempt_does {is : List Nat} (hi : i ∈ dev.range) (hsane : dev.Sane D i) :
    Search.Does (dev.attempt D dev.blocks) dev.Good dev.Intact i is m := by
  have hfits := D.head_fits
  cases hmark : dev.bad i with
  | true =>
    refine .next m (if_pos (hsane.probe.2 hmark)) fun hintact => ?_
    rw [hintact.1] at hmark
    cases hmark
  | false =>
    have hgood := markSeen_ne hsane.probe hmark
    have hblock : dev.BlockOk (fun _ => dev.head i) 512 ↔ Ok (dev.head i) := by
      have := dev.sector_le_page
      exact ⟨fun h => h 0 (by omega), fun h _ _ => h⟩
    by_cases hhead : Ok (dev.head i)
    · obtain ⟨m₁, hm₁, hbytes⟩ := SpiNand_Read_ok (D := D) (m := m) (b := i) (hblock.2 hhead)
        (fun _ _ => hsane.head hmark) (show 0 + 512 ≤ D.room by omega)
      have hagree := head_agrees hi hmark hbytes
      have hmagic := hagree.magic (by omega)
      have hlen := hagree.valid_len (by omega)
      by_cases hm : magic (dev.copy i) = TOC_MAIN_INFO_MAGIC
      · by_cases halign : valid_len (dev.copy i) &&& (ALIGN_SIZE - 1) = 0
        · obtain ⟨hne, hroom, henough, hseen⟩ := hsane.length hmark hhead hm halign
          have hlong : 16384 ≤ valid_len (dev.copy i) := aligned_le halign hne
          by_cases hok : dev.BlocksOk i (dev.goods i) (valid_len (dev.copy i))
          · obtain ⟨m₂, hm₂, hbytes₂⟩ := load_copy (m := m₁) hseen hroom henough hok
            have hagree₂ : AgreeTo (max 64 (valid_len (dev.copy i))) m₂ (dev.copy i) := by
              intro k hk
              rw [hbytes₂ k]
              exact if_pos ⟨Nat.zero_le k, by omega⟩
            have hlen₂ : valid_len m₂ = valid_len (dev.copy i) := hagree₂.valid_len (by omega)
            have hverify := verify_of_le (D := D) (m := m₂) (by omega : 16 ≤ _) hroom
            rw [hagree₂.sumWords (by omega), hagree₂.add_sum (by omega)] at hverify
            by_cases hsum : sumWords (dev.copy i) (valid_len (dev.copy i) / 4) =
                add_sum (dev.copy i)
            · have hpackage : Package (dev.copy i) := ⟨hm, by omega, hsum⟩
              rw [if_pos hsum] at hverify
              refine .found m₂ ?_
                ⟨hpackage.congr hagree₂.symm (by omega) (by omega), i, hi, hmark, ?_⟩
                ⟨hmark, hhead, hpackage, halign, henough, hok⟩
              · simp [attempt, hgood, hm₁, hmagic, hm, hlen, halign, hm₂, hverify]
              · rwa [hlen₂]
            · rw [if_neg hsum] at hverify
              refine .next m₂ ?_ fun hintact => hsum hintact.2.2.1.2.2
              simp [attempt, hgood, hm₁, hmagic, hm, hlen, halign, hm₂, hverify]
          · obtain ⟨m₂, hm₂⟩ := load_copy_failed (m := m₁) hseen hroom hok
            refine .next m₂ ?_ fun hintact => hok hintact.2.2.2.2.2
            simp [attempt, hgood, hm₁, hmagic, hm, hlen, halign, hm₂]
        · refine .next m₁ ?_ fun hintact => halign hintact.2.2.2.1
          simp [attempt, hgood, hm₁, hmagic, hm, hlen, halign]
      · refine .next m₁ ?_ fun hintact => hm hintact.2.2.1.1
        simp [attempt, hgood, hm₁, hmagic, hm]
    · obtain ⟨m₁, hm₁⟩ := SpiNand_Read_failed (D := D) (m := m) (b := i)
        (fun h => hhead (hblock.1 h)) (show 0 + 512 ≤ D.room by omega)
      refine .next m₁ ?_ fun hintact => hhead hintact.2.1
      simp [attempt, hgood, hm₁]

/-- The condition for the candidates that are tried, the last of which is the first intact one. -/
def Condition (D : Dram) (dev : SpiNand) : Prop :=
  if dev.init ≠ 0 then ∀ i ∈ dev.range, ¬ dev.Intact i
  else Search.Tried dev.Intact (fun i _ => dev.Sane D i) dev.range

theorem boots (h : dev.Condition D) :
    Boots (load_toc1_from_spinand D dev dev.blocks m) dev.Good (∃ i ∈ dev.range, dev.Intact i) := by
  unfold Condition at h
  unfold load_toc1_from_spinand
  by_cases hinit : dev.init ≠ 0
  · rw [if_pos hinit] at h ⊢
    refine ⟨-1, m, rfl, fun h => absurd h (by decide), ?_⟩
    rintro ⟨i, hi, hintact⟩
    exact absurd hintact (h i hi)
  · rw [if_neg hinit] at h ⊢
    exact boots_of_finds (Search.search_finds (fun _ hi _ _ hC => attempt_does hi hC) h)

end

end SpiNand

end Melis.Sboot
