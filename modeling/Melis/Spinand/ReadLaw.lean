import Melis.Spinand.BasicOp

/-!
# What a read of sectors reports

`spiNandRead_iff` says when a read that succeeds has got the pages that the chip reported
as good, and the sectors asked for: the status never comes back from `spi_wait_status`, and the
first byte of the buffer is the first one of a page.
-/

namespace Melis.Spinand

open Lib.Memory Sboot

section

variable {nand : Nand} {a : Answers} {b : Bufs} {s : Spi} {block page p cnt left i j N : Nat}
  {status : UInt8} {planeSelect mode : Bool}

/-! ## Waiting -/

theorem spiNandGetsr_eq :
    spiNandGetsr nand a s = (a.result s.n, a.status s.n, ⟨s.n + 1, s.cache⟩) := rfl

theorem waitLoop_eq :
    waitLoop nand a left s = ((a.wait left s.n).1, ⟨(a.wait left s.n).2, s.cache⟩) := by
  induction left generalizing s with
  | zero =>
    unfold waitLoop Answers.wait
    rw [spiNandGetsr_eq]
    dsimp only
    split
    · rfl
    · split <;> rfl
  | succ left ih =>
    unfold waitLoop Answers.wait
    rw [spiNandGetsr_eq]
    dsimp only
    split
    · rfl
    · split
      · exact ih
      · rfl

/-- The status of the caller is what the bits are taken from. -/
theorem spiNandReadStatus_snd : (spiNandReadStatus nand a status mode s).2 =
    ⟨(a.wait timeout s.n).2, s.cache⟩ := by
  unfold spiNandReadStatus spiWaitStatus
  rw [waitLoop_eq]
  dsimp only
  split_ifs <;> rfl

/-! ## A page -/

/-- The row of a page as the driver computes it. -/
def Nand.row (nand : Nand) (block page : Nat) : Nat :=
  block * nand.blockSize % 2 ^ 32 / nand.pageSize + page

theorem Geometry.blockSize_eq (g : Geometry) : g.blockSize = g.pageSize * g.pageCntPerPhyBlk := by
  unfold Geometry.blockSize Geometry.pageSize
  rw [Nat.mul_assoc]

theorem Geometry.pageSize_pos (g : Geometry) : 0 < g.pageSize := by
  have := g.sector_pos
  unfold Geometry.pageSize
  omega

theorem Geometry.pagesPerBlock (g : Geometry) :
    g.blockSize / g.pageSize = g.pageCntPerPhyBlk := by
  rw [g.blockSize_eq]
  exact Nat.mul_div_cancel_left _ g.pageSize_pos

/-- Rows have 24 bits. -/
theorem Nand.row_lt (nand : Nand) (block : Nat) (h : page < nand.pageCntPerPhyBlk) :
    nand.row block page < 2 ^ 24 := by
  have hblock := nand.block_lt
  have hpages : nand.pageCntPerPhyBlk ≤ nand.sectorCntPerPage * nand.pageCntPerPhyBlk :=
    Nat.le_mul_of_pos_left _ nand.sector_pos
  have hsize : 512 ≤ nand.pageSize := Nat.le_mul_of_pos_right _ nand.sector_pos
  have hbase : block * nand.blockSize % 2 ^ 32 / nand.pageSize ≤
      block * nand.blockSize % 2 ^ 32 / 512 := Nat.div_le_div_left hsize (by decide)
  have hmod := Nat.mod_lt (block * nand.blockSize) (show 0 < 2 ^ 32 by decide)
  unfold Nand.row
  omega

theorem reply_fastReadX1 : nand.reply a s (nand.fastReadX1 planeSelect 0) =
    s.cache (!nand.oneDummy && nand.twoPlaneSelect && planeSelect) := by
  funext i
  unfold Nand.fastReadX1
  cases hdummy : nand.oneDummy with
  | true => simp [Nand.reply, hdummy]
  | false =>
    cases hplane : nand.twoPlaneSelect with
    | true => cases planeSelect <;> simp [Nand.reply, hdummy, hplane]
    | false => simp [Nand.reply, hdummy, hplane]

theorem latch_fastReadX1 {column : Nat} :
    nand.latch a s (nand.fastReadX1 planeSelect column) = s.cache := by
  unfold Nand.fastReadX1
  split
  · rfl
  · split <;> rfl

/-- The command of a page read. -/
def pageRead (row : Nat) : List Nat :=
  [0x13, row / 65536 % 256, row / 256 % 256, row % 256]

theorem latch_pageRead {row : Nat} (h : row < 2 ^ 24) : nand.latch a s (pageRead row) =
    Function.update s.cache (nand.plane row) (a.delivered (nand.page row)) := by
  have hrow : row / 65536 % 256 * 65536 + row / 256 % 256 * 256 + row % 256 = row := by omega
  have hlatch : nand.latch a s (pageRead row) = Function.update s.cache
      (nand.plane (row / 65536 % 256 * 65536 + row / 256 % 256 * 256 + row % 256))
      (a.delivered (nand.page (row / 65536 % 256 * 65536 + row / 256 % 256 * 256 + row % 256))) :=
    rfl
  rw [hlatch, hrow]

theorem spicRw_pageRead (nand : Nand) (a : Answers) {row : Nat} (h : row < 2 ^ 24) (hn : s.n = 0) :
    spicRw nand a (pageRead row) s = (a.result 0, nand.reply a s (pageRead row),
      ⟨1, Function.update s.cache (nand.plane row) (a.delivered (nand.page row))⟩) := by
  unfold spicRw
  rw [latch_pageRead h, hn]

/-- The main data comes from the plane of the page. -/
theorem readMain_eq {row : Nat} : readMain nand a
      (row / (nand.blockSize / nand.pageSize) % 2 == 1) cnt (some p) 0 b s =
    (a.result s.n, { b with main := copyN b.main p (s.cache (nand.plane row)) 0 cnt },
      ⟨s.n + 1, s.cache⟩) := by
  have hplane : (!nand.oneDummy && nand.twoPlaneSelect &&
      row / (nand.blockSize / nand.pageSize) % 2 == 1) = nand.plane row := by
    rw [nand.pagesPerBlock]
    rfl
  unfold readMain spicRw
  rw [reply_fastReadX1, latch_fastReadX1, hplane]

theorem readSpare_fst : (readSpare nand a planeSelect true b s).1 = a.result s.n := by
  unfold readSpare spicRw
  rw [if_pos rfl]
  dsimp only
  split
  · rfl
  · rename_i h
    exact (not_not.1 h).symm

theorem readSpare_main :
    (readSpare nand a planeSelect true b s).2.1.main = b.main := by
  unfold readSpare
  rw [if_pos rfl]
  dsimp only
  split <;> rfl

/-- A page read with both buffers, in terms of the answers. -/
theorem spiNandReadX1_eq {row : Nat} {c : Bool → Nat → UInt8} (h : row < 2 ^ 24) (hn : s.n = 0)
    (hc : Function.update s.cache (nand.plane row) (a.delivered (nand.page row)) = c) :
    spiNandReadX1 nand a row cnt (some p) true 0 b s =
      if a.result 0 ≠ 0 then (a.result 0, b, ⟨1, c⟩)
      else if a.loaded.1 ≠ 0 then (a.loaded.1, b, ⟨a.loaded.2, c⟩)
      else if a.result a.checked.2 ≠ 0 then
        (a.result a.checked.2, { b with main := copyN b.main p (c (nand.plane row)) 0 cnt },
          ⟨a.checked.2 + 1, c⟩)
      else readSpare nand a (row / (nand.blockSize / nand.pageSize) % 2 == 1) true
        { b with main := copyN b.main p (c (nand.plane row)) 0 cnt } ⟨a.checked.2 + 1, c⟩ := by
  have hcmd := spicRw_pageRead nand a h hn
  unfold pageRead at hcmd
  unfold spiNandReadX1 spiWaitStatus
  dsimp only
  rw [hcmd, hc]
  dsimp only
  rw [waitLoop_eq]
  dsimp only
  rw [spiNandReadStatus_snd, readMain_eq]
  rfl

/-- A page read with both buffers succeeds just if its transfers do, whatever the status says, and
has got what was delivered then. -/
theorem spiNandReadX1_served {row : Nat} (h : row < 2 ^ 24) (hn : s.n = 0) :
    ((spiNandReadX1 nand a row cnt (some p) true 0 b s).1 = 0 ↔ a.Served) ∧
      (a.Served → (spiNandReadX1 nand a row cnt (some p) true 0 b s).2.1.main =
        copyN b.main p (a.delivered (nand.page row)) 0 cnt) := by
  rw [spiNandReadX1_eq h hn rfl, Function.update_self]
  by_cases h0 : a.result 0 = 0
  · rw [if_neg (not_not.2 h0)]
    by_cases h1 : a.loaded.1 = 0
    · rw [if_neg (not_not.2 h1)]
      by_cases h2 : a.result a.checked.2 = 0
      · rw [if_neg (not_not.2 h2), readSpare_fst, readSpare_main]
        exact ⟨⟨fun h3 => ⟨h0, h1, h2, h3⟩, Answers.Served.spare⟩, fun _ => rfl⟩
      · rw [if_pos h2]
        exact ⟨iff_of_false h2 fun hs => h2 hs.main, fun hs => absurd hs.main h2⟩
    · rw [if_pos h1]
      exact ⟨iff_of_false h1 fun hs => h1 hs.loaded, fun hs => absurd hs.loaded h1⟩
  · rw [if_pos h0]
    exact ⟨iff_of_false h0 fun hs => h0 hs.cmd, fun hs => absurd hs.cmd h0⟩

/-- The page read as the loaders of the boot package see it. -/
def Answers.toSpiRead (a : Answers) (mark : UInt8) : SpiRead where
  cmd := a.result 0
  main := a.result a.checked.2
  spare := a.result (a.checked.2 + 1)
  wait := a.loaded.1
  again := a.checked.1
  status := a.status (a.checked.2 - 1)
  bytes := a.bytes
  mark

theorem spiNandReadX1_toSpiRead {row : Nat} (mark : UInt8) (h : row < 2 ^ 24) (hn : s.n = 0) :
    (spiNandReadX1 nand a row cnt (some p) true 0 b s).1 =
      (a.toSpiRead mark).spi_nand_read_x1 true := by
  rw [spiNandReadX1_eq h hn rfl]
  unfold SpiRead.spi_nand_read_x1 Answers.toSpiRead
  dsimp only
  split
  · rfl
  · split
    · rfl
    · by_cases hmain : a.result a.checked.2 = 0
      · rw [if_neg (not_not.2 hmain), if_neg fun hm => hm.2 hmain, readSpare_fst]
        split
        · rfl
        · rename_i hspare
          exact not_not.1 hspare
      · rw [if_pos hmain, if_pos ⟨rfl, hmain⟩]

theorem readSinglePage_served (hpage : page < nand.pageCntPerPhyBlk) (hn : s.n = 0) :
    ((readSinglePage nand a block page p cnt false b s).1 = 0 ↔ a.Served) ∧
      (a.Served → (readSinglePage nand a block page p cnt false b s).2.1.main =
        copyN b.main p (a.delivered (nand.page (nand.row block page))) 0 cnt) := by
  have hlt := nand.row_lt block hpage
  have haddr : (block * nand.blockSize % 2 ^ 32 / nand.pageSize + page) % 2 ^ 32 =
      nand.row block page := Nat.mod_eq_of_lt (by unfold Nand.row at hlt; omega)
  unfold readSinglePage
  rw [haddr]
  exact spiNandReadX1_served hlt hn

/-! ## The pages of a read -/

theorem Geometry.pageSize_mul (g : Geometry) (N : Nat) :
    512 * N = g.pageSize * (N / g.sectorCntPerPage) + 512 * (N % g.sectorCntPerPage) := by
  have hdiv := Nat.div_add_mod N g.sectorCntPerPage
  unfold Geometry.pageSize
  rw [Nat.mul_assoc, ← Nat.mul_add, hdiv]

/-- The pages hold the sectors. -/
theorem Geometry.le_pageNr (g : Geometry) (N : Nat) : 512 * N ≤ g.pageSize * g.pageNr N := by
  have hbytes := g.pageSize_mul N
  have hmod := Nat.mod_lt N g.sector_pos
  have hsize : g.pageSize = 512 * g.sectorCntPerPage := rfl
  unfold Geometry.pageNr
  split
  · rw [Nat.mul_succ]
    omega
  · omega

/-- A page ends at the next page or with the last sector. -/
theorem Geometry.dataSize_eq (g : Geometry) (hi : i < g.pageNr N) :
    g.pageSize * i + g.dataSize N i = min (g.pageSize * (i + 1)) (512 * N) := by
  have hbytes := g.pageSize_mul N
  have hmod := Nat.mod_lt N g.sector_pos
  have hsize : g.pageSize = 512 * g.sectorCntPerPage := rfl
  have hnext : g.pageSize * (i + 1) = g.pageSize * i + g.pageSize := Nat.mul_succ ..
  unfold Geometry.pageNr at hi
  unfold Geometry.dataSize Geometry.pageNr
  generalize N / g.sectorCntPerPage = q at *
  by_cases hrest : N % g.sectorCntPerPage ≠ 0
  · rw [if_pos hrest] at hi ⊢
    by_cases hlast : i = q
    · subst hlast
      rw [if_pos ⟨rfl, hrest⟩]
      omega
    · rw [if_neg fun h => hlast h.1, hnext]
      have hle : g.pageSize * (i + 1) ≤ g.pageSize * q := Nat.mul_le_mul_left _ (by omega)
      omega
  · rw [if_neg hrest] at hi ⊢
    rw [if_neg fun h => hrest h.2, hnext]
    have hle : g.pageSize * (i + 1) ≤ g.pageSize * q := Nat.mul_le_mul_left _ hi
    omega

/-- The bytes that the reads deliver, page behind page. -/
def arrived (nand : Nand) (answers : Nat → Answers) (block startPage x : Nat) : UInt8 :=
  (answers (x / nand.pageSize)).delivered
    (nand.page (nand.row block (startPage + x / nand.pageSize))) (x % nand.pageSize)

theorem readLoop_served {answers : Nat → Answers} {startPage : Nat}
    {cache : Bool → Nat → UInt8} (hleft : i + left = nand.pageNr N)
    (hblock : startPage + nand.pageNr N ≤ nand.pageCntPerPhyBlk) :
    ((readLoop nand answers block startPage N i left b cache).1 = 0 ↔
        ∀ j, i ≤ j → j < nand.pageNr N → (answers j).Served) ∧
      ((∀ j, i ≤ j → j < nand.pageNr N → (answers j).Served) → ∀ x < 512 * N,
        (readLoop nand answers block startPage N i left b cache).2.main x =
          if x < nand.pageSize * i then b.main x
          else arrived nand answers block startPage x) := by
  induction left generalizing i b cache with
  | zero =>
    refine ⟨iff_of_true rfl fun j _ _ => by omega, fun _ x hx => ?_⟩
    have hle := nand.le_pageNr N
    rw [← hleft, Nat.add_zero] at hle
    exact (if_pos (Nat.lt_of_lt_of_le hx hle)).symm
  | succ left ih =>
    have hi : i < nand.pageNr N := by omega
    have hpage : startPage + i < nand.pageCntPerPhyBlk := by omega
    obtain ⟨hret, hmain⟩ := @readSinglePage_served nand (answers i) b ⟨0, cache⟩ block
      (startPage + i) (nand.pageSize * i) (nand.dataSize N i) hpage rfl
    unfold readLoop
    dsimp only
    by_cases hserved : (answers i).Served
    · rw [if_neg (not_not.2 (hret.2 hserved))]
      have hrest (P : Nat → Prop) (hP : P i) :
          (∀ j, i ≤ j → j < nand.pageNr N → P j) ↔ ∀ j, i + 1 ≤ j → j < nand.pageNr N → P j := by
        refine ⟨fun h j hj => h j (by omega), fun h j hj hlt => ?_⟩
        rcases Nat.eq_or_lt_of_le hj with rfl | hgt
        · exact hP
        · exact h j hgt hlt
      rw [hrest _ hserved]
      obtain ⟨hiff, hbytes⟩ := @ih (readSinglePage nand (answers i) block (startPage + i)
        (nand.pageSize * i) (nand.dataSize N i) false b ⟨0, cache⟩).2.1 (i + 1)
        (readSinglePage nand (answers i) block (startPage + i)
        (nand.pageSize * i) (nand.dataSize N i) false b ⟨0, cache⟩).2.2.cache (by omega)
      refine ⟨hiff, fun hall x hx => ?_⟩
      rw [hbytes hall x hx, hmain hserved]
      have hend := nand.dataSize_eq hi
      have hnext : nand.pageSize * (i + 1) = nand.pageSize * i + nand.pageSize := Nat.mul_succ ..
      by_cases hbefore : x < nand.pageSize * i
      · rw [if_pos hbefore, if_pos (by omega)]
        exact copyN_out (.inl hbefore)
      · rw [if_neg hbefore]
        by_cases hin : x < nand.pageSize * (i + 1)
        · rw [if_pos hin]
          obtain ⟨k, rfl⟩ := Nat.exists_eq_add_of_le (Nat.not_lt.1 hbefore)
          have hk : k < nand.pageSize := by omega
          have hlen : k < nand.dataSize N i := by omega
          rw [copyN_in hlen, Nat.zero_add, arrived, Nat.mul_add_div nand.pageSize_pos,
            Nat.div_eq_of_lt hk, Nat.add_zero, Nat.mul_add_mod, Nat.mod_eq_of_lt hk]
        · rw [if_neg hin]
    · rw [if_pos fun h => hserved (hret.1 h)]
      have hfail : ¬ ∀ j, i ≤ j → j < nand.pageNr N → (answers j).Served := fun h =>
        hserved (h i (Nat.le_refl i) hi)
      exact ⟨iff_of_false (show ¬ NAND_OP_FALSE = 0 by decide) hfail, fun h => absurd h hfail⟩

end

/-! ## Reads -/

section

variable {nand : Nand} {answers : Nat → Answers} {sectorNum N : Nat} {b : Bufs}
  {cache : Bool → Nat → UInt8}

/-- Byte `x` of the chip from sector `sectorNum` on. -/
def Nand.byte (nand : Nand) (sectorNum x : Nat) : UInt8 :=
  nand.page ((512 * sectorNum + x) / nand.pageSize) ((512 * sectorNum + x) % nand.pageSize)

/-- A read that succeeds has got its pages as the chip reported them good, and its sectors. -/
def Reliable (nand : Nand) (answers : Nat → Answers) (sectorNum N : Nat) (b : Bufs)
    (cache : Bool → Nat → UInt8) : Prop :=
  (spiNandRead nand answers sectorNum N b cache).1 = 0 →
    (∀ i < nand.pageNr N, (answers i).Correctable) ∧
      ∀ x < 512 * N, (spiNandRead nand answers sectorNum N b cache).2.main x =
        nand.byte sectorNum x

/-- The first page that is read, in its block. -/
def Geometry.startPage (g : Geometry) (sectorNum : Nat) : Nat :=
  sectorNum % (g.blockSize / 512) / g.sectorCntPerPage

def Geometry.block (g : Geometry) (sectorNum : Nat) : Nat := sectorNum / (g.blockSize / 512)

/-- The pages that are read hold the sectors asked for. -/
def Aimed (nand : Nand) (sectorNum N : Nat) : Prop :=
  ∀ x < 512 * N, nand.page (nand.row (nand.block sectorNum)
    (nand.startPage sectorNum + x / nand.pageSize)) (x % nand.pageSize) = nand.byte sectorNum x

theorem Geometry.sctsPerBlock (g : Geometry) :
    g.blockSize / 512 = g.sectorCntPerPage * g.pageCntPerPhyBlk :=
  Nat.mul_div_cancel_left _ (by decide)

/-- A range inside a block takes pages of the block. -/
theorem Geometry.startPage_add_le (g : Geometry)
    (hrange : sectorNum % (g.blockSize / 512) + N ≤ g.blockSize / 512) :
    g.startPage sectorNum + g.pageNr N ≤ g.pageCntPerPhyBlk := by
  unfold Geometry.startPage Geometry.pageNr
  rw [g.sctsPerBlock] at hrange ⊢
  generalize sectorNum % (g.sectorCntPerPage * g.pageCntPerPhyBlk) = first at *
  have hfirst := Nat.div_add_mod first g.sectorCntPerPage
  have hN := Nat.div_add_mod N g.sectorCntPerPage
  generalize first / g.sectorCntPerPage = page at *
  generalize N / g.sectorCntPerPage = pages at *
  have hsum : g.sectorCntPerPage * (page + pages) =
      g.sectorCntPerPage * page + g.sectorCntPerPage * pages := Nat.mul_add ..
  split
  · have hlt : g.sectorCntPerPage * (page + pages) < g.sectorCntPerPage * g.pageCntPerPhyBlk := by
      omega
    exact Nat.lt_of_mul_lt_mul_left hlt
  · have hle : g.sectorCntPerPage * (page + pages) ≤ g.sectorCntPerPage * g.pageCntPerPhyBlk := by
      omega
    exact Nat.le_of_mul_le_mul_left hle g.sector_pos

theorem Answers.delivered_of_correctable {a : Answers} (h : a.Correctable)
    (page : Nat → UInt8) : a.delivered page = page := by
  obtain ⟨status, hreport, hgood⟩ := h
  unfold Answers.delivered
  rw [hreport]
  simp [hgood]

/-- A read is reliable just if a transfer fails, so that it does too, or the chip reports all of
its pages as good and they hold the sectors asked for. -/
theorem spiNandRead_iff (nand : Nand) (answers : Nat → Answers) (sectorNum N : Nat) (b : Bufs)
    (cache : Bool → Nat → UInt8)
    (hrange : sectorNum % (nand.blockSize / 512) + N ≤ nand.blockSize / 512) :
    Reliable nand answers sectorNum N b cache ↔
      (∃ i < nand.pageNr N, ¬ (answers i).Served) ∨
        ((∀ i < nand.pageNr N, (answers i).Correctable) ∧ Aimed nand sectorNum N) := by
  obtain ⟨hret, hmain⟩ := @readLoop_served nand b (nand.block sectorNum) (nand.pageNr N) 0 N answers
    (nand.startPage sectorNum) cache (Nat.zero_add _) (nand.startPage_add_le hrange)
  change ((spiNandRead nand answers sectorNum N b cache).1 = 0 ↔ _) at hret
  change _ → ∀ x < 512 * N, (spiNandRead nand answers sectorNum N b cache).2.main x = _ at hmain
  by_cases hserved : ∀ i < nand.pageNr N, (answers i).Served
  · have hall : ∀ j, 0 ≤ j → j < nand.pageNr N → (answers j).Served := fun j _ => hserved j
    have hnone : ¬ ∃ i < nand.pageNr N, ¬ (answers i).Served := by
      rintro ⟨i, hi, hfail⟩
      exact hfail (hserved i hi)
    have hbytes : (∀ i < nand.pageNr N, (answers i).Correctable) → ∀ x < 512 * N,
        (spiNandRead nand answers sectorNum N b cache).2.main x =
          nand.page (nand.row (nand.block sectorNum)
            (nand.startPage sectorNum + x / nand.pageSize)) (x % nand.pageSize) := by
      intro hgood x hx
      have hpage : x / nand.pageSize < nand.pageNr N :=
        Nat.div_lt_of_lt_mul (Nat.lt_of_lt_of_le hx (nand.le_pageNr N))
      rw [hmain hall x hx, if_neg (by omega), arrived,
        Answers.delivered_of_correctable (hgood _ hpage)]
    rw [or_iff_right hnone]
    constructor
    · intro hreliable
      obtain ⟨hgood, hread⟩ := hreliable (hret.2 hall)
      refine ⟨hgood, fun x hx => ?_⟩
      rw [← hbytes hgood x hx, hread x hx]
    · rintro ⟨hgood, haimed⟩ -
      refine ⟨hgood, fun x hx => ?_⟩
      rw [hbytes hgood x hx, haimed x hx]
  · have hfail : ∃ i < nand.pageNr N, ¬ (answers i).Served := by
      simpa only [not_forall, exists_prop] using hserved
    refine iff_of_true (fun h => absurd (hret.1 h) fun hall => ?_) (.inl hfail)
    exact hserved fun i hi => hall i (Nat.zero_le i) hi

/-- From the start of a page on, below 4 GiB, the pages are the right ones. -/
theorem aimed_of_aligned (hpage : nand.sectorCntPerPage ∣ sectorNum)
    (hlt : 512 * sectorNum < 2 ^ 32) : Aimed nand sectorNum N := by
  obtain ⟨m, rfl⟩ := hpage
  have hpos := nand.sector_pos
  have hblock : nand.block (nand.sectorCntPerPage * m) = m / nand.pageCntPerPhyBlk := by
    rw [Geometry.block, nand.sctsPerBlock, Nat.mul_div_mul_left _ _ hpos]
  have hstart : nand.startPage (nand.sectorCntPerPage * m) = m % nand.pageCntPerPhyBlk := by
    rw [Geometry.startPage, nand.sctsPerBlock, Nat.mul_mod_mul_left,
      Nat.mul_div_cancel_left _ hpos]
  have hbytes : 512 * (nand.sectorCntPerPage * m) = nand.pageSize * m := (Nat.mul_assoc ..).symm
  have hdiv := Nat.div_add_mod m nand.pageCntPerPhyBlk
  have hbase : m / nand.pageCntPerPhyBlk * nand.blockSize =
      nand.pageSize * (nand.pageCntPerPhyBlk * (m / nand.pageCntPerPhyBlk)) := by
    rw [nand.blockSize_eq, Nat.mul_comm, Nat.mul_assoc]
  have hle : nand.pageSize * (nand.pageCntPerPhyBlk * (m / nand.pageCntPerPhyBlk)) ≤
      nand.pageSize * m := Nat.mul_le_mul_left _ (Nat.mul_div_le _ _)
  have hrow (k : Nat) : nand.row (m / nand.pageCntPerPhyBlk) (m % nand.pageCntPerPhyBlk + k) =
      m + k := by
    unfold Nand.row
    rw [hbase, Nat.mod_eq_of_lt (by omega), Nat.mul_div_cancel_left _ nand.pageSize_pos]
    omega
  intro x _
  rw [hblock, hstart, hrow, Nand.byte, hbytes, Nat.mul_add_div nand.pageSize_pos, Nat.mul_add_mod]

end

/-! ## Two chips -/

/-- Two pages of two sectors to a block; each byte is the number of its sector. -/
def small : Nand where
  sectorCntPerPage := 2
  pageCntPerPhyBlk := 2
  sector_pos := Nat.two_pos
  page_pos := Nat.two_pos
  block_lt := by decide
  oneDummy := false
  twoPlaneSelect := false
  page row column := UInt8.ofNat (2 * row + column / 512)

/-- A bus that works and a chip that is never busy, with that status. -/
def steady (status : UInt8) : Answers := ⟨fun _ => 0, fun _ => status, fun _ => 0⟩

def idle : Bool → Nat → UInt8 := fun _ _ => 0

/-- Three sectors from the start of a page on. -/
theorem spiNandRead_iff_small :
    Reliable small (fun _ => steady 0x10) 4 3 ⟨fun _ => 0, 0⟩ idle := by
  apply (spiNandRead_iff small (fun _ => steady 0x10) 4 3 ⟨fun _ => 0, 0⟩ idle (by decide)).2
  refine .inr ⟨fun i _ => ⟨0x10, ?_, by decide⟩, aimed_of_aligned (by decide) (by decide)⟩
  decide

/-- A page that the chip could not correct is read with success. -/
theorem spiNandRead_not :
    ¬ Reliable small (fun _ => steady 0x20) 4 1 ⟨fun _ => 0, 0⟩ idle := by
  intro hreliable
  have hret : (spiNandRead small (fun _ => steady 0x20) 4 1 ⟨fun _ => 0, 0⟩ idle).1 = 0 := by
    decide
  obtain ⟨status, hreport, hgood⟩ := (hreliable hret).1 0 (by decide)
  obtain rfl : 0x20 = status := Option.some.inj hreport
  exact hgood (by decide)

end Melis.Spinand
