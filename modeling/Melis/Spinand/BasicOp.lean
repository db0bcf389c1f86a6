import Melis.Lib.Memory
import Melis.Sboot.LoadSpiNand

/-!
# Pages of a SPI NAND

The page read of `spinand_basic_op.c` and `SpiNand_Read` (`spinand.c`), down to the bytes
that `Spic_rw` sends. A page read takes the page to a cache of the chip, waits until the
status register says that it is there, and gets the cache by a second command. The chip
answers the transfers of each page read, counted from its command, with results of the bus
and values of its status register.
-/

namespace Melis.Spinand

open Lib.Memory Sboot

structure Geometry where
  sectorCntPerPage : Nat
  pageCntPerPhyBlk : Nat
  sector_pos : 0 < sectorCntPerPage
  page_pos : 0 < pageCntPerPhyBlk
  block_lt : 512 * (sectorCntPerPage * pageCntPerPhyBlk) < 2 ^ 32

namespace Geometry

variable (g : Geometry)

/-- `SPN_PAGE_SIZE`. -/
def pageSize : Nat := 512 * g.sectorCntPerPage

/-- `SPN_BLOCK_SIZE`. -/
def blockSize : Nat := 512 * (g.sectorCntPerPage * g.pageCntPerPhyBlk)

end Geometry

structure Nand extends Geometry where
  /-- `NAND_ONEDUMMY_AFTER_RANDOMREAD` and `NAND_TWO_PLANE_SELECT` of `OperationOpt`. -/
  oneDummy : Bool
  twoPlaneSelect : Bool
  /-- The bytes of a page. -/
  page : Nat → Nat → UInt8

/-! ## What the chip answers -/

/-- The answers to the transfers of a page read, the first of which is its command. -/
structure Answers where
  result : Nat → Int
  status : Nat → UInt8
  /-- What the chip delivers of a page that its ECC gave up. -/
  bytes : Nat → UInt8

/-- `SPI_NAND_READY`, which is set while the chip is busy. -/
def busy (status : UInt8) : Bool := status &&& 1 ≠ 0

/-- The polls that find the chip busy before `spi_wait_status` gives up on the next one. -/
def timeout : Nat := 0xffffff + 1

namespace Answers

variable (a : Answers)

/-- The result of waiting from transfer `n` on, and the next transfer. -/
def wait : Nat → Nat → Int × Nat
  | 0, n => (if a.result n ≠ 0 then a.result n else if busy (a.status n) then -14 else 0, n + 1)
  | left + 1, n =>
    if a.result n ≠ 0 then (a.result n, n + 1)
    else if busy (a.status n) then wait left (n + 1)
    else (0, n + 1)

/-- The wait for the page, and the one for its ECC bits. -/
def loaded : Int × Nat := a.wait timeout 1

def checked : Int × Nat := a.wait timeout a.loaded.2

/-- The status with the ECC bits of the page, if it came. -/
def report : Option UInt8 :=
  if a.checked.1 = 0 then some (a.status (a.checked.2 - 1)) else none

/-- The chip reported the page with a correctable or no ECC error. -/
def Correctable : Prop := ∃ status, a.report = some status ∧ eccBits status ≠ 2

/-- What the cache holds of a page. -/
def delivered (page : Nat → UInt8) : Nat → UInt8 :=
  if a.report.any (eccBits · = 2) then a.bytes else page

/-- All transfers go through that a page read looks at. -/
structure Served : Prop where
  cmd : a.result 0 = 0
  loaded : a.loaded.1 = 0
  main : a.result a.checked.2 = 0
  spare : a.result (a.checked.2 + 1) = 0

end Answers

/-! ## Transfers -/

/-- The transfers since the command of the page read, and the cache of each plane. -/
structure Spi where
  n : Nat
  cache : Bool → Nat → UInt8

section

variable (nand : Nand) (a : Answers)

/-- The cache that a page goes to. -/
def Nand.plane (row : Nat) : Bool :=
  !nand.oneDummy && nand.twoPlaneSelect && row / nand.pageCntPerPhyBlk % 2 == 1

/-- The bytes that the chip sends back. -/
def Nand.reply (s : Spi) : List Nat → Nat → UInt8
  -- GETSR
  | [0x0f, _], _ => a.status s.n
  -- FAST_READ_X1
  | [0x0b, col1, col2, _], i =>
    if nand.oneDummy then 0
    else if nand.twoPlaneSelect then s.cache (col1 / 16 % 2 == 1) (col1 % 16 * 256 + col2 + i)
    else s.cache false (col1 * 256 + col2 + i)
  | [0x0b, _, col1, col2, _], i =>
    if nand.oneDummy then s.cache false (col1 * 256 + col2 + i) else 0
  | _, _ => 0

/-- The caches behind a command. -/
def Nand.latch (s : Spi) : List Nat → Bool → Nat → UInt8
  -- PAGE_READ
  | [0x13, row1, row2, row3] =>
    let row := row1 * 65536 + row2 * 256 + row3
    Function.update s.cache (nand.plane row) (a.delivered (nand.page row))
  | _ => s.cache

/-- `Spic_rw`: its result, what it receives, and what is behind it. -/
def spicRw (sdata : List Nat) (s : Spi) : Int × (Nat → UInt8) × Spi :=
  (a.result s.n, nand.reply a s sdata, ⟨s.n + 1, nand.latch a s sdata⟩)

/-- The status that is fetched, behind its result. -/
def spiNandGetsr (s : Spi) : Int × UInt8 × Spi :=
  let r := spicRw nand a [0x0f, 0xc0] s
  (r.1, r.2.1 0, r.2.2)

/-- The loop of `spi_wait_status`. -/
def waitLoop : Nat → Spi → Int × Spi
  | 0, s =>
    let r := spiNandGetsr nand a s
    -- -ERR_TIMEOUT
    if r.1 ≠ 0 then (r.1, r.2.2) else if busy r.2.1 then (-14, r.2.2) else (0, r.2.2)
  | left + 1, s =>
    let r := spiNandGetsr nand a s
    if r.1 ≠ 0 then (r.1, r.2.2) else if busy r.2.1 then waitLoop left r.2.2 else (0, r.2.2)

/-- `spi_wait_status`. The status is fetched into its own parameter. -/
def spiWaitStatus (s : Spi) : Int × Spi := waitLoop nand a timeout s

/-- `spi_nand_read_status`, with the status that its caller hands over. -/
def spiNandReadStatus (status : UInt8) (mode : Bool) (s : Spi) : Int × Spi :=
  let w := spiWaitStatus nand a s
  if w.1 ≠ 0 then w
  else if mode then
    -- SPI_NAND_ERASE_FAIL and SPI_NAND_WRITE_FAIL
    (if status &&& 4 ≠ 0 ∨ status &&& 8 ≠ 0 then NAND_OP_FALSE else 0, w.2)
  else if eccBits status = 0 then (0, w.2)
  else if eccBits status = 1 then (0, w.2)
  else if eccBits status = 2 then (-ERR_ECC, w.2)
  else (0, w.2)

/-! ## Pages -/

/-- The buffer of the caller and the mark of the page. -/
structure Bufs where
  main : Nat → UInt8
  oob : UInt8

/-- The command that reads from a column of the cache on. -/
def Nand.fastReadX1 (planeSelect : Bool) (column : Nat) : List Nat :=
  if nand.oneDummy then [0x0b, 0, column / 256 % 256, column % 256, 0]
  else if nand.twoPlaneSelect then
    [0x0b, if planeSelect then column / 256 % 16 + 16 else column / 256 % 16, column % 256, 0]
  else [0x0b, column / 256 % 256, column % 256, 0]

/-- `if (mbuf)`. -/
def readMain (planeSelect : Bool) (mbyteCnt : Nat) (mbuf : Option Nat) (column : Nat) (b : Bufs)
    (s : Spi) : Int × Bufs × Spi :=
  match mbuf with
  | none => (0, b, s)
  | some p =>
    let r := spicRw nand a (nand.fastReadX1 planeSelect column) s
    (r.1, { b with main := copyN b.main p r.2.1 0 mbyteCnt }, r.2.2)

/-- `if (sbuf)`: the first byte behind the sectors is the mark. -/
def readSpare (planeSelect : Bool) (sbuf : Bool) (b : Bufs) (s : Spi) : Int × Bufs × Spi :=
  if sbuf then
    let r := spicRw nand a (nand.fastReadX1 planeSelect nand.pageSize) s
    if r.1 ≠ 0 then (r.1, b, r.2.2)
    else (0, { b with oob := if r.2.1 0 ≠ 0xff then 0 else 0xff }, r.2.2)
  else (0, b, s)

/-- `spi_nand_read_x1`. -/
def spiNandReadX1 (pageNum mbyteCnt : Nat) (mbuf : Option Nat) (sbuf : Bool) (column : Nat)
    (b : Bufs) (s : Spi) : Int × Bufs × Spi :=
  let planeSelect := pageNum / (nand.blockSize / nand.pageSize) % 2 == 1
  let status : UInt8 := 0
  let r := spicRw nand a [0x13, pageNum / 65536 % 256, pageNum / 256 % 256, pageNum % 256] s
  if r.1 ≠ 0 then (r.1, b, r.2.2)
  else
    let w := spiWaitStatus nand a r.2.2
    if w.1 ≠ 0 then (w.1, b, w.2)
    else
      -- the result of this one is only printed
      let eccStatus := spiNandReadStatus nand a status false w.2
      let m := readMain nand a planeSelect mbyteCnt mbuf column b eccStatus.2
      if m.1 ≠ 0 then m else readSpare nand a planeSelect sbuf m.2.1 m.2.2

/-- `read_single_page` of a page of a block. -/
def readSinglePage (block page : Nat) (mainbuf : Nat) (dataSize : Nat) (spareOnlyFlag : Bool)
    (b : Bufs) (s : Spi) : Int × Bufs × Spi :=
  let addr := (block * nand.blockSize % 2 ^ 32 / nand.pageSize + page) % 2 ^ 32
  if spareOnlyFlag then spiNandReadX1 nand a addr 0 none true 0 b s
  else spiNandReadX1 nand a addr dataSize (some mainbuf) true 0 b s

end

/-! ## Sectors -/

section

variable (nand : Nand) (answers : Nat → Answers)

/-- The pages that `N` sectors take. -/
def Geometry.pageNr (g : Geometry) (N : Nat) : Nat :=
  if N % g.sectorCntPerPage ≠ 0 then N / g.sectorCntPerPage + 1 else N / g.sectorCntPerPage

/-- `data_size` of page `i`. -/
def Geometry.dataSize (g : Geometry) (N i : Nat) : Nat :=
  if i = g.pageNr N - 1 ∧ N % g.sectorCntPerPage ≠ 0 then 512 * N - g.pageSize * i else g.pageSize

/-- The loop of `SpiNand_Read` over the pages from `i` on, `left` of them. -/
def readLoop (block startPage N : Nat) : Nat → Nat → Bufs → (Bool → Nat → UInt8) → Int × Bufs
  | _, 0, b, _ => (0, b)
  | i, left + 1, b, cache =>
    let r := readSinglePage nand (answers i) block (startPage + i) (nand.pageSize * i)
      (nand.dataSize N i) false b ⟨0, cache⟩
    if r.1 ≠ 0 then (NAND_OP_FALSE, r.2.1)
    else readLoop block startPage N (i + 1) left r.2.1 r.2.2.cache

/-- `SpiNand_Read`, where `answers i` are the answers to the read of page `i`. -/
def spiNandRead (sectorNum N : Nat) (b : Bufs) (cache : Bool → Nat → UInt8) : Int × Bufs :=
  let sctsPerBlock := nand.blockSize / 512
  readLoop nand answers (sectorNum / sctsPerBlock)
    (sectorNum % sctsPerBlock / nand.sectorCntPerPage) N 0 (nand.pageNr N) b cache

end

end Melis.Spinand
