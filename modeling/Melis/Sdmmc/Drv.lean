import Melis.Lib.C
import Melis.Lib.Memory

/-!
# Byte requests to the card

`sunxi_sdmmc_read` and `sunxi_sdmmc_write` (`sdmmc_drv.c`) are one text with two
routines for the transfer: the rest of a head sector through `sector_buf`, whole
sectors straight from or to the caller in transfers of at most `maxTransLen`
bytes, the start of a tail sector through `sector_buf`. A position is an
`rt_off_t`, a signed number of 32 bits, and a sum that leaves it wraps around.
-/

namespace Melis.Sdmmc.Drv

open Lib Lib.Memory

/-! ## The card -/

structure Card where
  /-- `csd.capacity`, in KB. -/
  capacity : Nat
  capacity_lt : capacity < 2 ^ 32
  /-- Commands carry sectors (`mmc_card_blockaddr`), not bytes. -/
  blockaddr : Bool
  /-- `CONFIG_SDC_DMA_BUF_SIZE`, in KB. -/
  dmaBufSize : Nat
  dmaBufSize_pos : 0 < dmaBufSize
  dmaBufSize_lt : dmaBufSize * 1024 < 2 ^ 31
  /-- How the transfer with that number ends, 0 for success. -/
  responds : Nat → Int

namespace Card

variable (card : Card)

/-- The bytes the card has. -/
def bytes : Nat := card.capacity * 1024

/-- `SDXC_MAX_TRANS_LEN`. -/
def maxTransLen : Nat := card.dmaBufSize * 1024

/-- `RT_DEVICE_CTRL_BLK_GETGEOME`: the product has 32 bits. -/
def sectorCount : Nat := card.capacity * 1024 % 2 ^ 32 / 512

def totalBytes : Nat := 512 * card.sectorCount

/-- The byte at which the card starts for a command with sector `sblk`. `blk_num` and `cmd.arg`
have 32 bits. -/
def address (sblk : Nat) : Nat :=
  if card.blockaddr then sblk % 2 ^ 32 * 512 else sblk % 2 ^ 32 * 512 % 2 ^ 32

end Card

/-- The bytes of the card, of the caller and of `sector_buf`, and the first sector and the sectors
of each transfer so far. -/
structure Mem where
  dev : Nat → UInt8
  buf : Nat → UInt8
  sectorBuf : Nat → UInt8
  log : List (Nat × Nat)

/-- What `mmc_block_read` and `mmc_block_write` share: where the card starts, or the error. A card
refuses sectors that it does not have. -/
def transfer (card : Card) (m : Mem) (sblk nblk : Nat) : Mem × Except Int Nat :=
  ({ m with log := m.log ++ [(sblk, nblk)] },
    if card.maxTransLen / 512 < nblk then .error (-1)
    else if card.responds m.log.length ≠ 0 then .error (card.responds m.log.length)
    else if card.bytes < card.address sblk + 512 * nblk then .error (-1)
    else .ok (card.address sblk))

/-- The transfer of sectors from or to the caller's bytes at `data`, and of one sector to or from
`sector_buf`, with their results. -/
structure Port where
  blocks : Mem → Nat → Nat → Nat → Mem × Int
  sector : Mem → Nat → Mem × Int

/-- What a transfer does with its bytes. -/
def Mem.finish (p : Mem × Except Int Nat) (f : Mem → Nat → Mem) : Mem × Int :=
  match p with
  | (m, .error ret) => (m, ret)
  | (m, .ok a) => (f m a, 0)

/-- `mmc_block_read`. -/
def reader (card : Card) : Port where
  blocks m data sblk nblk := Mem.finish (transfer card m sblk nblk) fun m a =>
    { m with buf := copyN m.buf data m.dev a (512 * nblk) }
  sector m sblk := Mem.finish (transfer card m sblk 1) fun m a =>
    { m with sectorBuf := copyN m.sectorBuf 0 m.dev a 512 }

/-- `mmc_block_write`. -/
def writer (card : Card) : Port where
  blocks m data sblk nblk := Mem.finish (transfer card m sblk nblk) fun m a =>
    { m with dev := copyN m.dev a m.buf data (512 * nblk) }
  sector m sblk := Mem.finish (transfer card m sblk 1) fun m a =>
    { m with dev := copyN m.dev a m.sectorBuf 0 512 }

/-! ## The loops -/

/-- Where a request stands. -/
structure Body where
  mem : Mem
  pos : Int
  data : Nat
  sz : Nat
  size : Nat

/-- `n` bytes are done. -/
def Body.advance (b : Body) (m : Mem) (n : Nat) : Body :=
  ⟨m, i32 (b.pos + n), b.data + n, b.sz + n, b.size - n⟩

/-- `pos / 512`, as an argument of 64 bits. -/
def sblk (pos : Int) : Nat := u64 (pos.tdiv 512)

section

variable (port : Port) (maxTransLen : Nat)

/-- `while (size > SDXC_MAX_TRANS_LEN)`. -/
def maxLoop : Nat → Body → Body × Int
  | 0, b => (b, 0)
  | fuel + 1, b =>
    if b.size ≤ maxTransLen then (b, 0)
    else
      let r := port.blocks b.mem b.data (sblk b.pos) (maxTransLen / 512)
      if r.2 ≠ 0 then ({ b with mem := r.1 }, r.2)
      else maxLoop fuel (b.advance r.1 maxTransLen)

/-- One pass of `while (size >= bytes_per_sector)`. -/
def pass (b : Body) : Body × Int :=
  if b.size < maxTransLen then
    let r := port.blocks b.mem b.data (sblk b.pos) (b.size / 512)
    if r.2 ≠ 0 then ({ b with mem := r.1 }, r.2)
    else (b.advance r.1 (512 * (b.size / 512)), 0)
  else maxLoop port maxTransLen b.size b

/-- The passes; `none` is a loop that goes on after `fuel` of them. -/
def bodyLoop (fuel : Nat) (b : Body) : Option (Body × Int) :=
  if b.size < 512 then some (b, 0)
  else
    match fuel with
    | 0 => none
    | fuel + 1 =>
      let r := pass port maxTransLen b
      if r.2 ≠ 0 then some r else bodyLoop fuel r.1

end

/-! ## A request -/

/-- How the calls before the transfers end. -/
structure Calls where
  /-- `mmc_card_open` has a card. -/
  opened : Bool
  control : Int
  malloc : Bool

/-- What a call returns, an error or a count, and what it leaves. -/
abbrev Outcome := Except Int Nat × Mem

section

variable (port : Port) (card : Card) (calls : Calls)

/-- Step 1. The pointer that goes on is `buffer`; `data` stays where it is. -/
def headStep (b : Body) : Body × Int :=
  if u32 b.pos % 512 = 0 then (b, 0)
  else
    let addr := alignDown (u32 b.pos) 512
    let poff := u32 b.pos - addr
    let len := min (512 - poff) b.size
    let r := port.sector b.mem (addr / 512)
    if r.2 ≠ 0 then ({ b with mem := r.1 }, r.2)
    else
      let m := { r.1 with buf := copyN r.1.buf b.data r.1.sectorBuf poff len }
      ({ b.advance m len with data := b.data }, 0)

/-- Step 3. -/
def tailStep (b : Body) : Body × Int :=
  if b.size = 0 then (b, 0)
  else
    let r := port.sector b.mem (sblk b.pos)
    if r.2 ≠ 0 then ({ b with mem := r.1 }, r.2)
    else
      let m := { r.1 with buf := copyN r.1.buf b.data r.1.sectorBuf 0 b.size }
      ({ b with mem := m, sz := b.sz + b.size }, 0)

/-- `return ret ? ret : sz`. -/
def Body.outcome (r : Body × Int) : Outcome :=
  (if r.2 ≠ 0 then .error r.2 else .ok r.1.sz, r.1.mem)

/-- A call up to its loop, or its outcome if it does not get there. -/
def toLoop (pos : Int) (size : Nat) (m : Mem) : Outcome ⊕ Body :=
  -- -EIO
  if calls.opened = false then .inl (.error (-5), m)
  else if size = 0 then .inl (.ok 0, m)
  else if calls.control ≠ 0 then .inl (.error (-5), m)
  else if card.totalBytes ≤ u64 pos then .inl (.ok 0, m)
  else
    let size := min (card.totalBytes - u64 pos) size
    -- -ENOMEM
    if (u32 pos % 512 ≠ 0 ∨ size % 512 ≠ 0) ∧ calls.malloc = false then .inl (.error (-12), m)
    else
      let r := headStep port ⟨{ m with sectorBuf := fun _ => 0 }, pos, 0, 0, size⟩
      if r.2 ≠ 0 then .inl (Body.outcome r) else .inr r.1

/-- The call; `none` is a loop that goes on after `fuel` passes. -/
def request (fuel : Nat) (pos : Int) (size : Nat) (m : Mem) : Option Outcome :=
  match toLoop port card calls pos size m with
  | .inl o => some o
  | .inr b => (bodyLoop port card.maxTransLen fuel b).map fun r =>
    if r.2 ≠ 0 then Body.outcome r else Body.outcome (tailStep port r.1)

end

/-- `sunxi_sdmmc_read`. -/
def sunxiSdmmcRead (card : Card) : Calls → Nat → Int → Nat → Mem → Option Outcome :=
  request (reader card) card

/-- `sunxi_sdmmc_write`. -/
def sunxiSdmmcWrite (card : Card) : Calls → Nat → Int → Nat → Mem → Option Outcome :=
  request (writer card) card

end Melis.Sdmmc.Drv
