import Melis.Lib.C
import Melis.Lib.Memory
import Melis.Lib.Run

/-!
# Reads of the mini file system

`minfs_pread` reads the bytes before the first whole cache block and behind the
last one through a cache of eight items, and the blocks between directly. The load
of an item ignores what the device says, so the item is marked with its sector
whatever it holds: the cache is good as long as each load gets the bytes of the
image (`minfsPread_good`).
-/

namespace Melis.Minfs

open Lib Memory Function

variable {β : Type}

def minfsCacheMaxnum : Nat := 8

def minfsCacheBits : Nat := 12

def minfsCacheSize : Nat := 4096

def minfsInvalidSector : Nat := 0xffffffff

/-- `SectorBits` and `s_blocksize_bits`. -/
def sectorBits : Nat := 9

def sectorSize : Nat := 512

/-- `CacheItemSectors`. -/
def cacheItemSectors : Nat := minfsCacheSize >>> sectorBits

structure CacheItem (β : Type) where
  sector : Nat
  pData : Nat → β

/-- `minfs_sb_info`: the size of the image and the cache. -/
structure SbInfo (β : Type) where
  size : Nat
  cacheIndex : Nat
  cacheItems : Nat → CacheItem β

/-- A read of the device: the count it returns, and what is in the memory then. -/
structure DeviceRead (β : Type) where
  ret : Nat
  data : Nat → β

/-- A call of `minfs_pread`: its arguments, whether the buffer is physically continuous and whether
there is memory for another one, and the reads of the device. -/
structure Call (β : Type) where
  buffer : Nat → β
  pos : Nat
  count : Nat
  conti : Bool
  palloc : Bool
  head : DeviceRead β
  direct : DeviceRead β
  tail : DeviceRead β

/-- `minfs_cache_init`; `pbuffer` is what the memory of the items holds. -/
def minfsCacheInit (size : Nat) (pbuffer : Nat → Nat → β) : SbInfo β :=
  ⟨size, 0, fun i => ⟨minfsInvalidSector, pbuffer i⟩⟩

namespace SbInfo

variable (sb : SbInfo β)

/-- `minfs_get_data_from_cache`. -/
def minfsGetDataFromCache (sector : Nat) : Option (CacheItem β) :=
  ((List.range minfsCacheMaxnum).find? fun i => sector == (sb.cacheItems i).sector).map sb.cacheItems

/-- `minfs_use_cache_load_data`. What the device returns does not matter. -/
def minfsUseCacheLoadData (sector : Nat) (rd : DeviceRead β) : SbInfo β × CacheItem β :=
  ({ sb with
      cacheIndex := if minfsCacheMaxnum ≤ sb.cacheIndex + 1 then 0 else sb.cacheIndex + 1
      cacheItems := update sb.cacheItems sb.cacheIndex ⟨sector, rd.data⟩ },
    ⟨sector, rd.data⟩)

/-- The item of a sector, loaded if it is not in the cache. -/
def cacheItem (sector : Nat) (rd : DeviceRead β) : SbInfo β × CacheItem β :=
  match sb.minfsGetDataFromCache sector with
  | some item => (sb, item)
  | none => sb.minfsUseCacheLoadData sector rd

end SbInfo

/-- The variables of `minfs_pread`; `pCurBuffer` is an offset in the buffer. -/
structure Reading (β : Type) where
  sb : SbInfo β
  buffer : Nat → β
  sector : Nat
  pCurBuffer : Nat
  left : Nat

/-- What `minfs_pread` returns and leaves. -/
structure Result (β : Type) where
  sb : SbInfo β
  buffer : Nat → β
  n : Nat

namespace Call

variable (c : Call β)

/-- The count, cut at the end of the image. -/
def cut (sb : SbInfo β) : Nat :=
  if sb.size < u32 (c.pos + c.count) then sb.size - c.pos else c.count

def start (sb : SbInfo β) : Reading β :=
  { sb := sb
    buffer := c.buffer
    sector := (c.pos >>> minfsCacheBits) <<< (minfsCacheBits - sectorBits)
    pCurBuffer := 0
    left := c.cut sb }

/-- The first block, where the position is not aligned. -/
def headPart (v : Reading β) : Reading β :=
  let offset := c.pos % minfsCacheSize
  if offset ≠ 0 then
    let chunkSize := if v.left ≤ minfsCacheSize - offset then v.left else minfsCacheSize - offset
    let (sb, item) := v.sb.cacheItem v.sector c.head
    { sb := sb
      buffer := copyN v.buffer v.pCurBuffer item.pData offset chunkSize
      left := v.left - chunkSize
      pCurBuffer := v.pCurBuffer + chunkSize
      sector := v.sector + cacheItemSectors }
  else v

/-- The aligned blocks; `false` says that the call ends here. -/
def directPart (v : Reading β) : Reading β × Bool :=
  if v.left >>> minfsCacheBits ≠ 0 then
    let directNr := (v.left >>> minfsCacheBits) <<< (minfsCacheBits - sectorBits)
    let chunkSize := directNr * sectorSize
    let copied := { v with buffer := copyN v.buffer v.pCurBuffer c.direct.data 0 chunkSize }
    let moved := { copied with
      sector := v.sector + directNr
      pCurBuffer := v.pCurBuffer + chunkSize
      left := v.left - chunkSize }
    if c.conti then
      if c.direct.ret ≠ directNr then (copied, false) else (moved, true)
    else if c.palloc = false then (v, false)
    else if c.direct.ret ≠ directNr then (v, false)
    else (moved, true)
  else (v, true)

/-- The last block, where the end is not aligned. -/
def tailPart (v : Reading β) : Reading β :=
  if v.left ≠ 0 then
    let (sb, item) := v.sb.cacheItem v.sector c.tail
    { v with
      sb := sb
      buffer := copyN v.buffer v.pCurBuffer item.pData 0 v.left
      pCurBuffer := v.pCurBuffer + v.left
      left := v.left - v.left }
  else v

/-- `minfs_pread`. -/
def minfsPread (sb : SbInfo β) : Result β :=
  if sb.size ≤ c.pos then ⟨sb, c.buffer, 0⟩
  else
    let r := c.directPart (c.headPart (c.start sb))
    let v := if r.2 then c.tailPart r.1 else r.1
    ⟨v.sb, v.buffer, c.cut sb - v.left⟩

end Call

/-- Calls of `minfs_pread` one after another. -/
abbrev pread (β : Type) : Machine (SbInfo β) (Call β) := ⟨fun sb c => some (c.minfsPread sb).sb⟩

/-! ## What a call should do -/

section

variable (dev : Nat → β)

/-- The item holds what the image has in its sector. -/
def CacheItem.Holds (size : Nat) (item : CacheItem β) : Prop :=
  ∀ i < minfsCacheSize, sectorSize * item.sector + i < size →
    item.pData i = dev (sectorSize * item.sector + i)

/-- Every item that is marked with a sector holds it. -/
def SbInfo.Good (sb : SbInfo β) : Prop :=
  ∀ i < minfsCacheMaxnum, (sb.cacheItems i).sector ≠ minfsInvalidSector →
    (sb.cacheItems i).Holds dev sb.size

/-- The sectors that the device says it has read are there. -/
def DeviceRead.Honest (rd : DeviceRead β) (sector n : Nat) : Prop :=
  ∀ i < sectorSize * rd.ret, i < sectorSize * n → rd.data i = dev (sectorSize * sector + i)

variable (sb : SbInfo β) (c : Call β)

/-- The variables before the direct read. -/
def Call.atDirect : Reading β := c.headPart (c.start sb)

/-- The count of the direct read, if there is one. -/
def Call.directNr : Nat :=
  ((c.atDirect sb).left >>> minfsCacheBits) <<< (minfsCacheBits - sectorBits)

/-- The variables before the last block. -/
def Call.atTail : Reading β := (c.directPart (c.atDirect sb)).1

/-- The arguments are `__u32`, and the device is honest. -/
structure Promised : Prop where
  pos : c.pos < 2 ^ 32
  count : c.count < 2 ^ 32
  head : c.head.Honest dev (c.start sb).sector cacheItemSectors
  direct : c.direct.Honest dev (c.atDirect sb).sector (c.directNr sb)
  tail : c.tail.Honest dev (c.atTail sb).sector cacheItemSectors

/-- The device has read what the image has in the sectors of an item. -/
def DeviceRead.Covers (rd : DeviceRead β) (size sector : Nat) : Prop :=
  min minfsCacheSize (size - sectorSize * sector) ≤ sectorSize * rd.ret

/-- The end of the read is a `__u32`, there is memory for the direct read, and where an item is
loaded the device has read it. -/
structure Sound : Prop where
  fits : c.pos < sb.size → c.pos + c.count < 2 ^ 32
  memory : c.pos < sb.size → c.directNr sb ≠ 0 → c.conti = true ∨ c.palloc = true
  head : c.pos < sb.size → c.pos % minfsCacheSize ≠ 0 →
    sb.minfsGetDataFromCache (c.start sb).sector = none → c.head.Covers sb.size (c.start sb).sector
  tail : c.pos < sb.size → (c.directPart (c.atDirect sb)).2 = true → (c.atTail sb).left ≠ 0 →
    (c.atTail sb).sb.minfsGetDataFromCache (c.atTail sb).sector = none →
    c.tail.Covers sb.size (c.atTail sb).sector

/-- What the call returns is in the image, and is all of it where the direct read succeeds. -/
structure Answered (r : Result β) : Prop where
  le : r.n ≤ sb.size - c.pos
  bytes : ∀ i < r.n, r.buffer i = dev (c.pos + i)
  whole : (c.directNr sb ≠ 0 → c.direct.ret = c.directNr sb) → r.n = min c.count (sb.size - c.pos)

end

/-! ## The cache -/

section

variable {dev : Nat → β} {sb : SbInfo β} {c : Call β} {sector : Nat} {rd : DeviceRead β}

/-- The invariant of the cache. -/
structure SbInfo.Sane (dev : Nat → β) (size : Nat) (sb : SbInfo β) : Prop where
  size : sb.size = size
  index : sb.cacheIndex < minfsCacheMaxnum
  good : sb.Good dev

theorem DeviceRead.Covers.holds {size : Nat} (h : rd.Covers size sector)
    (hrd : rd.Honest dev sector cacheItemSectors) :
    CacheItem.Holds dev size ⟨sector, rd.data⟩ := by
  intro i hi hlt
  unfold DeviceRead.Covers at h
  have hsectors : sectorSize * cacheItemSectors = minfsCacheSize := by decide
  apply hrd
  · have hmin : i < min minfsCacheSize (size - sectorSize * sector) := by
      change sectorSize * sector + i < size at hlt
      omega
    exact Nat.lt_of_lt_of_le hmin h
  · rw [hsectors]
    exact hi

theorem getDataFromCache_some {item : CacheItem β}
    (h : sb.minfsGetDataFromCache sector = some item) :
    ∃ i < minfsCacheMaxnum, item = sb.cacheItems i ∧ item.sector = sector := by
  obtain ⟨i, hfind, rfl⟩ := Option.map_eq_some_iff.mp h
  have hsector : sector = (sb.cacheItems i).sector := by simpa using List.find?_some hfind
  exact ⟨i, List.mem_range.mp (List.mem_of_find?_eq_some hfind), rfl, hsector.symm⟩

/-- An item that is found, or is loaded by a read that covers it, holds its sector. -/
theorem SbInfo.Sane.cacheItem {size : Nat} (h : sb.Sane dev size)
    (hsector : sector ≠ minfsInvalidSector) (hrd : rd.Honest dev sector cacheItemSectors)
    (hload : sb.minfsGetDataFromCache sector = none → rd.Covers size sector) :
    (sb.cacheItem sector rd).1.Sane dev size ∧ (sb.cacheItem sector rd).2.sector = sector ∧
      (sb.cacheItem sector rd).2.Holds dev size := by
  unfold SbInfo.cacheItem
  cases hget : sb.minfsGetDataFromCache sector with
  | some item =>
    obtain ⟨i, hi, rfl, hsame⟩ := getDataFromCache_some hget
    refine ⟨h, hsame, ?_⟩
    rw [← h.size]
    exact h.good i hi (by rwa [hsame])
  | none =>
    have hholds := (hload hget).holds hrd
    refine ⟨⟨h.size, ?_, ?_⟩, rfl, hholds⟩
    · show (if minfsCacheMaxnum ≤ sb.cacheIndex + 1 then 0 else sb.cacheIndex + 1) < _
      split
      · decide
      · omega
    · intro i hi hvalid
      by_cases heq : i = sb.cacheIndex
      · subst heq
        show (update sb.cacheItems sb.cacheIndex _ sb.cacheIndex).Holds dev sb.size
        rw [update_self, h.size]
        exact hholds
      · have hsame : update sb.cacheItems sb.cacheIndex ⟨sector, rd.data⟩ i = sb.cacheItems i :=
          update_of_ne heq _ _
        change (update sb.cacheItems sb.cacheIndex ⟨sector, rd.data⟩ i).sector ≠ _ at hvalid
        show (update sb.cacheItems sb.cacheIndex _ i).Holds dev sb.size
        rw [hsame] at hvalid ⊢
        exact h.good i hi hvalid

/-! ## The parts of a read -/

/-- The first `pCurBuffer` bytes of the read are done, and the rest starts at a sector. -/
structure Reading.At (dev : Nat → β) (size pos count : Nat) (v : Reading β) : Prop where
  sane : v.sb.Sane dev size
  sum : v.pCurBuffer + v.left = count
  bytes : ∀ i < v.pCurBuffer, v.buffer i = dev (pos + i)
  sector : v.left ≠ 0 → sectorSize * v.sector = pos + v.pCurBuffer

variable {v : Reading β} {size pos count n o : Nat} {buffer data : Nat → β}

/-- The bytes of a read with the next ones copied behind. -/
theorem bytes_copyN {k : Nat} (hbytes : ∀ i < k, buffer i = dev (pos + i))
    (hdata : ∀ i < n, data (o + i) = dev (pos + k + i)) :
    ∀ i < k + n, copyN buffer k data o n i = dev (pos + i) := by
  intro i hi
  by_cases hlt : i < k
  · rw [copyN_out (.inl hlt)]
    exact hbytes i hlt
  · obtain ⟨j, rfl⟩ := Nat.exists_eq_add_of_le (Nat.not_lt.mp hlt)
    rw [copyN_in (by omega), hdata j (by omega), Nat.add_assoc]

theorem cut_eq (hpos : c.pos < sb.size) (hfits : c.pos + c.count < 2 ^ 32) :
    c.cut sb = min c.count (sb.size - c.pos) := by
  unfold Call.cut u32
  split <;> omega

theorem start_sector (sb : SbInfo β) (c : Call β) :
    sectorSize * (c.start sb).sector + c.pos % minfsCacheSize = c.pos := by
  show sectorSize * ((c.pos >>> 12) <<< 3) + c.pos % 4096 = c.pos
  rw [Nat.shiftRight_eq_div_pow, Nat.shiftLeft_eq]
  show 512 * (c.pos / 4096 * 8) + _ = _
  omega

/-- The sector of a place in the image is not the invalid one. -/
theorem sector_ne_invalid (h : sectorSize * sector < 2 ^ 32) : sector ≠ minfsInvalidSector := by
  rintro rfl
  exact absurd h (by decide)

theorem headPart_at (hsane : sb.Sane dev size) (hpos : c.pos < size) (hfits : c.pos + c.count < 2 ^ 32)
    (hhonest : c.head.Honest dev (c.start sb).sector cacheItemSectors)
    (hload : c.pos % minfsCacheSize ≠ 0 → sb.minfsGetDataFromCache (c.start sb).sector = none →
      c.head.Covers size (c.start sb).sector) :
    (c.atDirect sb).At dev size c.pos (c.cut sb) := by
  have hcut : c.cut sb ≤ size - c.pos := by
    rw [cut_eq (by rwa [hsane.size]) hfits, hsane.size]
    omega
  have hsector := start_sector sb c
  unfold Call.atDirect Call.headPart
  dsimp only
  by_cases hoffset : c.pos % minfsCacheSize = 0
  · rw [if_neg (not_not.mpr hoffset)]
    rw [hoffset] at hsector
    exact ⟨hsane, Nat.zero_add _, nofun, fun _ => hsector⟩
  · rw [if_pos hoffset]
    obtain ⟨hsane', hsame, hholds⟩ := hsane.cacheItem (sector_ne_invalid (by omega)) hhonest
      (hload hoffset)
    have hlt : c.pos % minfsCacheSize < minfsCacheSize := Nat.mod_lt _ (by decide)
    have hsectors : sectorSize * cacheItemSectors = minfsCacheSize := by decide
    have hleft : (c.start sb).left = c.cut sb := rfl
    generalize hchunk : (if (c.start sb).left ≤ minfsCacheSize - c.pos % minfsCacheSize
      then (c.start sb).left else minfsCacheSize - c.pos % minfsCacheSize) = chunkSize
    have hle : chunkSize ≤ c.cut sb ∧ chunkSize ≤ minfsCacheSize - c.pos % minfsCacheSize := by
      rw [← hchunk]
      split <;> omega
    refine ⟨hsane', ?_, ?_, ?_⟩
    · show 0 + chunkSize + ((c.start sb).left - chunkSize) = _
      omega
    · apply bytes_copyN (k := 0)
      · nofun
      · intro i hi
        have hbyte := hholds (c.pos % minfsCacheSize + i) (by omega)
        rw [hsame] at hbyte
        have hplace : sectorSize * (c.start sb).sector + (c.pos % minfsCacheSize + i) =
            c.pos + 0 + i := by omega
        rw [hplace] at hbyte
        exact hbyte (by omega)
    · intro hmore
      change (c.start sb).left - chunkSize ≠ 0 at hmore
      have hall : chunkSize = minfsCacheSize - c.pos % minfsCacheSize := by
        rw [← hchunk] at hmore ⊢
        split at hmore
        · omega
        · rename_i hlong
          rw [if_neg hlong]
      show sectorSize * ((c.start sb).sector + cacheItemSectors) = c.pos + (0 + chunkSize)
      rw [Nat.mul_add, hsectors]
      omega

theorem directNr_eq (sb : SbInfo β) (c : Call β) :
    c.directNr sb * sectorSize = (c.atDirect sb).left / minfsCacheSize * minfsCacheSize := by
  show ((c.atDirect sb).left >>> 12) <<< 3 * 512 = (c.atDirect sb).left / 4096 * 4096
  rw [Nat.shiftRight_eq_div_pow, Nat.shiftLeft_eq]
  omega

theorem directPart_at (hat : (c.atDirect sb).At dev size c.pos count)
    (hhonest : c.direct.Honest dev (c.atDirect sb).sector (c.directNr sb)) :
    (c.atTail sb).At dev size c.pos count ∧
      ((c.directPart (c.atDirect sb)).2 = true → (c.atTail sb).left < minfsCacheSize) ∧
      ((c.directNr sb ≠ 0 → c.conti = true ∨ c.palloc = true) →
        (c.directNr sb ≠ 0 → c.direct.ret = c.directNr sb) →
        (c.directPart (c.atDirect sb)).2 = true) := by
  have hnr := directNr_eq sb c
  have hzero : c.directNr sb = 0 ↔ (c.atDirect sb).left >>> minfsCacheBits = 0 := by
    show ((c.atDirect sb).left >>> 12) <<< 3 = 0 ↔ _
    rw [Nat.shiftLeft_eq]
    show _ * 8 = 0 ↔ (c.atDirect sb).left >>> 12 = 0
    omega
  -- the bytes of the buffer that were read before stay
  have hkeep : ∀ n, ∀ i < (c.atDirect sb).pCurBuffer,
      copyN (c.atDirect sb).buffer (c.atDirect sb).pCurBuffer c.direct.data 0 n i =
        dev (c.pos + i) := by
    intro n i hi
    rw [copyN_out (.inl hi)]
    exact hat.bytes i hi
  unfold Call.atTail Call.directPart
  by_cases hdirect : (c.atDirect sb).left >>> minfsCacheBits = 0
  · rw [if_neg (not_not.mpr hdirect)]
    refine ⟨hat, fun _ => ?_, fun _ _ => rfl⟩
    change (c.atDirect sb).left >>> 12 = 0 at hdirect
    rw [Nat.shiftRight_eq_div_pow] at hdirect
    show (c.atDirect sb).left < 4096
    omega
  · rw [if_pos hdirect]
    have hne : c.directNr sb ≠ 0 := fun h => hdirect (hzero.mp h)
    have hchunk : c.directNr sb * sectorSize ≤ (c.atDirect sb).left := by
      rw [hnr]
      exact Nat.div_mul_le_self _ _
    have hsmall : (c.atDirect sb).left - c.directNr sb * sectorSize < minfsCacheSize := by
      rw [hnr]
      show (c.atDirect sb).left - (c.atDirect sb).left / 4096 * 4096 < 4096
      omega
    have hleft : (c.atDirect sb).left ≠ 0 := by
      intro hnil
      rw [hnil] at hdirect
      exact hdirect rfl
    have hsector := hat.sector hleft
    have hcopied : Reading.At dev size c.pos count { c.atDirect sb with
        buffer := copyN (c.atDirect sb).buffer (c.atDirect sb).pCurBuffer c.direct.data 0
          (c.directNr sb * sectorSize) } := ⟨hat.sane, hat.sum, hkeep _, hat.sector⟩
    have hmoved : c.direct.ret = c.directNr sb → Reading.At dev size c.pos count
        { sb := (c.atDirect sb).sb
          buffer := copyN (c.atDirect sb).buffer (c.atDirect sb).pCurBuffer c.direct.data 0
            (c.directNr sb * sectorSize)
          sector := (c.atDirect sb).sector + c.directNr sb
          pCurBuffer := (c.atDirect sb).pCurBuffer + c.directNr sb * sectorSize
          left := (c.atDirect sb).left - c.directNr sb * sectorSize } := by
      intro hret
      refine ⟨hat.sane, ?_, ?_, fun _ => ?_⟩
      · have hsum := hat.sum
        dsimp only
        omega
      · apply bytes_copyN hat.bytes
        intro i hi
        rw [Nat.zero_add, ← hsector]
        apply hhonest
        · rw [hret, Nat.mul_comm]
          exact hi
        · rw [Nat.mul_comm]
          exact hi
      · dsimp only
        rw [Nat.mul_add, Nat.mul_comm sectorSize (c.directNr sb), hsector, Nat.add_assoc]
    dsimp only
    by_cases hret : c.direct.ret = c.directNr sb
    · have hret' : ¬ c.direct.ret ≠
          (c.atDirect sb).left >>> minfsCacheBits <<< (minfsCacheBits - sectorBits) :=
        not_not.mpr hret
      rw [if_neg hret', if_neg hret']
      cases hconti : c.conti with
      | true => exact ⟨hmoved hret, fun _ => hsmall, fun _ _ => rfl⟩
      | false =>
        cases hpalloc : c.palloc with
        | true => exact ⟨hmoved hret, fun _ => hsmall, fun _ _ => rfl⟩
        | false => exact ⟨hat, nofun, fun hmemory _ => by simpa using hmemory hne⟩
    · have hret' : c.direct.ret ≠
          (c.atDirect sb).left >>> minfsCacheBits <<< (minfsCacheBits - sectorBits) := hret
      rw [if_pos hret', if_pos hret']
      cases hconti : c.conti with
      | true => exact ⟨hcopied, nofun, fun _ hok => absurd (hok hne) hret⟩
      | false =>
        cases hpalloc : c.palloc with
        | true => exact ⟨hat, nofun, fun _ hok => absurd (hok hne) hret⟩
        | false => exact ⟨hat, nofun, fun _ hok => absurd (hok hne) hret⟩

theorem tailPart_at (hat : v.At dev size c.pos count) (hend : c.pos + count ≤ size)
    (hint : size < 2 ^ 32) (hhonest : c.tail.Honest dev v.sector cacheItemSectors)
    (hsmall : v.left < minfsCacheSize)
    (hload : v.left ≠ 0 → v.sb.minfsGetDataFromCache v.sector = none →
      c.tail.Covers size v.sector) :
    (c.tailPart v).At dev size c.pos count ∧ (c.tailPart v).left = 0 := by
  unfold Call.tailPart
  by_cases hleft : v.left = 0
  · rw [if_neg (not_not.mpr hleft)]
    exact ⟨hat, hleft⟩
  · rw [if_pos hleft]
    have hsum := hat.sum
    have hsector := hat.sector hleft
    obtain ⟨hsane, hsame, hholds⟩ := hat.sane.cacheItem (sector_ne_invalid (by omega)) hhonest
      (hload hleft)
    refine ⟨⟨hsane, ?_, ?_, ?_⟩, Nat.sub_self _⟩
    · dsimp only
      omega
    · apply bytes_copyN hat.bytes
      intro i hi
      have hbyte := hholds i (by omega)
      rw [hsame, hsector] at hbyte
      rw [Nat.zero_add]
      exact hbyte (by omega)
    · intro hmore
      exact absurd (Nat.sub_self _) hmore

/-! ## The calls -/

/-- **A sound call** keeps the cache and returns bytes of the image. -/
theorem minfsPread_good (hsane : sb.Sane dev size) (hint : size < 2 ^ 32) (hp : Promised dev sb c)
    (hs : Sound sb c) :
    (c.minfsPread sb).sb.Sane dev size ∧ Answered dev sb c (c.minfsPread sb) := by
  unfold Call.minfsPread
  by_cases hpos : sb.size ≤ c.pos
  · rw [if_pos hpos]
    refine ⟨hsane, Nat.zero_le _, nofun, fun _ => ?_⟩
    show 0 = _
    omega
  · rw [if_neg hpos]
    have hlt : c.pos < sb.size := Nat.not_le.mp hpos
    have hsize := hsane.size
    have hcut := cut_eq hlt (hs.fits hlt)
    have hat := headPart_at hsane (hsize ▸ hlt) (hs.fits hlt) hp.head
      fun ho hn => hsize ▸ hs.head hlt ho hn
    obtain ⟨hat', hsmall, hwhole⟩ := directPart_at hat hp.direct
    -- what was read when the call ends
    have hanswer : ∀ v : Reading β, v.At dev size c.pos (c.cut sb) →
        ((c.directNr sb ≠ 0 → c.direct.ret = c.directNr sb) → v.left = 0) →
        v.sb.Sane dev size ∧ Answered dev sb c ⟨v.sb, v.buffer, c.cut sb - v.left⟩ := by
      intro v hv hdone
      have hsum := hv.sum
      have hn : c.cut sb - v.left = v.pCurBuffer := by omega
      refine ⟨hv.sane, ?_, fun i hi => hv.bytes i (hn ▸ hi), fun hok => ?_⟩
      · show c.cut sb - v.left ≤ sb.size - c.pos
        omega
      · show c.cut sb - v.left = _
        rw [hdone hok, hcut]
        rfl
    change (if (c.directPart (c.atDirect sb)).2 = true then c.tailPart (c.atTail sb)
        else c.atTail sb).sb.Sane dev size ∧
      Answered dev sb c ⟨(if (c.directPart (c.atDirect sb)).2 = true then c.tailPart (c.atTail sb)
        else c.atTail sb).sb, (if (c.directPart (c.atDirect sb)).2 = true then c.tailPart (c.atTail sb)
        else c.atTail sb).buffer, c.cut sb - (if (c.directPart (c.atDirect sb)).2 = true then
        c.tailPart (c.atTail sb) else c.atTail sb).left⟩
    by_cases hnext : (c.directPart (c.atDirect sb)).2 = true
    · rw [if_pos hnext]
      obtain ⟨htail, hnil⟩ := tailPart_at hat' (by omega) hint hp.tail (hsmall hnext)
        fun hleft hn => hsize ▸ hs.tail hlt hnext hleft hn
      exact hanswer _ htail fun _ => hnil
    · rw [if_neg hnext]
      exact hanswer _ hat' fun hok => absurd (hwhole (hs.memory hlt) hok) hnext

end

theorem minfsCacheInit_sane (dev : Nat → β) (size : Nat) (pbuffer : Nat → Nat → β) :
    (minfsCacheInit size pbuffer).Sane dev size :=
  ⟨rfl, Nat.zero_lt_succ _, fun _ _ hvalid => absurd rfl hvalid⟩

/-- **Every sound run reads the image**: in every state the items of the cache hold their sectors,
and every call returns bytes of the image. -/
theorem pread_upholds (dev : Nat → β) (size : Nat) (hint : size < 2 ^ 32) (pbuffer : Nat → Nat → β)
    (cs : List (Call β))
    (hp : (pread β).Meets (Promised dev) (minfsCacheInit size pbuffer) cs)
    (hs : (pread β).Meets Sound (minfsCacheInit size pbuffer) cs) :
    (pread β).Upholds (SbInfo.Good dev) (fun sb c _ => Answered dev sb c (c.minfsPread sb))
      (minfsCacheInit size pbuffer) cs := by
  refine Machine.upholds_of_inv (I := SbInfo.Sane dev size) (fun _ h => h.good) ?_
    (minfsCacheInit_sane dev size pbuffer) (Machine.meets_and.mpr ⟨hp, hs⟩)
  rintro sb c hsane ⟨hp, hs⟩
  obtain ⟨hsane', hanswer⟩ := minfsPread_good hsane hint hp hs
  exact ⟨_, rfl, hanswer, hsane'⟩

/-- Five bytes from the second on, where the load of the first block returns `ret` sectors. -/
def fiveBytes (ret : Nat) (data : Nat → Nat) : Call Nat :=
  ⟨fun _ => 0, 1, 5, true, true, ⟨ret, data⟩, ⟨0, fun _ => 0⟩, ⟨0, fun _ => 0⟩⟩

theorem fiveBytes_promised {ret : Nat} {dev data : Nat → Nat}
    (h : ∀ i < sectorSize * ret, data i = dev i) :
    Promised dev (minfsCacheInit 100 fun _ _ => 0) (fiveBytes ret data) := by
  have hsector := start_sector (minfsCacheInit 100 fun _ _ => 0) (fiveBytes ret data)
  change _ + 1 % 4096 = 1 at hsector
  refine ⟨(by decide : 1 < 2 ^ 32), (by decide : 5 < 2 ^ 32), ?_, ?_, ?_⟩
  · intro i hi _
    rw [show sectorSize * ((fiveBytes ret data).start _).sector + i = i by omega]
    exact h i hi
  · exact fun i hi => absurd hi (Nat.not_lt_zero i)
  · exact fun i hi => absurd hi (Nat.not_lt_zero i)

theorem pread_upholds_fiveBytes :
    (pread Nat).Upholds (SbInfo.Good id)
      (fun sb c _ => Answered id sb c (c.minfsPread sb)) (minfsCacheInit 100 fun _ _ => 0)
      [fiveBytes 8 id] := by
  apply pread_upholds id 100 (by decide)
  · exact ⟨fiveBytes_promised fun _ _ => rfl, fun _ _ => trivial⟩
  · refine ⟨⟨fun _ => by decide, fun _ h => absurd rfl h, ?_, ?_⟩, fun _ _ => trivial⟩
    · intro _ _ _
      exact Nat.min_le_left _ _
    · exact fun _ _ h => absurd rfl h

/-- The load of the block fails, and the call returns five bytes of the item's old memory. -/
theorem pread_upholds_not :
    (pread Nat).Meets (Promised fun _ => 1) (minfsCacheInit 100 fun _ _ => 0)
      [fiveBytes 0 fun _ => 0] ∧
    ¬ (pread Nat).Upholds (SbInfo.Good fun _ => 1)
      (fun sb c _ => Answered (fun _ => 1) sb c (c.minfsPread sb)) (minfsCacheInit 100 fun _ _ => 0)
      [fiveBytes 0 fun _ => 0] := by
  refine ⟨⟨fiveBytes_promised fun i hi => absurd hi (Nat.not_lt_zero i), fun _ _ => trivial⟩, ?_⟩
  rintro ⟨_, _, _, hanswer, _⟩
  exact absurd (hanswer.bytes 0 (by decide)) (by decide)

end Melis.Minfs
