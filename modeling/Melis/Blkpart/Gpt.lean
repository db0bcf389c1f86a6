import Mathlib.Algebra.BigOperators.Group.Finset.Basic
import Mathlib.Order.Interval.Finset.Nat
import Melis.Lib.C

/-!
# From the GPT to the partition table

`registerBlkDevice` reads the GPT of the NOR device into a buffer of 16K, walks
its entries (`part_efi.c`) and lays out the partitions: `boot0` first, then one
for each entry. The last one gets what the sum of the others leaves of the
device, which is right only when the entries follow each other without gaps in
table order, from 64K on. Nothing bounds the number of entries by the buffer. A
result `none` is an entry read outside it.
-/

namespace Melis.Blkpart

open Lib

/-- `GPT_TABLE_SIZE`. -/
def gptTableSize : Nat := 16 * 1024

/-- `GPT_HEAD_OFFSET`. -/
def gptHeadOffset : Nat := 512

/-- `GPT_ENTRY_OFFSET`. -/
def gptEntryOffset : Nat := 1024

/-- `sizeof(gpt_entry)`. -/
def gptEntrySize : Nat := 128

/-- `GPT_HEADER_SIGNATURE`. -/
def gptHeaderSignature : Nat := 0x5452415020494645

/-- `PARTNAME_SZ`. -/
def partnameSz : Nat := 36

/-- `MAX_BLKNAME_LEN`. -/
def maxBlknameLen : Nat := 16

/-- The sizes `nor_info` gives for the NOR chip. -/
structure NorBlk where
  totalBytes : Nat
  blkBytes : Nat
  /-- The GPT was read from [48K, 64K), and the largest chip of `nor_ids` has 64M. -/
  total_ge : 64 * 1024 ≤ totalBytes
  total_le : totalBytes ≤ 64 * 1024 * 1024
  /-- 4K, 32K or 64K. -/
  blk_dvd : blkBytes ∣ 64 * 1024
  blk_dvd_total : blkBytes ∣ totalBytes

/-! ## `part_efi.c` -/

section

-- The GPT image in flash. `gpt_buf` holds its first `gptTableSize` bytes.
variable (buf : Nat → UInt8)

def isGptValid : Bool := le buf gptHeadOffset 8 = gptHeaderSignature

def numPartitionEntries : Nat := le buf (gptHeadOffset + 80) 4

/-- The address of entry `i`. -/
def entryAt (i : Nat) : Nat := gptEntryOffset + gptEntrySize * i

def startingLba (i : Nat) : Nat := le buf (entryAt i + 32) 8

def endingLba (i : Nat) : Nat := le buf (entryAt i + 40) 8

/-- `gpt_part_name_copy`, up to the first NUL. -/
def partitionName (i : Nat) : CStr :=
  ((List.range partnameSz).map fun j => Char.ofNat (buf (entryAt i + 56 + 2 * j)).toNat).takeWhile
    (· ≠ Char.ofNat 0)

/-- `gpt_part_cnt`: the count as an `int`, -EINVAL without a signature. -/
def gptPartCnt : Int :=
  if isGptValid buf then
    if numPartitionEntries buf < 2 ^ 31 then numPartitionEntries buf
    else numPartitionEntries buf - 2 ^ 32
  else -22

structure GptPart where
  name : CStr
  offSects : Nat
  sects : Nat

/-- `first_gpt_part`, of a table that has entries. -/
def firstGptPart : GptPart where
  name := partitionName buf 0
  offSects := u32 (startingLba buf 0)
  sects := u32 (u32 (endingLba buf 0) + 1 - u32 (startingLba buf 0))

/-- `next_gpt_part` for entry `i`. -/
def nextGptPart (i : Nat) : GptPart where
  name := partitionName buf i
  offSects := u32 (startingLba buf i)
  sects := u32 (endingLba buf i + 1 - startingLba buf i)

/-- Entry `i` is in the buffer. -/
def EntryInside (i : Nat) : Prop := entryAt (i + 1) ≤ gptTableSize

instance (i : Nat) : Decidable (EntryInside i) := inferInstanceAs (Decidable (_ ≤ _))

/-- The `n` entries from entry `i` on. -/
def nextParts : Nat → Nat → Option (List GptPart)
  | 0, _ => some []
  | n + 1, i => if EntryInside i then (nextParts n (i + 1)).map (nextGptPart buf i :: ·) else none

/-- `foreach_gpt_part`. -/
def foreachGptPart : Option (List GptPart) :=
  if numPartitionEntries buf = 0 then some []
  else if EntryInside 0 then
    (nextParts buf (numPartitionEntries buf - 1) 1).map (firstGptPart buf :: ·)
  else none

end

/-! ## `register_blk_device` -/

structure NorPart where
  off : Nat
  bytes : Nat
  name : CStr
  eraseFlag : Bool

/-- The entry of `syspart`. -/
def boot0 : NorPart := ⟨0, 48 * 1024, ['b', 'o', 'o', 't', '0'], true⟩

def rootfs : CStr := ['R', 'O', 'O', 'T', 'F', 'S']

def data : CStr := ['d', 'a', 't', 'a']

/-- The partition of a GPT entry; the shifts are in `u32`. -/
def toPart (p : GptPart) : NorPart where
  off := u32 (p.offSects * 512 : Nat)
  bytes := u32 (p.sects * 512 : Nat)
  name := p.name.take (maxBlknameLen - 1)
  eraseFlag := p.name.take (maxBlknameLen - 1) ≠ rootfs ∧ p.name.take (maxBlknameLen - 1) ≠ data

/-- `offset += part->bytes` in `unsigned int`. -/
def addBytes (offset : Nat) (part : NorPart) : Nat := u32 (offset + part.bytes : Nat)

/-- The last partition gets the rest of the device. -/
def growLast (dev : NorBlk) (offset : Nat) (part : NorPart) : NorPart :=
  { part with bytes := u64 (dev.totalBytes - u64 (offset - part.bytes)) }

/-- `register_blk_device`: its result and `norblk.parts`. -/
def registerBlkDevice (dev : NorBlk) (buf : Nat → UInt8) : Option (Int × List NorPart) :=
  if gptPartCnt buf < 0 then some (gptPartCnt buf, [])
  else
    (foreachGptPart buf).map fun gptParts =>
      let parts := gptParts.map toPart
      let offset := parts.foldl addBytes (boot0.bytes + gptTableSize)
      (gptPartCnt buf, (boot0 :: parts).modify parts.length (growLast dev offset))

/-- Partition `k` of the table is registered: its size is a multiple of the block size. -/
def Registered (dev : NorBlk) (parts : List NorPart) (k : Nat) (p : NorPart) : Prop :=
  parts[k]? = some p ∧ dev.blkBytes ∣ p.bytes

/-! ## What the table should be -/

/-- The first byte of entry `i`. -/
def entryOff (buf : Nat → UInt8) (i : Nat) : Nat := startingLba buf i * 512

def entryBytes (buf : Nat → UInt8) (i : Nat) : Nat :=
  (endingLba buf i + 1) * 512 - startingLba buf i * 512

/-- A GPT with a signature, whose entries are inside the device and pairwise disjoint. -/
structure ValidGpt (dev : NorBlk) (buf : Nat → UInt8) : Prop where
  valid : isGptValid buf = true
  start_le : ∀ i < numPartitionEntries buf, startingLba buf i ≤ endingLba buf i
  inside : ∀ i < numPartitionEntries buf, (endingLba buf i + 1) * 512 ≤ dev.totalBytes
  disjoint : ∀ i < numPartitionEntries buf, ∀ j < numPartitionEntries buf, i ≠ j →
    endingLba buf i < startingLba buf j ∨ endingLba buf j < startingLba buf i

/-- The registered partitions are inside the device and disjoint, and each covers its GPT
entry exactly; only the last may grow. -/
structure Sound (dev : NorBlk) (buf : Nat → UInt8) (parts : List NorPart) : Prop where
  inside : ∀ k p, Registered dev parts k p → p.off + p.bytes ≤ dev.totalBytes
  entry : ∀ i p, Registered dev parts (i + 1) p → p.off = entryOff buf i ∧
    (p.bytes = entryBytes buf i ∨ i + 1 = numPartitionEntries buf ∧ entryBytes buf i ≤ p.bytes)
  disjoint : ∀ j k p q, j ≠ k → Registered dev parts j p → Registered dev parts k q →
    p.off + p.bytes ≤ q.off ∨ q.off + q.bytes ≤ p.off

/-- The sum of the sizes of the first `n` entries. -/
def bytesBefore (buf : Nat → UInt8) (n : Nat) : Nat := ((List.range n).map (entryBytes buf)).sum

/-- The size that decides whether the partition of entry `i` is registered: its own, and for
the last one that of the others. -/
def checkedBytes (buf : Nat → UInt8) (i : Nat) : Nat :=
  if i + 1 = numPartitionEntries buf then bytesBefore buf i else entryBytes buf i

/-- The tables `register_blk_device` gets right: the entries fit the buffer and start behind
`boot0`, and the last one has room for the rest of the device. -/
structure Fits (dev : NorBlk) (buf : Nat → UInt8) : Prop where
  count : numPartitionEntries buf ≤ 120
  boot : dev.blkBytes ∣ boot0.bytes → ∀ i < numPartitionEntries buf,
    dev.blkBytes ∣ checkedBytes buf i → boot0.bytes ≤ entryOff buf i
  last : ∀ m, numPartitionEntries buf = m + 1 → dev.blkBytes ∣ bytesBefore buf m →
    entryOff buf m ≤ 64 * 1024 + bytesBefore buf m ∧
    64 * 1024 + bytesBefore buf m + entryBytes buf m ≤ dev.totalBytes ∧
    ∀ i < m, dev.blkBytes ∣ entryBytes buf i → entryOff buf i < entryOff buf m ∨
      entryOff buf m + (dev.totalBytes - (64 * 1024 + bytesBefore buf m)) ≤ entryOff buf i

/-! ## The table without truncation -/

section

variable {dev : NorBlk} {buf : Nat → UInt8} {n i : Nat}

theorem firstGptPart_eq : firstGptPart buf = nextGptPart buf 0 := by
  have h : u32 (u32 (endingLba buf 0) + 1 - u32 (startingLba buf 0)) =
      u32 (endingLba buf 0 + 1 - startingLba buf 0) := by
    unfold u32
    omega
  rw [firstGptPart, nextGptPart, h]

theorem entryInside_iff : EntryInside i ↔ i < 120 := by
  unfold EntryInside entryAt gptEntryOffset gptEntrySize gptTableSize
  omega

theorem nextParts_eq (h : i + n ≤ 120) :
    nextParts buf n i = some ((List.range' i n).map (nextGptPart buf)) := by
  induction n generalizing i with
  | zero => rfl
  | succ n ih => rw [nextParts, if_pos (entryInside_iff.2 (by omega)), ih (by omega)]; rfl

theorem nextParts_eq_none (hi : i ≤ 120) (h : 120 < i + n) : nextParts buf n i = none := by
  induction n generalizing i with
  | zero => omega
  | succ n ih =>
    rw [nextParts]
    split
    next hin =>
      rw [ih (by have := entryInside_iff.1 hin; omega) (by omega)]
      rfl
    · rfl

/-- The walk stays in the buffer for up to 120 entries. -/
theorem foreachGptPart_eq (h : numPartitionEntries buf ≤ 120) :
    foreachGptPart buf = some ((List.range (numPartitionEntries buf)).map (nextGptPart buf)) := by
  unfold foreachGptPart
  split
  next h0 => rw [h0]; rfl
  next h0 =>
    rw [if_pos (entryInside_iff.2 (by omega)), nextParts_eq (by omega), firstGptPart_eq]
    obtain ⟨m, hm⟩ : ∃ m, numPartitionEntries buf = m + 1 := Nat.exists_eq_succ_of_ne_zero h0
    rw [hm, List.range_eq_range', List.range'_succ]
    rfl

theorem foreachGptPart_eq_none (h : 120 < numPartitionEntries buf) : foreachGptPart buf = none := by
  unfold foreachGptPart
  rw [if_neg (by omega), if_pos (entryInside_iff.2 (by omega)), nextParts_eq_none (by omega) (by omega)]
  rfl

/-- An entry inside the device is converted without truncation. -/
theorem toPart_nextGptPart (hv : ValidGpt dev buf) (hi : i < numPartitionEntries buf) :
    (toPart (nextGptPart buf i)).off = entryOff buf i ∧
      (toPart (nextGptPart buf i)).bytes = entryBytes buf i := by
  have h1 := hv.start_le i hi
  have h2 := hv.inside i hi
  have h3 := dev.total_le
  simp only [toPart, nextGptPart, entryOff, entryBytes, u32]
  omega

theorem bytesBefore_succ (buf : Nat → UInt8) (n : Nat) :
    bytesBefore buf (n + 1) = bytesBefore buf n + entryBytes buf n := by
  simp [bytesBefore, List.range_succ]

theorem bytesBefore_eq_sum (buf : Nat → UInt8) (n : Nat) :
    bytesBefore buf n = ∑ i ∈ Finset.range n, entryBytes buf i := by
  induction n with
  | zero => rfl
  | succ n ih => rw [bytesBefore_succ, Finset.sum_range_succ, ih]

/-- Disjoint entries inside the device take up no more than the device. -/
theorem bytesBefore_le (hv : ValidGpt dev buf) (hn : n ≤ numPartitionEntries buf) :
    bytesBefore buf n ≤ dev.totalBytes := by
  have hsub : (Finset.range n).biUnion
      (fun i => Finset.Ico (startingLba buf i * 512) ((endingLba buf i + 1) * 512)) ⊆
      Finset.range dev.totalBytes := by
    intro x hx
    obtain ⟨i, hi, hx⟩ := Finset.mem_biUnion.1 hx
    have h1 := hv.inside i ((Finset.mem_range.1 hi).trans_le hn)
    have h2 := (Finset.mem_Ico.1 hx).2
    exact Finset.mem_range.2 (by omega)
  have hcard := Finset.card_le_card hsub
  rw [Finset.card_biUnion, Finset.card_range] at hcard
  · rw [bytesBefore_eq_sum]
    simpa only [Nat.card_Ico, entryBytes] using hcard
  · intro i hi j hj hij
    have hi' := (Finset.mem_range.1 hi).trans_le hn
    have hj' := (Finset.mem_range.1 hj).trans_le hn
    refine Finset.disjoint_left.2 fun x hx hx' => ?_
    rw [Finset.mem_Ico] at hx hx'
    rcases hv.disjoint i hi' j hj' hij with h | h
    · omega
    · omega

theorem entryBytes_pos (hv : ValidGpt dev buf) (hi : i < numPartitionEntries buf) :
    0 < entryBytes buf i := by
  have := hv.start_le i hi
  unfold entryBytes
  omega

theorem entryBytes_end (hv : ValidGpt dev buf) (hi : i < numPartitionEntries buf) :
    entryOff buf i + entryBytes buf i = (endingLba buf i + 1) * 512 := by
  have := hv.start_le i hi
  unfold entryOff entryBytes
  omega

theorem foldl_addBytes {l : List NorPart} {o : Nat} (h : o + (l.map (·.bytes)).sum < 2 ^ 32) :
    l.foldl addBytes o = o + (l.map (·.bytes)).sum := by
  induction l generalizing o with
  | nil => rfl
  | cons p l ih =>
    rw [List.map_cons, List.sum_cons] at h
    rw [List.foldl_cons, addBytes, u32_eq (by omega), ih (by omega), List.map_cons, List.sum_cons]
    omega

/-- The partitions of the entries, before the last one is grown. -/
def entryParts (buf : Nat → UInt8) : List NorPart :=
  (List.range (numPartitionEntries buf)).map fun i => toPart (nextGptPart buf i)

theorem entryParts_offset (hv : ValidGpt dev buf) :
    (entryParts buf).foldl addBytes (boot0.bytes + gptTableSize) =
      64 * 1024 + bytesBefore buf (numPartitionEntries buf) := by
  have hsum : ((entryParts buf).map (·.bytes)).sum = bytesBefore buf (numPartitionEntries buf) := by
    rw [entryParts, List.map_map, bytesBefore]
    refine congrArg List.sum (List.map_congr_left fun i hi => ?_)
    rw [Function.comp_apply, (toPart_nextGptPart hv (List.mem_range.1 hi)).2]
  have hle := bytesBefore_le hv (le_refl _)
  have hdev := dev.total_le
  have h0 : boot0.bytes + gptTableSize = 64 * 1024 := by simp only [boot0, gptTableSize]
  rw [foldl_addBytes (by rw [hsum, h0]; omega), hsum, h0]

theorem num_lt (hv : ValidGpt dev buf) : numPartitionEntries buf < 2 ^ 31 := by
  have hle := bytesBefore_le hv (le_refl _)
  have hdev := dev.total_le
  have : ∀ n ≤ numPartitionEntries buf, n ≤ bytesBefore buf n := by
    intro n hn
    induction n with
    | zero => exact Nat.zero_le _
    | succ n ih =>
      have := entryBytes_pos hv (show n < numPartitionEntries buf from hn)
      have := ih (by omega)
      rw [bytesBefore_succ]
      omega
  have := this _ (le_refl _)
  omega

theorem gptPartCnt_eq (hv : ValidGpt dev buf) : gptPartCnt buf = numPartitionEntries buf := by
  rw [gptPartCnt, if_pos hv.valid, if_pos (num_lt hv)]

/-- The table for a valid GPT of up to 120 entries. -/
theorem registerBlkDevice_eq (hv : ValidGpt dev buf) (h : numPartitionEntries buf ≤ 120) :
    registerBlkDevice dev buf = some ((numPartitionEntries buf : Int),
      (boot0 :: entryParts buf).modify (numPartitionEntries buf)
        (growLast dev (64 * 1024 + bytesBefore buf (numPartitionEntries buf)))) := by
  have hlen : (entryParts buf).length = numPartitionEntries buf := by simp [entryParts]
  have hmap : ((List.range (numPartitionEntries buf)).map (nextGptPart buf)).map toPart =
      entryParts buf := by rw [List.map_map]; rfl
  unfold registerBlkDevice
  rw [gptPartCnt_eq hv, if_neg (by omega), foreachGptPart_eq h]
  simp only [Option.map_some, hmap, entryParts_offset hv, hlen]

theorem registerBlkDevice_eq_none (hv : ValidGpt dev buf) (h : 120 < numPartitionEntries buf) :
    registerBlkDevice dev buf = none := by
  unfold registerBlkDevice
  rw [gptPartCnt_eq hv, if_neg (by omega), foreachGptPart_eq_none h]
  rfl

/-- What the last partition gets. -/
def lastBytes (dev : NorBlk) (buf : Nat → UInt8) (m : Nat) : Nat :=
  u64 (dev.totalBytes - u64 ((64 * 1024 + bytesBefore buf m : Nat)))

theorem growLast_bytes {m : Nat} {p : NorPart} (hp : p.bytes = entryBytes buf m) :
    (growLast dev (64 * 1024 + bytesBefore buf (m + 1)) p).bytes = lastBytes dev buf m := by
  have h : ((64 * 1024 + (bytesBefore buf m + entryBytes buf m) : Nat) : Int) - entryBytes buf m =
      (64 * 1024 + bytesBefore buf m : Nat) := by omega
  simp only [growLast, lastBytes, bytesBefore_succ, hp, h]

/-- The table of `m + 1` entries. -/
def table (dev : NorBlk) (buf : Nat → UInt8) (m : Nat) : List NorPart :=
  (boot0 :: entryParts buf).modify (m + 1) (growLast dev (64 * 1024 + bytesBefore buf (m + 1)))

/-- The table entry by entry: `boot0`, and the entries with the last one grown. -/
theorem getElem?_table {m k : Nat} (hv : ValidGpt dev buf)
    (hn : numPartitionEntries buf = m + 1) {p : NorPart} (hp : (table dev buf m)[k]? = some p) :
    k = 0 ∧ p = boot0 ∨ ∃ i, k = i + 1 ∧ i ≤ m ∧ p.off = entryOff buf i ∧
      p.bytes = if i = m then lastBytes dev buf m else entryBytes buf i := by
  rw [table, List.getElem?_modify] at hp
  cases k with
  | zero =>
    left
    simpa [eq_comm] using hp
  | succ i =>
    right
    obtain ⟨q, hq, hp⟩ := Option.map_eq_some_iff.1 hp
    rw [List.getElem?_cons_succ, entryParts, List.getElem?_map] at hq
    obtain ⟨j, hj, hq⟩ := Option.map_eq_some_iff.1 hq
    obtain ⟨hi, rfl⟩ := List.getElem?_eq_some_iff.1 hj
    rw [List.length_range, hn] at hi
    rw [List.getElem_range] at hq
    obtain ⟨ho, hb⟩ := toPart_nextGptPart hv (show i < numPartitionEntries buf by omega)
    rw [hq] at ho hb
    refine ⟨i, rfl, by omega, ?_⟩
    by_cases him : i = m
    · subst him
      rw [if_pos rfl] at hp
      rw [← hp, if_pos rfl]
      exact ⟨ho, growLast_bytes hb⟩
    · rw [if_neg (by omega)] at hp
      rw [← hp, if_neg him]
      exact ⟨ho, hb⟩

theorem table_boot0 {m : Nat} : (table dev buf m)[0]? = some boot0 := by
  simp [table]

/-- Every entry has its partition in the table. -/
theorem table_entry {m : Nat} (hv : ValidGpt dev buf) (hn : numPartitionEntries buf = m + 1)
    (hi : i ≤ m) : ∃ p, (table dev buf m)[i + 1]? = some p ∧ p.off = entryOff buf i ∧
      p.bytes = if i = m then lastBytes dev buf m else entryBytes buf i := by
  have hlen : i + 1 < (table dev buf m).length := by
    simp [table, entryParts, hn]
    omega
  have hp := List.getElem?_eq_getElem hlen
  rcases getElem?_table hv hn hp with ⟨h0, -⟩ | ⟨j, hj, -, hoff, hbytes⟩
  · omega
  · obtain rfl : i = j := by omega
    exact ⟨_, hp, hoff, hbytes⟩

theorem lastBytes_cases {m : Nat} (hv : ValidGpt dev buf) (hm : m ≤ numPartitionEntries buf) :
    64 * 1024 + bytesBefore buf m ≤ dev.totalBytes ∧
        lastBytes dev buf m + (64 * 1024 + bytesBefore buf m) = dev.totalBytes ∨
      dev.totalBytes < 64 * 1024 + bytesBefore buf m ∧ dev.totalBytes < lastBytes dev buf m ∧
        lastBytes dev buf m + (64 * 1024 + bytesBefore buf m) = 2 ^ 64 + dev.totalBytes := by
  have hle := bytesBefore_le hv hm
  have hdev := dev.total_le
  unfold lastBytes u64
  omega

/-- Whether the last partition is registered depends on the sizes of the others. -/
theorem dvd_lastBytes {m : Nat} (hv : ValidGpt dev buf) (hm : m ≤ numPartitionEntries buf) :
    dev.blkBytes ∣ lastBytes dev buf m ↔ dev.blkBytes ∣ bytesBefore buf m := by
  have hsum : dev.blkBytes ∣ lastBytes dev buf m + (64 * 1024 + bytesBefore buf m) := by
    rcases lastBytes_cases hv hm with ⟨-, h⟩ | ⟨-, -, h⟩
    · rw [h]
      exact dev.blk_dvd_total
    · rw [h]
      exact Nat.dvd_add (dev.blk_dvd.trans (by decide)) dev.blk_dvd_total
  constructor
  · intro h
    exact (Nat.dvd_add_right dev.blk_dvd).1 ((Nat.dvd_add_right h).1 hsum)
  · intro h
    exact (Nat.dvd_add_iff_left (Nat.dvd_add dev.blk_dvd h)).2 hsum

theorem dvd_bytes_iff {m : Nat} {p : NorPart} (hv : ValidGpt dev buf)
    (hn : numPartitionEntries buf = m + 1)
    (hp : p.bytes = if i = m then lastBytes dev buf m else entryBytes buf i) :
    dev.blkBytes ∣ p.bytes ↔ dev.blkBytes ∣ checkedBytes buf i := by
  unfold checkedBytes
  by_cases him : i = m
  · subst him
    rw [hp, if_pos rfl, if_pos hn.symm, dvd_lastBytes hv (by omega)]
  · rw [hp, if_neg him, if_neg (by omega)]

/-! ## Which tables are right -/

/-- Without entries only `boot0` is there, and it grows. -/
theorem sound_empty (hn : numPartitionEntries buf = 0) :
    Sound dev buf ((boot0 :: entryParts buf).modify (numPartitionEntries buf)
      (growLast dev (64 * 1024 + bytesBefore buf (numPartitionEntries buf)))) := by
  have hparts : (boot0 :: entryParts buf).modify (numPartitionEntries buf)
      (growLast dev (64 * 1024 + bytesBefore buf (numPartitionEntries buf))) =
      [growLast dev (64 * 1024) boot0] := by
    simp [entryParts, hn, bytesBefore]
  have hge := dev.total_ge
  have hle := dev.total_le
  rw [hparts]
  constructor
  · rintro (- | k) p ⟨hp, -⟩
    · cases hp
      simp only [growLast, boot0, u64]
      omega
    · cases hp
  · rintro i p ⟨hp, -⟩
    cases hp
  · rintro (- | j) (- | k) p q hjk ⟨hp, -⟩ ⟨hq, -⟩
    · exact absurd rfl hjk
    · cases hq
    · cases hp
    · cases hp

theorem fits_of_sound {m : Nat} (hv : ValidGpt dev buf) (hn : numPartitionEntries buf = m + 1)
    (hcount : numPartitionEntries buf ≤ 120) (hs : Sound dev buf (table dev buf m)) :
    Fits dev buf := by
  refine ⟨hcount, fun hboot i hi hchk => ?_, fun m' hn' hdvd => ?_⟩
  · obtain ⟨p, hp, hoff, hbytes⟩ := table_entry hv hn (show i ≤ m by omega)
    have hreg : Registered dev (table dev buf m) (i + 1) p :=
      ⟨hp, (dvd_bytes_iff hv hn hbytes).2 hchk⟩
    have hpos := entryBytes_pos hv hi
    have hent := (hs.entry i p hreg).2
    rcases hs.disjoint 0 (i + 1) boot0 p (by omega) ⟨table_boot0, hboot⟩ hreg with h | h
    · have h0 : boot0.off = 0 := rfl
      omega
    · have h0 : boot0.off = 0 := rfl
      omega
  · obtain rfl : m = m' := by omega
    obtain ⟨p, hp, hoff, hbytes⟩ := table_entry hv hn (le_refl m)
    rw [if_pos rfl] at hbytes
    have hreg : Registered dev (table dev buf m) (m + 1) p :=
      ⟨hp, by rw [hbytes, dvd_lastBytes hv (by omega)]; exact hdvd⟩
    have hin := hs.inside _ _ hreg
    have hent := (hs.entry m p hreg).2
    have hcases := lastBytes_cases hv (show m ≤ numPartitionEntries buf by omega)
    refine ⟨by omega, by omega, fun i hi hdvdi => ?_⟩
    obtain ⟨q, hq, hqoff, hqbytes⟩ := table_entry hv hn (show i ≤ m by omega)
    rw [if_neg (show i ≠ m by omega)] at hqbytes
    have hpos := entryBytes_pos hv (show i < numPartitionEntries buf by omega)
    rcases hs.disjoint (i + 1) (m + 1) q p (by omega) ⟨hq, by rw [hqbytes]; exact hdvdi⟩ hreg with h | h
    · omega
    · omega

theorem sound_of_fits {m : Nat} (hv : ValidGpt dev buf) (hn : numPartitionEntries buf = m + 1)
    (hf : Fits dev buf) : Sound dev buf (table dev buf m) := by
  have hlast : ∀ p : NorPart, p.bytes = lastBytes dev buf m → dev.blkBytes ∣ p.bytes →
      dev.blkBytes ∣ bytesBefore buf m := by
    intro p hp hdvd
    rwa [hp, dvd_lastBytes hv (by omega)] at hdvd
  have hcases := lastBytes_cases hv (show m ≤ numPartitionEntries buf by omega)
  constructor
  · rintro k p ⟨hp, hdvd⟩
    rcases getElem?_table hv hn hp with ⟨-, rfl⟩ | ⟨i, -, hi, hoff, hbytes⟩
    · have := dev.total_ge
      simp only [boot0]
      omega
    · by_cases him : i = m
      · subst him
        rw [if_pos rfl] at hbytes
        have h := hf.last i hn (hlast p hbytes hdvd)
        omega
      · rw [if_neg him] at hbytes
        have h := hv.inside i (by omega)
        have hend := entryBytes_end hv (show i < numPartitionEntries buf by omega)
        omega
  · rintro k p ⟨hp, hdvd⟩
    rcases getElem?_table hv hn hp with ⟨h0, -⟩ | ⟨i, hk, hi, hoff, hbytes⟩
    · omega
    · obtain rfl : k = i := by omega
      refine ⟨hoff, ?_⟩
      by_cases him : k = m
      · subst him
        rw [if_pos rfl] at hbytes
        have h := hf.last k hn (hlast p hbytes hdvd)
        exact .inr ⟨hn.symm, by omega⟩
      · rw [if_neg him] at hbytes
        exact .inl hbytes
  · have hlt : ∀ j k p q, j < k → Registered dev (table dev buf m) j p →
        Registered dev (table dev buf m) k q →
        p.off + p.bytes ≤ q.off ∨ q.off + q.bytes ≤ p.off := by
      rintro j k p q hjk ⟨hp, hpd⟩ ⟨hq, hqd⟩
      rcases getElem?_table hv hn hq with ⟨h0, -⟩ | ⟨i, hk, hi, hoff, hbytes⟩
      · omega
      have hchk := (dvd_bytes_iff hv hn hbytes).1 hqd
      rcases getElem?_table hv hn hp with ⟨-, rfl⟩ | ⟨i', hj, hi', hoff', hbytes'⟩
      · have hboot := hf.boot hpd i (by omega) hchk
        have h0 : boot0.off = 0 := rfl
        omega
      -- two entries, of which the first one is not the last
      rw [if_neg (show i' ≠ m by omega)] at hbytes'
      have hend' := entryBytes_end hv (show i' < numPartitionEntries buf by omega)
      have hdis := hv.disjoint i' (by omega) i (by omega) (by omega)
      have hend := entryBytes_end hv (show i < numPartitionEntries buf by omega)
      unfold entryOff at hoff hoff' hend hend'
      by_cases him : i = m
      · subst him
        rw [if_pos rfl] at hbytes
        obtain ⟨-, hfit, hroom⟩ := hf.last i hn (hlast q hbytes hqd)
        have hroom' := hroom i' (by omega) (by rwa [hbytes'] at hpd)
        unfold entryOff at hroom'
        omega
      · rw [if_neg him] at hbytes
        omega
    intro j k p q hjk hp hq
    rcases Nat.lt_or_gt_of_ne hjk with h | h
    · exact hlt j k p q h hp hq
    · exact (hlt k j q p h hq hp).symm

/-- For a valid GPT, no entry is read outside the buffer and the registered partitions
are right exactly when the table fits. -/
theorem registerBlkDevice_sound_iff (hv : ValidGpt dev buf) :
    (∃ ret parts, registerBlkDevice dev buf = some (ret, parts) ∧ Sound dev buf parts) ↔
      Fits dev buf := by
  rcases Nat.eq_zero_or_eq_succ_pred (numPartitionEntries buf) with hn | hn
  · constructor
    · intro _
      exact ⟨by omega, by intro _ i hi; omega, by intro m hm; omega⟩
    · intro _
      exact ⟨_, _, registerBlkDevice_eq hv (by omega), sound_empty hn⟩
  · constructor
    · rintro ⟨ret, parts, hreg, hs⟩
      have hcount : numPartitionEntries buf ≤ 120 := by
        by_contra hc
        rw [registerBlkDevice_eq_none hv (not_le.1 hc)] at hreg
        cases hreg
      rw [registerBlkDevice_eq hv hcount] at hreg
      cases hreg
      rw [hn] at hs
      exact fits_of_sound hv hn hcount hs
    · intro hf
      refine ⟨_, _, registerBlkDevice_eq hv hf.count, ?_⟩
      rw [hn]
      exact sound_of_fits hv hn hf

end

/-! ## A gap before the only entry -/

/-- A device of 1M with 4K blocks. -/
def nor1M : NorBlk where
  totalBytes := 1024 * 1024
  blkBytes := 4096
  total_ge := by decide
  total_le := by decide
  blk_dvd := by decide
  blk_dvd_total := by decide

/-- A GPT with one entry of 64K, from sector `128 + 256 * page` on. -/
def oneEntry (page : UInt8) (i : Nat) : UInt8 :=
  if 512 ≤ i ∧ i < 520 then [0x45, 0x46, 0x49, 0x20, 0x50, 0x41, 0x52, 0x54].getD (i - 512) 0
  else if i = 592 then 1
  else if i = 1056 then 128
  else if i = 1064 then 255
  else if i = 1057 ∨ i = 1065 then page
  else 0

/-- A GPT with one entry is valid as soon as that entry is. -/
theorem validGpt_one (dev : NorBlk) {buf : Nat → UInt8} (hvalid : isGptValid buf = true)
    (hcount : numPartitionEntries buf = 1) (hle : startingLba buf 0 ≤ endingLba buf 0)
    (hin : (endingLba buf 0 + 1) * 512 ≤ dev.totalBytes) : ValidGpt dev buf := by
  refine ⟨hvalid, fun i hi => ?_, fun i hi => ?_, fun i hi j hj hne => ?_⟩ <;> rw [hcount] at hi
  · rwa [Nat.lt_one_iff.1 hi]
  · rwa [Nat.lt_one_iff.1 hi]
  · rw [hcount] at hj
    exact absurd ((Nat.lt_one_iff.1 hi).trans (Nat.lt_one_iff.1 hj).symm) hne

/-- What the two tables say. -/
theorem oneEntry_eval : ((isGptValid (oneEntry 0) = true ∧ isGptValid (oneEntry 1) = true) ∧
      (numPartitionEntries (oneEntry 0) = 1 ∧ numPartitionEntries (oneEntry 1) = 1) ∧
      (startingLba (oneEntry 0) 0 ≤ endingLba (oneEntry 0) 0 ∧
        startingLba (oneEntry 1) 0 ≤ endingLba (oneEntry 1) 0) ∧
      (endingLba (oneEntry 0) 0 + 1) * 512 ≤ nor1M.totalBytes ∧
      (endingLba (oneEntry 1) 0 + 1) * 512 ≤ nor1M.totalBytes) ∧
    boot0.bytes ≤ entryOff (oneEntry 0) 0 ∧
    entryOff (oneEntry 0) 0 ≤ 64 * 1024 + bytesBefore (oneEntry 0) 0 ∧
    64 * 1024 + bytesBefore (oneEntry 0) 0 + entryBytes (oneEntry 0) 0 ≤ nor1M.totalBytes ∧
    (registerBlkDevice nor1M (oneEntry 1)).map (fun r => r.2.map fun p => (p.off, p.bytes)) =
      some [(0, 49152), (196608, 983040)] := by
  decide +kernel

theorem oneEntry_valid : ValidGpt nor1M (oneEntry 0) ∧ ValidGpt nor1M (oneEntry 1) := by
  obtain ⟨⟨hvalid, hcount, hle, hin, hin'⟩, -⟩ := oneEntry_eval
  exact ⟨validGpt_one _ hvalid.1 hcount.1 hle.1 hin, validGpt_one _ hvalid.2 hcount.2 hle.2 hin'⟩

/-- From sector 128 on, right behind the GPT: the partition grows to the end of the device. -/
theorem registerBlkDevice_sound_oneEntry :
    ∃ ret parts, registerBlkDevice nor1M (oneEntry 0) = some (ret, parts) ∧
      Sound nor1M (oneEntry 0) parts := by
  obtain ⟨⟨-, ⟨hcount, -⟩, -⟩, hboot, hoff, hend, -⟩ := oneEntry_eval
  refine (registerBlkDevice_sound_iff oneEntry_valid.1).2 ⟨by omega, fun _ i hi _ => ?_, ?_⟩
  · rw [hcount] at hi
    rwa [Nat.lt_one_iff.1 hi]
  · intro m hm _
    obtain rfl : m = 0 := by omega
    exact ⟨hoff, hend, fun i hi => absurd hi (Nat.not_lt_zero i)⟩

/-- From sector 384 on: the partition gets the 960K that would be left behind the GPT,
and runs 128K past the end of the device. -/
theorem registerBlkDevice_gap_past_end :
    ValidGpt nor1M (oneEntry 1) ∧
      (registerBlkDevice nor1M (oneEntry 1)).map (fun r => r.2.map fun p => (p.off, p.bytes)) =
        some [(0, 49152), (196608, 983040)] ∧
      ¬ ∃ ret parts, registerBlkDevice nor1M (oneEntry 1) = some (ret, parts) ∧
        Sound nor1M (oneEntry 1) parts := by
  have hparts : (registerBlkDevice nor1M (oneEntry 1)).map
      (fun r => r.2.map fun p => (p.off, p.bytes)) = some [(0, 49152), (196608, 983040)] :=
    oneEntry_eval.2.2.2.2
  refine ⟨oneEntry_valid.2, hparts, ?_⟩
  rintro ⟨ret, parts, hreg, hs⟩
  rw [hreg, Option.map_some, Option.some.injEq] at hparts
  have hone := congrArg (·[1]?) hparts
  obtain ⟨p, hp, hpe⟩ := Option.map_eq_some_iff.1 ((List.getElem?_map ..).symm.trans hone)
  have hoff : p.off = 196608 := congrArg Prod.fst hpe
  have hbytes : p.bytes = 983040 := congrArg Prod.snd hpe
  have hin := hs.inside 1 p ⟨hp, by rw [hbytes]; decide⟩
  have htotal : nor1M.totalBytes = 1048576 := by decide
  omega

end Melis.Blkpart
