import Melis.Spinor.Driver
import Mathlib.Data.Nat.Bits

/-!
# Erasing a range of a chip

`eraseSector` is `spinor_erase_sector` on any chip, with the calls around its
commands as outcomes. The commands of a range on the 4K grid tile it
(`Tiles`): each starts where the one before ends, so every byte is erased once.
The check of the range adds in 32 bits, and the start of the range is only
looked at by the loops.
-/

namespace Melis.Spinor

open Lib

/-- How the calls around the commands end, with 0 for success, and which commands succeed. -/
structure EraseFate where
  norLock : Int
  norUnprotectDo : Int
  succeeds : Cmd → Bool
  norUnlock : Int

/-- All of them succeed. -/
structure EraseFate.Good (fate : EraseFate) : Prop where
  lock : fate.norLock = 0
  unprotect : fate.norUnprotectDo = 0
  succeeds : ∀ c, fate.succeeds c = true
  unlock : fate.norUnlock = 0

/-- A chip that can be erased: its size, and whether it has no 64K command. -/
structure EraseInfo where
  totalSize : UInt32
  noErase64k : Bool

/-- The loops of `spinor_erase_sector` over the 64K, 32K and 4K commands. -/
def eraseRange (info : EraseInfo) (succeeds : Cmd → Bool) (addr size : Nat) : List Cmd × Int :=
  let p64 := eraseLoop succeeds sz64K info.noErase64k (size / sz64K) addr size
  if p64.ok then
    let p32 := eraseLoop succeeds sz32K false (p64.size / sz32K) p64.addr p64.size
    if p32.ok then
      let p4 := eraseLoop succeeds sz4K false (p32.size / sz4K) p32.addr p32.size
      (p64.cmds ++ p32.cmds ++ p4.cmds, if p4.ok then if p4.size ≠ 0 then -22 else 0 else -1)
    else (p64.cmds ++ p32.cmds, -1)
  else (p64.cmds, -1)

/-- What `spinor_erase_sector` does with the lock held. -/
def eraseLocked (info : EraseInfo) (fate : EraseFate) (addr size : UInt32) : List Cmd × Int :=
  if size.toNat % sz4K ≠ 0 then ([], -22)
  else if info.totalSize < addr + size then ([], -22)
  else if fate.norUnprotectDo ≠ 0 then ([], fate.norUnprotectDo)
  else if addr = 0 ∧ size = info.totalSize then
    ([.eraseAll], if fate.succeeds .eraseAll then 0 else -1)
  else eraseRange info fate.succeeds addr.toNat size.toNat

/-- `spinor_erase_sector`: the commands issued and the result. -/
def eraseSector (info : EraseInfo) (fate : EraseFate) (addr size : UInt32) : List Cmd × Int :=
  if fate.norLock ≠ 0 then ([], fate.norLock)
  else
    let r := eraseLocked info fate addr size
    -- -EBUSY
    (r.1, if fate.norUnlock ≠ 0 then -16 else r.2)

instance (c : Cmd) (x : Nat) : Decidable (c.Touches x) :=
  match c with
  | .program addr data =>
    inferInstanceAs (Decidable (∃ i, i < data.length ∧
      x = alignDown addr norPageSize + (addr + i) % norPageSize))
  | .erase unit addr =>
    inferInstanceAs (Decidable (alignDown addr unit ≤ x ∧ x < alignDown addr unit + unit))
  | .eraseAll => inferInstanceAs (Decidable True)

/-- How many of the commands work on the byte `x`. -/
def hits (cmds : List Cmd) (x : Nat) : Nat := cmds.countP fun c => c.Touches x

/-! ## Tilings -/

/-- Aligned erase commands, one after the other, from `lo` to `hi`. -/
def Tiles : Nat → List Cmd → Nat → Prop
  | lo, [], hi => lo = hi
  | lo, c :: cmds, hi => ∃ unit, c = .erase unit lo ∧ lo % unit = 0 ∧ Tiles (lo + unit) cmds hi

section

variable {lo mid hi x : Nat} {cmds cmds' : List Cmd}

theorem Tiles.append (h : Tiles lo cmds mid) (h' : Tiles mid cmds' hi) :
    Tiles lo (cmds ++ cmds') hi := by
  induction cmds generalizing lo with
  | nil =>
    obtain rfl : lo = mid := h
    exact h'
  | cons c cmds ih =>
    obtain ⟨unit, hc, halign, h⟩ := h
    exact ⟨unit, hc, halign, ih h⟩

theorem Tiles.le (h : Tiles lo cmds hi) : lo ≤ hi := by
  induction cmds generalizing lo with
  | nil => exact Nat.le_of_eq h
  | cons c cmds ih =>
    obtain ⟨unit, -, -, h⟩ := h
    exact Nat.le_trans (Nat.le_add_right lo unit) (ih h)

/-- A tiling erases the bytes between its ends, each once. -/
theorem Tiles.hits (h : Tiles lo cmds hi) (x : Nat) :
    hits cmds x = if lo ≤ x ∧ x < hi then 1 else 0 := by
  induction cmds generalizing lo with
  | nil =>
    obtain rfl : lo = hi := h
    exact (if_neg (by omega)).symm
  | cons c cmds ih =>
    obtain ⟨unit, rfl, halign, h⟩ := h
    have hle := h.le
    have hrest := ih h
    unfold Spinor.hits at hrest ⊢
    rw [List.countP_cons, hrest]
    simp only [decide_eq_true_eq, erase_touches halign]
    by_cases h1 : lo + unit ≤ x ∧ x < hi
    · rw [if_pos h1, if_neg (by omega), if_pos (by omega)]
    · by_cases h2 : lo ≤ x ∧ x < lo + unit
      · rw [if_neg h1, if_pos h2, if_pos (by omega)]
      · rw [if_neg h1, if_neg h2, if_neg (by omega)]

end

section

variable {succeeds : Cmd → Bool} {unit n addr size : Nat} (stop : Bool)

/-- One loop tiles what it leaves behind. -/
theorem eraseLoop_tiles (hs : ∀ c, succeeds c = true) (hn : n * unit ≤ size)
    (hb : addr + size < 2 ^ 32) :
    Tiles addr (eraseLoop succeeds unit stop n addr size).cmds
      (eraseLoop succeeds unit stop n addr size).addr := by
  induction n generalizing addr size with
  | zero => exact rfl
  | succ n ih =>
    rw [Nat.succ_mul] at hn
    rw [eraseLoop]
    split
    · exact rfl
    next hgo =>
      rw [not_or, not_not] at hgo
      rw [if_pos (hs _), Nat.mod_eq_of_lt (show addr + unit < 2 ^ 32 by omega)]
      exact ⟨unit, rfl, hgo.2, ih (by omega) (by omega)⟩

theorem eraseLoop_sum (succeeds : Cmd → Bool) (hn : n * unit ≤ size) (hb : addr + size < 2 ^ 32) :
    (eraseLoop succeeds unit stop n addr size).addr +
      (eraseLoop succeeds unit stop n addr size).size = addr + size :=
  (eraseLoop_covers hn hb).stop

end

section

variable {info : EraseInfo} {succeeds : Cmd → Bool} {addr size : Nat}

/-- On the 4K grid all loops together succeed, also where the address wraps around. -/
theorem eraseRange_ok (info : EraseInfo) (hs : ∀ c, succeeds c = true) (ha : sz4K ∣ addr) (hsz : sz4K ∣ size) :
    (eraseRange info succeeds addr size).2 = 0 := by
  have h64 : sz4K ∣ (eraseLoop succeeds sz64K info.noErase64k (size / sz64K) addr size).addr ∧
      sz4K ∣ (eraseLoop succeeds sz64K info.noErase64k (size / sz64K) addr size).size :=
    eraseLoop_aligned (by decide) (by decide) (Nat.div_mul_le_self _ _) ha hsz
  unfold eraseRange
  simp only [eraseLoop_ok hs, if_true]
  generalize eraseLoop succeeds sz64K info.noErase64k (size / sz64K) addr size = p64 at h64 ⊢
  have h32 : sz4K ∣ (eraseLoop succeeds sz32K false (p64.size / sz32K) p64.addr p64.size).addr ∧
      sz4K ∣ (eraseLoop succeeds sz32K false (p64.size / sz32K) p64.addr p64.size).size :=
    eraseLoop_aligned (by decide) (by decide) (Nat.div_mul_le_self _ _) h64.1 h64.2
  generalize eraseLoop succeeds sz32K false (p64.size / sz32K) p64.addr p64.size = p32 at h32 ⊢
  rw [eraseLoop_size hs (Nat.mod_eq_zero_of_dvd h32.1) (by decide) (Nat.div_mul_le_self _ _),
    Nat.div_mul_cancel h32.2, Nat.sub_self]
  rfl

/-- A range on the 4K grid that does not wrap around is tiled. -/
theorem eraseRange_tiles (hs : ∀ c, succeeds c = true) (ha : sz4K ∣ addr) (hsz : sz4K ∣ size)
    (hb : addr + size < 2 ^ 32) :
    Tiles addr (eraseRange info succeeds addr size).1 (addr + size) := by
  have h64 : sz4K ∣ (eraseLoop succeeds sz64K info.noErase64k (size / sz64K) addr size).addr ∧
      sz4K ∣ (eraseLoop succeeds sz64K info.noErase64k (size / sz64K) addr size).size :=
    eraseLoop_aligned (by decide) (by decide) (Nat.div_mul_le_self _ _) ha hsz
  have t64 := eraseLoop_tiles info.noErase64k hs (Nat.div_mul_le_self size sz64K) hb
  have s64 := eraseLoop_sum info.noErase64k succeeds
    (Nat.div_mul_le_self size sz64K) hb
  unfold eraseRange
  simp only [eraseLoop_ok hs, if_true]
  generalize eraseLoop succeeds sz64K info.noErase64k (size / sz64K) addr size = p64
    at h64 t64 s64 ⊢
  have h32 : sz4K ∣ (eraseLoop succeeds sz32K false (p64.size / sz32K) p64.addr p64.size).addr ∧
      sz4K ∣ (eraseLoop succeeds sz32K false (p64.size / sz32K) p64.addr p64.size).size :=
    eraseLoop_aligned (by decide) (by decide) (Nat.div_mul_le_self _ _) h64.1 h64.2
  have t32 := eraseLoop_tiles false hs (Nat.div_mul_le_self p64.size sz32K)
    (show p64.addr + p64.size < 2 ^ 32 by omega)
  have s32 := eraseLoop_sum false succeeds
    (Nat.div_mul_le_self p64.size sz32K) (show p64.addr + p64.size < 2 ^ 32 by omega)
  generalize eraseLoop succeeds sz32K false (p64.size / sz32K) p64.addr p64.size = p32
    at h32 t32 s32 ⊢
  have t4 := eraseLoop_tiles false hs (Nat.div_mul_le_self p32.size sz4K)
    (show p32.addr + p32.size < 2 ^ 32 by omega)
  have s4 := eraseLoop_sum false succeeds
    (Nat.div_mul_le_self p32.size sz4K) (show p32.addr + p32.size < 2 ^ 32 by omega)
  have z4 : (eraseLoop succeeds sz4K false (p32.size / sz4K) p32.addr p32.size).size = 0 := by
    rw [eraseLoop_size hs (Nat.mod_eq_zero_of_dvd h32.1) (by decide) (Nat.div_mul_le_self _ _),
      Nat.div_mul_cancel h32.2, Nat.sub_self]
  rw [z4] at s4
  rw [show addr + size = (eraseLoop succeeds sz4K false (p32.size / sz4K) p32.addr p32.size).addr by
    omega]
  exact (t64.append t32).append t4

/-- Off the 4K grid no command is issued, and only an empty range succeeds. -/
theorem eraseRange_unaligned (ha : addr % sz4K ≠ 0) :
    eraseRange info succeeds addr size = ([], if size ≠ 0 then -22 else 0) := by
  have h64 : addr % sz64K ≠ 0 := by unfold sz4K at ha; unfold sz64K; omega
  have h32 : addr % sz32K ≠ 0 := by unfold sz4K at ha; unfold sz32K; omega
  unfold eraseRange
  simp only [eraseLoop_unaligned h64, eraseLoop_unaligned h32, eraseLoop_unaligned ha]
  rfl

end

/-! ## What a call should do -/

/-- The range is on the 4K grid and inside the chip; so it does not wrap around. -/
structure InChip (info : EraseInfo) (addr size : UInt32) : Prop where
  start : sz4K ∣ addr.toNat
  length : sz4K ∣ size.toNat
  inside : addr.toNat + size.toNat ≤ info.totalSize.toNat

/-- A call succeeds just on such ranges, then erases each of their bytes once and no other of the
chip, and else sends no command. -/
structure ErasesRange (info : EraseInfo) (fate : EraseFate) (addr size : UInt32) : Prop where
  succeeds : (eraseSector info fate addr size).2 = 0 ↔ InChip info addr size
  once : InChip info addr size → ∀ x, x < info.totalSize.toNat →
    hits (eraseSector info fate addr size).1 x =
      if addr.toNat ≤ x ∧ x < addr.toNat + size.toNat then 1 else 0
  rejected : (eraseSector info fate addr size).2 ≠ 0 → (eraseSector info fate addr size).1 = []

/-- A range on the 4K grid whose end wraps around into the chip. -/
structure WrapsIntoChip (info : EraseInfo) (addr size : UInt32) : Prop where
  start : sz4K ∣ addr.toNat
  length : sz4K ∣ size.toNat
  wraps : 2 ^ 32 ≤ addr.toNat + size.toNat
  inside : addr.toNat + size.toNat - 2 ^ 32 ≤ info.totalSize.toNat

/-- An empty range off the 4K grid. -/
structure EmptyOffGrid (info : EraseInfo) (addr size : UInt32) : Prop where
  start : ¬ sz4K ∣ addr.toNat
  empty : size.toNat = 0
  inside : addr.toNat ≤ info.totalSize.toNat

section

variable {info : EraseInfo} {fate : EraseFate} {addr size : UInt32}

theorem eraseSector_eq (info : EraseInfo) (addr size : UInt32) (hfate : fate.Good) :
    eraseSector info fate addr size =
      if sz4K ∣ size.toNat ∧ (addr.toNat + size.toNat) % 2 ^ 32 ≤ info.totalSize.toNat then
        if addr = 0 ∧ size = info.totalSize then ([.eraseAll], 0)
        else eraseRange info fate.succeeds addr.toNat size.toNat
      else ([], -22) := by
  have hlocked : eraseSector info fate addr size = eraseLocked info fate addr size := by
    unfold eraseSector
    simp only [hfate.lock, hfate.unlock, ne_eq, not_true_eq_false, if_false]
  rw [hlocked, eraseLocked]
  simp only [hfate.unprotect, hfate.succeeds, ne_eq, not_true_eq_false, if_false, if_true,
    UInt32.lt_iff_toNat_lt, UInt32.toNat_add, Nat.dvd_iff_mod_eq_zero]
  by_cases hsize : size.toNat % sz4K = 0
  · by_cases hin : (addr.toNat + size.toNat) % 2 ^ 32 ≤ info.totalSize.toNat
    · rw [if_neg (not_not.2 hsize), if_neg (Nat.not_lt.2 hin),
        if_pos (c := _ ∧ _ ≤ _) ⟨hsize, hin⟩]
    · rw [if_neg (not_not.2 hsize), if_pos (Nat.lt_of_not_le hin), if_neg fun h => hin h.2]
  · rw [if_pos hsize, if_neg fun h => hsize h.1]

theorem erasesRange_inChip (hfate : fate.Good) (h : InChip info addr size) :
    ErasesRange info fate addr size := by
  have htotal := info.totalSize.toNat_lt
  have hin := h.inside
  have heq := eraseSector_eq info addr size hfate
  rw [if_pos ⟨h.length, by omega⟩] at heq
  by_cases hall : addr = 0 ∧ size = info.totalSize
  · rw [if_pos hall] at heq
    obtain ⟨rfl, rfl⟩ := hall
    refine ⟨iff_of_true (by rw [heq]) h, fun _ x hx => ?_, fun hne => absurd (by rw [heq]) hne⟩
    rw [heq, if_pos ⟨Nat.zero_le x, by omega⟩]
    rfl
  · rw [if_neg hall] at heq
    have hok := eraseRange_ok info hfate.succeeds h.start h.length
    refine ⟨iff_of_true (by rw [heq, hok]) h, fun _ x _ => ?_,
      fun hne => absurd (by rw [heq, hok]) hne⟩
    rw [heq]
    exact (eraseRange_tiles hfate.succeeds h.start h.length (by omega)).hits x

/-- A call that is rejected without a command does what it should. -/
theorem erasesRange_rejected (heq : eraseSector info fate addr size = ([], -22))
    (hout : ¬ InChip info addr size) : ErasesRange info fate addr size where
  succeeds := iff_of_false (by rw [heq]; decide) hout
  once h := absurd h hout
  rejected _ := by rw [heq]

theorem not_erasesRange (hok : (eraseSector info fate addr size).2 = 0)
    (hout : ¬ InChip info addr size) : ¬ ErasesRange info fate addr size :=
  fun h => hout (h.succeeds.1 hok)

end

/-- **Erase requests.** With every command succeeding, a call does what it should exactly when
its range does not wrap around into the chip, and is not an empty one off the 4K grid. -/
theorem eraseSector_exact_iff (info : EraseInfo) {fate : EraseFate} (hfate : fate.Good)
    (addr size : UInt32) :
    ErasesRange info fate addr size ↔
      ¬ WrapsIntoChip info addr size ∧ ¬ EmptyOffGrid info addr size := by
  have ha := addr.toNat_lt
  have hs := size.toNat_lt
  have htotal := info.totalSize.toNat_lt
  have heq := eraseSector_eq info addr size hfate
  by_cases hgo : sz4K ∣ size.toNat ∧ (addr.toNat + size.toNat) % 2 ^ 32 ≤ info.totalSize.toNat
  · rw [if_pos hgo] at heq
    obtain ⟨hsize, hin⟩ := hgo
    by_cases hin' : InChip info addr size
    · refine iff_of_true (erasesRange_inChip hfate hin') ⟨fun h => ?_, fun h => h.start hin'.start⟩
      have := hin'.inside
      have := h.wraps
      omega
    by_cases haddr : sz4K ∣ addr.toNat
    · -- on the grid but not in the chip: the end has wrapped around
      have hwrap : 2 ^ 32 ≤ addr.toNat + size.toNat := by
        by_contra hlt
        exact hin' ⟨haddr, hsize, by omega⟩
      have hne : ¬ (addr = 0 ∧ size = info.totalSize) := by
        rintro ⟨rfl, -⟩
        rw [UInt32.toNat_zero] at hwrap
        omega
      rw [if_neg hne] at heq
      have hok := eraseRange_ok info hfate.succeeds haddr hsize
      exact iff_of_false (not_erasesRange (by rw [heq, hok]) hin')
        fun h => h.1 ⟨haddr, hsize, hwrap, by omega⟩
    · have hne : ¬ (addr = 0 ∧ size = info.totalSize) := by
        rintro ⟨rfl, -⟩
        exact haddr (Nat.dvd_zero _)
      rw [if_neg hne, eraseRange_unaligned fun h => haddr (Nat.dvd_of_mod_eq_zero h)] at heq
      by_cases h0 : size.toNat = 0
      · refine iff_of_false (not_erasesRange ?_ hin') fun h => h.2 ⟨haddr, h0, ?_⟩
        · rw [heq, h0]
          rfl
        · rw [h0] at hin
          omega
      · rw [if_pos h0] at heq
        exact iff_of_true (erasesRange_rejected heq hin')
          ⟨fun h => haddr h.start, fun h => h0 h.empty⟩
  · rw [if_neg hgo] at heq
    refine iff_of_true (erasesRange_rejected heq fun h => hgo ⟨h.length, ?_⟩) ⟨fun h => ?_, fun h => ?_⟩
    · have := h.inside
      omega
    · have := h.inside
      have := h.wraps
      exact hgo ⟨h.length, by omega⟩
    · have := h.inside
      have hempty := h.empty
      exact hgo ⟨by rw [hempty]; exact Nat.dvd_zero _, by omega⟩

/-- Calls that all succeed. -/
def goodFate : EraseFate := ⟨0, 0, fun _ => true, 0⟩

theorem goodFate_good : goodFate.Good := ⟨rfl, rfl, fun _ => rfl, rfl⟩

/-- 100K from 28K of a chip of 16M, which starts off the 32K grid. -/
theorem eraseSector_exact_mixed : ErasesRange ⟨0x1000000, false⟩ goodFate 0x7000 0x19000 :=
  (eraseSector_exact_iff ⟨0x1000000, false⟩ goodFate_good 0x7000 0x19000).2
    ⟨fun h => absurd h.wraps (by decide), fun h => absurd h.empty (by decide)⟩

/-- Two sectors from the last 4K address on: the sum wraps around to 4K, so the call succeeds and
erases the first sector of the chip. -/
theorem eraseSector_wraps :
    eraseSector ⟨0x1000000, false⟩ goodFate 0xFFFFF000 0x2000 =
        ([.erase 4096 0xFFFFF000, .erase 4096 0], 0) ∧
      ¬ ErasesRange ⟨0x1000000, false⟩ goodFate 0xFFFFF000 0x2000 := by
  have h : eraseSector ⟨0x1000000, false⟩ goodFate 0xFFFFF000 0x2000 =
      ([.erase 4096 0xFFFFF000, .erase 4096 0], 0) := by decide +kernel
  refine ⟨h, fun he => ?_⟩
  have hin := (he.succeeds.1 (by rw [h])).inside
  revert hin
  decide

end Melis.Spinor
