import Melis.Lib.C

/-!
# The SPI NOR driver

`spinorProgramData` and `spinorEraseSector` of `hal_spinor.c` on a chip with
individual block protection. A call first unlocks the protection block of its
start address, then issues program or erase commands, then locks that block
again. `Nor` keeps which blocks are locked, `pt_now`, and a log of the commands
with the lock state each of them met. How the transfers of a call end is its
`Fate`.
-/

namespace Melis.Spinor

open Lib

/-- The factories of the chips with `EN_INDIVIDUAL_PROTECT_MODE`. -/
inductive Factory where
  | mxic
  | winbond
  | xmc
  | xtx
  deriving DecidableEq

structure Chip where
  factory : Factory
  noErase64k : Bool
  totalSize : Nat
  total_pos : 0 < totalSize
  total_dvd : 65536 ∣ totalSize
  total_lt : totalSize < 2 ^ 32

inductive Cmd where
  | program (addr : Nat) (data : List UInt8)
  /-- The 4K, 32K and 64K erase commands. -/
  | erase (unit addr : Nat)
  | eraseAll
  deriving DecidableEq

/-- `NOR_PAGE_SIZE`. -/
def norPageSize : Nat := 256

def sz4K : Nat := 4096

def sz32K : Nat := 32768

def sz64K : Nat := 65536

/-- The bytes of the chip a command works on. A program command stays in the
page of its address and wraps at its end. -/
def Cmd.Touches : Cmd → Nat → Prop
  | program addr data, x =>
    ∃ i, i < data.length ∧ x = alignDown addr norPageSize + (addr + i) % norPageSize
  | erase unit addr, x => alignDown addr unit ≤ x ∧ x < alignDown addr unit + unit
  | eraseAll, _ => True

/-! ## Commands of a call -/

/-- What a loop issued, where it stopped, and whether its last command succeeded. -/
structure Pass where
  cmds : List Cmd
  addr : Nat
  size : Nat
  ok : Bool

/-- One `while` loop of `spinor_erase_sector`; `n` is the number of units in `size`. -/
def eraseLoop (succeeds : Cmd → Bool) (unit : Nat) (stop : Bool) : Nat → Nat → Nat → Pass
  | 0, addr, size => ⟨[], addr, size, true⟩
  | n + 1, addr, size =>
    if stop = true ∨ addr % unit ≠ 0 then ⟨[], addr, size, true⟩
    else if succeeds (.erase unit addr) then
      let p := eraseLoop succeeds unit stop n ((addr + unit) % 2 ^ 32) (size - unit)
      { p with cmds := .erase unit addr :: p.cmds }
    else ⟨[.erase unit addr], addr, size, false⟩

/-- The commands of `spinor_erase_sector` and its result. -/
def eraseCmds (chip : Chip) (succeeds : Cmd → Bool) (addr size : Nat) : List Cmd × Int :=
  if addr = 0 ∧ size = chip.totalSize then ([.eraseAll], if succeeds .eraseAll then 0 else -1)
  else
    let p64 := eraseLoop succeeds sz64K chip.noErase64k (size / sz64K) addr size
    if p64.ok then
      let p32 := eraseLoop succeeds sz32K false (p64.size / sz32K) p64.addr p64.size
      if p32.ok then
        let p4 := eraseLoop succeeds sz4K false (p32.size / sz4K) p32.addr p32.size
        (p64.cmds ++ p32.cmds ++ p4.cmds,
          -- -EINVAL for a rest that is not aligned
          if p4.ok then if p4.size ≠ 0 then -22 else 0 else -1)
      else (p64.cmds ++ p32.cmds, -1)
    else (p64.cmds, -1)

/-- The loop of `spinor_program_data`. -/
def programLoop (succeeds : Cmd → Bool) : Nat → Nat → List UInt8 → List Cmd × Int
  | 0, _, _ => ([], 0)
  | fuel + 1, addr, buf =>
    if buf = [] then ([], 0)
    else
      let wlen := min buf.length norPageSize
      let cmd := .program addr (buf.take wlen)
      if succeeds cmd then
        let r := programLoop succeeds fuel ((addr + wlen) % 2 ^ 32) (buf.drop wlen)
        (cmd :: r.1, r.2)
      else ([cmd], -1)

/-! ## Protection blocks -/

/-- `nor_blk_fix_protect_addr`: the base of the protection block of an address. -/
def norBlkFixProtectAddr (chip : Chip) (addr : Nat) : Nat :=
  match chip.factory with
  | .xmc => if addr < 32 * sz4K then alignDown addr sz4K else alignDown addr sz64K
  | .winbond | .mxic | .xtx =>
    if chip.totalSize - sz64K < addr ∨ addr < sz64K then alignDown addr sz4K
    else alignDown addr sz64K

/-- The state of the driver and the chip. Protection blocks go by their base. -/
structure Nor where
  locked : Nat → Bool
  ptNow : Nat
  log : List (Cmd × (Nat → Bool))

/-- How the transfer of a lock or unlock command ends: whether the chip carries
it out, and whether the driver reads that back. -/
structure Xfer where
  done : Bool
  reported : Bool

/-- How the transfers of one call end. -/
structure Fate where
  /-- `nor_lock` and `nor_wait_ready_ms` succeed. -/
  ready : Bool
  unlock : Xfer
  succeeds : Cmd → Bool
  relock : Xfer

def norProtectAll : Nat := 2 ^ 32 - 1

def norProtectHalf : Nat := norProtectAll - 1

def norProtectDefault : Nat := norProtectHalf - 1

def norProtectNone : Nat := norProtectDefault - 1

/-- `nor_blk_lock` and `nor_blk_unlock`. -/
def norBlkSet (chip : Chip) (lock : Bool) (addr : Nat) (x : Xfer) (nor : Nor) : Nor :=
  if x.done then
    { nor with locked := Function.update nor.locked (norBlkFixProtectAddr chip addr) lock }
  else nor

/-- `nor_blk_lock_all` and `nor_blk_unlock_all`. -/
def norBlkSetAll (lock : Bool) (x : Xfer) (nor : Nor) : Nor :=
  if x.done then { nor with locked := fun _ => lock } else nor

/-- `nor_blk_unprotect`, which `nor_unprotect_do` calls in individual block mode. -/
def norBlkUnprotect (chip : Chip) (addr : Nat) (x : Xfer) (nor : Nor) : Nor × Int :=
  let (nor, addr) :=
    if addr = norProtectHalf ∨ addr = norProtectAll then (norBlkSetAll true x nor, addr)
    else if addr = norProtectNone then (norBlkSetAll false x nor, addr)
    else if addr = norProtectDefault then
      if nor.ptNow < chip.totalSize then (norBlkSet chip true nor.ptNow x nor, addr)
      else (norBlkSetAll true x nor, addr)
    else
      let addr := norBlkFixProtectAddr chip addr
      (norBlkSet chip false addr x nor, addr)
  if x.reported then ({ nor with ptNow := addr }, 0) else (nor, -16)

/-- The commands are sent to the chip. -/
def Nor.issue (nor : Nor) (cmds : List Cmd) : Nor :=
  { nor with log := nor.log ++ cmds.map fun c => (c, nor.locked) }

/-- Unlocking the block of `addr`, the commands with their result, and locking it again. -/
def withUnprotected (chip : Chip) (fate : Fate) (addr : Nat) (r : List Cmd × Int) (nor : Nor) :
    Nor × Int :=
  match norBlkUnprotect chip addr fate.unlock nor with
  | (nor, 0) => ((norBlkUnprotect chip norProtectDefault fate.relock (nor.issue r.1)).1, r.2)
  | (nor, ret) => (nor, ret)

/-- `spinor_program_data`. -/
def spinorProgramData (chip : Chip) (fate : Fate) (addr : Nat) (buf : List UInt8) (nor : Nor) :
    Nor × Int :=
  if fate.ready then
    withUnprotected chip fate addr (programLoop fate.succeeds buf.length addr buf) nor
  else (nor, -16)

/-- `spinor_erase_sector`. -/
def spinorEraseSector (chip : Chip) (fate : Fate) (addr size : Nat) (nor : Nor) : Nor × Int :=
  if fate.ready then
    if size % sz4K ≠ 0 then (nor, -22)
    else if chip.totalSize < (addr + size) % 2 ^ 32 then (nor, -22)
    else withUnprotected chip fate addr (eraseCmds chip fate.succeeds addr size) nor
  else (nor, -16)

/-! ## What the loops cover -/

section

variable {succeeds : Cmd → Bool} {unit n addr size : Nat} {stop : Bool}

/-- The commands of a loop erase aligned units, one after the other, from `addr`
to where the loop stops. -/
structure Covers (unit addr size : Nat) (p : Pass) : Prop where
  le_addr : addr ≤ p.addr
  stop : p.addr + p.size = addr + size
  cmd : ∀ c ∈ p.cmds, ∃ a, c = .erase unit a ∧ addr ≤ a ∧ a + unit ≤ addr + size ∧ a % unit = 0
  cover : ∀ x, addr ≤ x → x < p.addr → ∃ a, .erase unit a ∈ p.cmds ∧ a ≤ x ∧ x < a + unit

theorem Covers.nil (unit addr size : Nat) (ok : Bool) : Covers unit addr size ⟨[], addr, size, ok⟩ where
  le_addr := le_refl _
  stop := rfl
  cmd _ hc := nomatch hc
  cover _ h1 h2 := absurd h2 (Nat.not_lt.2 h1)

theorem eraseLoop_covers (hn : n * unit ≤ size) (hb : addr + size < 2 ^ 32) :
    Covers unit addr size (eraseLoop succeeds unit stop n addr size) := by
  induction n generalizing addr size with
  | zero => exact .nil _ _ _ _
  | succ n ih =>
    rw [Nat.succ_mul] at hn
    rw [eraseLoop]
    split
    · exact .nil _ _ _ _
    next hgo =>
      rw [not_or, not_not] at hgo
      split
      · rw [Nat.mod_eq_of_lt (show addr + unit < 2 ^ 32 by omega)]
        have hih : Covers unit (addr + unit) (size - unit) _ :=
          ih (show n * unit ≤ size - unit by omega) (by omega)
        have hle := hih.le_addr
        have hstop := hih.stop
        refine ⟨by dsimp only; omega, by dsimp only; omega, fun c hc => ?_, fun x h1 h2 => ?_⟩
        · rcases List.mem_cons.1 hc with rfl | hc
          · exact ⟨addr, rfl, le_refl _, by omega, hgo.2⟩
          · obtain ⟨a, rfl, ha1, ha2, ha3⟩ := hih.cmd c hc
            exact ⟨a, rfl, by omega, by omega, ha3⟩
        · by_cases hx : x < addr + unit
          · exact ⟨addr, List.mem_cons_self, h1, hx⟩
          · obtain ⟨a, ha, ha1, ha2⟩ := hih.cover x (by omega) h2
            exact ⟨a, List.mem_cons_of_mem _ ha, ha1, ha2⟩
      · refine ⟨le_refl _, rfl, fun c hc => ?_, fun x h1 h2 => absurd h2 (Nat.not_lt.2 h1)⟩
        obtain rfl := List.mem_singleton.1 hc
        exact ⟨addr, rfl, le_refl _, by omega, hgo.2⟩

theorem eraseLoop_ok (hs : ∀ c, succeeds c = true) :
    (eraseLoop succeeds unit stop n addr size).ok = true := by
  induction n generalizing addr size with
  | zero => rfl
  | succ n ih =>
    rw [eraseLoop]
    split
    · rfl
    · rw [if_pos (hs _)]
      exact ih

theorem eraseLoop_aligned {k : Nat} (hk : k ∣ unit) (hw : k ∣ 2 ^ 32) (hn : n * unit ≤ size)
    (ha : k ∣ addr) (hs : k ∣ size) :
    k ∣ (eraseLoop succeeds unit stop n addr size).addr ∧
      k ∣ (eraseLoop succeeds unit stop n addr size).size := by
  induction n generalizing addr size with
  | zero => exact ⟨ha, hs⟩
  | succ n ih =>
    rw [Nat.succ_mul] at hn
    rw [eraseLoop]
    split
    · exact ⟨ha, hs⟩
    split
    · exact ih (by omega) ((Nat.dvd_mod_iff hw).2 (Nat.dvd_add ha hk)) (Nat.dvd_sub hs hk)
    · exact ⟨ha, hs⟩

/-- From an aligned address the loop erases all units there are. -/
theorem eraseLoop_size (hs : ∀ c, succeeds c = true) (ha : addr % unit = 0) (hw : unit ∣ 2 ^ 32)
    (hn : n * unit ≤ size) :
    (eraseLoop succeeds unit false n addr size).size = size - n * unit := by
  induction n generalizing addr size with
  | zero => simp [eraseLoop]
  | succ n ih =>
    rw [Nat.succ_mul] at hn
    rw [eraseLoop, if_neg (by simp [ha]), if_pos (hs _)]
    dsimp only
    rw [ih (by rw [Nat.mod_mod_of_dvd _ hw, Nat.add_mod_right, ha]) (by omega), Nat.succ_mul]
    omega

theorem eraseLoop_unaligned (ha : addr % unit ≠ 0) :
    eraseLoop succeeds unit stop n addr size = ⟨[], addr, size, true⟩ := by
  cases n with
  | zero => rfl
  | succ n => rw [eraseLoop, if_pos (.inr ha)]

theorem erase_touches {x : Nat} (h : addr % unit = 0) :
    (Cmd.erase unit addr).Touches x ↔ addr ≤ x ∧ x < addr + unit := by
  rw [Cmd.Touches, alignDown_of_dvd (Nat.dvd_of_mod_eq_zero h)]

end

section

variable {chip : Chip} {succeeds : Cmd → Bool} {addr size : Nat}

/-- Short of a chip erase, the commands of a call work on its own bytes only. -/
theorem eraseCmds_touches (hb : addr + size ≤ chip.totalSize)
    (hall : ¬ (addr = 0 ∧ size = chip.totalSize)) {c : Cmd}
    (hc : c ∈ (eraseCmds chip succeeds addr size).1) {x : Nat} (hx : c.Touches x) :
    addr ≤ x ∧ x < addr + size := by
  have hlt := chip.total_lt
  have h64 : Covers sz64K addr size
      (eraseLoop succeeds sz64K chip.noErase64k (size / sz64K) addr size) :=
    eraseLoop_covers (Nat.div_mul_le_self _ _) (by omega)
  rw [eraseCmds, if_neg hall] at hc
  dsimp only at hc
  generalize eraseLoop succeeds sz64K chip.noErase64k (size / sz64K) addr size = p64 at h64 hc
  have s64 := h64.stop
  have l64 := h64.le_addr
  have h32 : Covers sz32K p64.addr p64.size
      (eraseLoop succeeds sz32K false (p64.size / sz32K) p64.addr p64.size) :=
    eraseLoop_covers (Nat.div_mul_le_self _ _) (by omega)
  generalize eraseLoop succeeds sz32K false (p64.size / sz32K) p64.addr p64.size = p32 at h32 hc
  have s32 := h32.stop
  have l32 := h32.le_addr
  have h4 : Covers sz4K p32.addr p32.size
      (eraseLoop succeeds sz4K false (p32.size / sz4K) p32.addr p32.size) :=
    eraseLoop_covers (Nat.div_mul_le_self _ _) (by omega)
  generalize eraseLoop succeeds sz4K false (p32.size / sz4K) p32.addr p32.size = p4 at h4 hc
  have hin : c ∈ p64.cmds ∨ c ∈ p32.cmds ∨ c ∈ p4.cmds := by
    repeat' split at hc
    all_goals simp only [List.mem_append] at hc; tauto
  rcases hin with hin | hin | hin
  · obtain ⟨a, rfl, ha1, ha2, ha3⟩ := h64.cmd c hin
    have := (erase_touches ha3).1 hx
    omega
  · obtain ⟨a, rfl, ha1, ha2, ha3⟩ := h32.cmd c hin
    have := (erase_touches ha3).1 hx
    omega
  · obtain ⟨a, rfl, ha1, ha2, ha3⟩ := h4.cmd c hin
    have := (erase_touches ha3).1 hx
    omega

/-- Off the 4K grid no command is issued. -/
theorem eraseCmds_unaligned (ha : addr % sz4K ≠ 0) :
    (eraseCmds chip succeeds addr size).1 = [] := by
  have h0 : addr ≠ 0 := by
    rintro rfl
    exact ha rfl
  have h64 : addr % sz64K ≠ 0 := by unfold sz4K at ha; unfold sz64K; omega
  have h32 : addr % sz32K ≠ 0 := by unfold sz4K at ha; unfold sz32K; omega
  rw [eraseCmds, if_neg fun h => h0 h.1]
  simp only [eraseLoop_unaligned h64, eraseLoop_unaligned h32, eraseLoop_unaligned ha]
  rfl

/-- A call on 4K blocks whose commands succeed works on all of its bytes. -/
theorem eraseCmds_cover (hs : ∀ c, succeeds c = true) (hb : addr + size ≤ chip.totalSize)
    (ha : sz4K ∣ addr) (hsz : sz4K ∣ size) {x : Nat} (h1 : addr ≤ x) (h2 : x < addr + size) :
    ∃ c ∈ (eraseCmds chip succeeds addr size).1, c.Touches x := by
  have hlt := chip.total_lt
  rw [eraseCmds]
  split
  · exact ⟨.eraseAll, List.mem_singleton_self _, trivial⟩
  have h64 : Covers sz64K addr size
      (eraseLoop succeeds sz64K chip.noErase64k (size / sz64K) addr size) :=
    eraseLoop_covers (Nat.div_mul_le_self _ _) (by omega)
  have a64 : sz4K ∣ (eraseLoop succeeds sz64K chip.noErase64k (size / sz64K) addr size).addr ∧
      sz4K ∣ (eraseLoop succeeds sz64K chip.noErase64k (size / sz64K) addr size).size :=
    eraseLoop_aligned (by decide) (by decide) (Nat.div_mul_le_self _ _) ha hsz
  simp only [eraseLoop_ok hs, if_true]
  generalize eraseLoop succeeds sz64K chip.noErase64k (size / sz64K) addr size = p64 at h64 a64
  have s64 := h64.stop
  have h32 : Covers sz32K p64.addr p64.size
      (eraseLoop succeeds sz32K false (p64.size / sz32K) p64.addr p64.size) :=
    eraseLoop_covers (Nat.div_mul_le_self _ _) (by omega)
  have a32 : sz4K ∣ (eraseLoop succeeds sz32K false (p64.size / sz32K) p64.addr p64.size).addr ∧
      sz4K ∣ (eraseLoop succeeds sz32K false (p64.size / sz32K) p64.addr p64.size).size :=
    eraseLoop_aligned (by decide) (by decide) (Nat.div_mul_le_self _ _) a64.1 a64.2
  generalize eraseLoop succeeds sz32K false (p64.size / sz32K) p64.addr p64.size = p32 at h32 a32
  have s32 := h32.stop
  have h4 : Covers sz4K p32.addr p32.size
      (eraseLoop succeeds sz4K false (p32.size / sz4K) p32.addr p32.size) :=
    eraseLoop_covers (Nat.div_mul_le_self _ _) (by omega)
  have z4 : (eraseLoop succeeds sz4K false (p32.size / sz4K) p32.addr p32.size).size = 0 := by
    rw [eraseLoop_size hs (Nat.mod_eq_zero_of_dvd a32.1) (by decide) (Nat.div_mul_le_self _ _),
      Nat.div_mul_cancel a32.2, Nat.sub_self]
  generalize eraseLoop succeeds sz4K false (p32.size / sz4K) p32.addr p32.size = p4 at h4 z4
  have s4 := h4.stop
  simp only [List.mem_append]
  by_cases hx64 : x < p64.addr
  · obtain ⟨a, ha, hax⟩ := h64.cover x h1 hx64
    obtain ⟨a', he, -, -, hmod⟩ := h64.cmd _ ha
    cases he
    exact ⟨_, .inl (.inl ha), (erase_touches hmod).2 hax⟩
  by_cases hx32 : x < p32.addr
  · obtain ⟨a, ha, hax⟩ := h32.cover x (by omega) hx32
    obtain ⟨a', he, -, -, hmod⟩ := h32.cmd _ ha
    cases he
    exact ⟨_, .inl (.inr ha), (erase_touches hmod).2 hax⟩
  · obtain ⟨a, ha, hax⟩ := h4.cover x (by omega) (by omega)
    obtain ⟨a', he, -, -, hmod⟩ := h4.cmd _ ha
    cases he
    exact ⟨_, .inr ha, (erase_touches hmod).2 hax⟩

/-- The `k`-th program command starts `k` pages behind the start address. -/
theorem programLoop_cmd {fuel : Nat} {buf : List UInt8} (hb : addr + buf.length < 2 ^ 32)
    {c : Cmd} (hc : c ∈ (programLoop succeeds fuel addr buf).1) :
    ∃ k data, k * norPageSize < buf.length ∧ c = .program (addr + k * norPageSize) data := by
  induction fuel generalizing addr buf with
  | zero => cases hc
  | succ fuel ih =>
    have hpage : norPageSize = 256 := rfl
    rw [programLoop] at hc
    split at hc
    · cases hc
    next hne =>
      have hpos : 0 < buf.length := List.length_pos_iff.2 hne
      dsimp only at hc
      split at hc
      · rcases List.mem_cons.1 hc with rfl | hc
        · exact ⟨0, _, by omega, by rw [Nat.zero_mul, Nat.add_zero]⟩
        · rw [Nat.mod_eq_of_lt (show addr + min buf.length norPageSize < 2 ^ 32 by omega)] at hc
          obtain ⟨k, data, hk, rfl⟩ := ih (by rw [List.length_drop]; omega) hc
          rw [List.length_drop] at hk
          have hsucc : (k + 1) * norPageSize = k * norPageSize + norPageSize := Nat.succ_mul _ _
          -- a command behind this one: this one was a whole page
          refine ⟨k + 1, data, by omega, ?_⟩
          rw [show addr + min buf.length norPageSize + k * norPageSize =
            addr + (k + 1) * norPageSize by omega]
      · obtain rfl := List.mem_singleton.1 hc
        exact ⟨0, _, by omega, by rw [Nat.zero_mul, Nat.add_zero]⟩

/-- A call whose commands succeed issues all of them. -/
theorem programLoop_all (hs : ∀ c, succeeds c = true) {fuel k : Nat} {buf : List UInt8}
    (hb : addr + buf.length < 2 ^ 32) (hf : buf.length ≤ fuel) (hk : k * norPageSize < buf.length) :
    ∃ data, data ≠ [] ∧
      .program (addr + k * norPageSize) data ∈ (programLoop succeeds fuel addr buf).1 := by
  induction fuel generalizing addr buf k with
  | zero => omega
  | succ fuel ih =>
    have hpage : norPageSize = 256 := rfl
    have hne : buf ≠ [] := List.length_pos_iff.1 (by omega)
    rw [programLoop, if_neg hne]
    simp only [hs, if_true]
    cases k with
    | zero =>
      refine ⟨buf.take (min buf.length norPageSize), List.length_pos_iff.1 ?_, ?_⟩
      · rw [List.length_take]
        omega
      · rw [Nat.zero_mul, Nat.add_zero]
        exact List.mem_cons_self
    | succ k =>
      have hsucc : (k + 1) * norPageSize = k * norPageSize + norPageSize := Nat.succ_mul _ _
      have hmin : min buf.length norPageSize = norPageSize := by omega
      rw [hmin, Nat.mod_eq_of_lt (show addr + norPageSize < 2 ^ 32 by omega)]
      obtain ⟨data, hd, hin⟩ := ih (show addr + norPageSize + (buf.drop norPageSize).length < 2 ^ 32 by
        rw [List.length_drop]; omega) (by rw [List.length_drop]; omega)
        (show k * norPageSize < _ by rw [List.length_drop]; omega)
      refine ⟨data, hd, List.mem_cons_of_mem _ ?_⟩
      rwa [show addr + (k + 1) * norPageSize = addr + norPageSize + k * norPageSize by omega]

end

end Melis.Spinor
