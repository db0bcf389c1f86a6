import Melis.Lib.Run
import Melis.Spinor.Driver

/-!
# Individual block protection

`Protected` says that no call in the past sent a command to a locked block and
that all blocks are locked now. A call unlocks the one block of its start
address, so it keeps `Protected` exactly when its commands stay in that block:
`program_protected_iff` and `erase_protected_iff` for one call,
`protected_run` for every sequence of calls.
-/

namespace Melis.Spinor

open Lib

/-- Every command met its blocks unlocked, and every block is locked now. -/
structure Protected (chip : Chip) (nor : Nor) : Prop where
  locked : ∀ b, nor.locked b = true
  log : ∀ e ∈ nor.log, ∀ x, e.1.Touches x → x < chip.totalSize →
    e.2 (norBlkFixProtectAddr chip x) = false

/-! ## Blocks -/

section

variable {chip : Chip} {addr x : Nat}

theorem fix_idem :
    norBlkFixProtectAddr chip (norBlkFixProtectAddr chip addr) = norBlkFixProtectAddr chip addr := by
  obtain ⟨n, hn⟩ := chip.total_dvd
  have hpos := chip.total_pos
  unfold norBlkFixProtectAddr alignDown sz4K sz64K
  cases chip.factory <;> dsimp only <;> split <;> split <;> omega

/-- A page lies in one block. -/
theorem fix_eq_of_page (h : x / norPageSize = addr / norPageSize) :
    norBlkFixProtectAddr chip x = norBlkFixProtectAddr chip addr := by
  obtain ⟨n, hn⟩ := chip.total_dvd
  have hpos := chip.total_pos
  unfold norPageSize at h
  have h4 : x / 4096 = addr / 4096 := by omega
  have h64 : x / 65536 = addr / 65536 := by omega
  unfold norBlkFixProtectAddr alignDown sz4K sz64K
  rw [h4, h64]
  cases chip.factory with
  | xmc =>
    dsimp only
    split <;> split <;> omega
  | _ =>
    dsimp only
    split <;> split
    · rfl
    · omega
    · omega
    · rfl

theorem fix_of_program {data : List UInt8} (h : (Cmd.program addr data).Touches x) :
    norBlkFixProtectAddr chip x = norBlkFixProtectAddr chip addr := by
  obtain ⟨i, -, rfl⟩ := h
  refine fix_eq_of_page ?_
  unfold alignDown norPageSize
  omega

theorem touches_self {data : List UInt8} (h : data ≠ []) : (Cmd.program addr data).Touches addr := by
  refine ⟨0, List.length_pos_iff.2 h, ?_⟩
  unfold alignDown norPageSize
  omega

end

/-! ## One call -/

section

variable {chip : Chip} {fate : Fate} {addr : Nat} {nor : Nor}

theorem norBlkUnprotect_addr (h : addr ≤ chip.totalSize) (x : Xfer) :
    norBlkUnprotect chip addr x nor =
      if x.reported then
        ({ norBlkSet chip false (norBlkFixProtectAddr chip addr) x nor with
            ptNow := norBlkFixProtectAddr chip addr }, 0)
      else (norBlkSet chip false (norBlkFixProtectAddr chip addr) x nor, -16) := by
  obtain ⟨n, hn⟩ := chip.total_dvd
  have hlt := chip.total_lt
  have hall : norProtectAll = 4294967295 := rfl
  have hhalf : norProtectHalf = 4294967294 := rfl
  have hdef : norProtectDefault = 4294967293 := rfl
  have hnone : norProtectNone = 4294967292 := rfl
  unfold norBlkUnprotect
  rw [if_neg (by omega), if_neg (by omega), if_neg (by omega)]

/-- Going back to the default locks the block unlocked last. -/
theorem norBlkUnprotect_default {x : Xfer} (hx : x.done = true)
    (hpt : norBlkFixProtectAddr chip nor.ptNow = nor.ptNow)
    (hl : ∀ b, b ≠ nor.ptNow → nor.locked b = true) :
    (∀ b, (norBlkUnprotect chip norProtectDefault x nor).1.locked b = true) ∧
      (norBlkUnprotect chip norProtectDefault x nor).1.log = nor.log := by
  unfold norBlkUnprotect
  rw [if_neg (by decide), if_neg (by decide), if_pos rfl]
  by_cases hlt : nor.ptNow < chip.totalSize
  · have hset : ∀ b, Function.update nor.locked nor.ptNow true b = true := by
      intro b
      by_cases hb : b = nor.ptNow
      · simp [hb]
      · simp [hb, hl b hb]
    simp only [if_pos hlt, norBlkSet, hx, if_true, hpt]
    split
    · exact ⟨hset, rfl⟩
    · exact ⟨hset, rfl⟩
  · simp only [if_neg hlt, norBlkSetAll, hx, if_true]
    split
    · exact ⟨fun _ => rfl, rfl⟩
    · exact ⟨fun _ => rfl, rfl⟩

theorem withUnprotected_protected_iff (ha : addr ≤ chip.totalSize) (hn : Protected chip nor)
    (hu : fate.unlock.done = fate.unlock.reported)
    (hr : fate.unlock.reported = true → fate.relock.done = true) {r : List Cmd × Int} :
    Protected chip (withUnprotected chip fate addr r nor).1 ↔
      (fate.unlock.reported = true → ∀ c ∈ r.1, ∀ x, c.Touches x → x < chip.totalSize →
        norBlkFixProtectAddr chip x = norBlkFixProtectAddr chip addr) := by
  unfold withUnprotected
  rw [norBlkUnprotect_addr ha]
  cases hrep : fate.unlock.reported with
  | false =>
    rw [hrep] at hu
    simpa [norBlkSet, hu] using hn
  | true =>
    rw [hrep] at hu
    simp only [if_true, norBlkSet, hu, fix_idem, forall_const]
    set b := norBlkFixProtectAddr chip addr with hb
    set nor1 : Nor := ⟨Function.update nor.locked b false, b, nor.log⟩ with hnor1
    have hdef : (∀ b, (norBlkUnprotect chip norProtectDefault fate.relock
        (nor1.issue r.1)).1.locked b = true) ∧ _ :=
      norBlkUnprotect_default (hr hrep) fix_idem fun b' hb' => by
        show Function.update nor.locked b false b' = true
        rw [Function.update_of_ne (show b' ≠ b from hb'), hn.locked]
    have hsnap : ∀ x, nor1.locked (norBlkFixProtectAddr chip x) = false ↔
        norBlkFixProtectAddr chip x = b := by
      intro x
      by_cases hx : norBlkFixProtectAddr chip x = b
      · simp [hnor1, hx]
      · simp [hnor1, hx, hn.locked]
    constructor
    · intro h c hc x htouch hx
      refine (hsnap x).1 (h.log (c, nor1.locked) ?_ x htouch hx)
      rw [hdef.2]
      exact List.mem_append_right _ (List.mem_map_of_mem hc)
    · intro h
      refine ⟨hdef.1, fun e he x htouch hx => ?_⟩
      rw [hdef.2] at he
      rcases List.mem_append.1 he with he | he
      · exact hn.log e he x htouch hx
      · obtain ⟨c, hc, rfl⟩ := List.mem_map.1 he
        exact (hsnap x).2 (h c hc x htouch hx)

/-! ## Calls -/

/-- The program commands of a call start in the block of its address. -/
theorem programLoop_inBlock {succeeds : Cmd → Bool} {buf : List UInt8}
    (hb : addr + buf.length ≤ chip.totalSize)
    (h : ∀ k, k * norPageSize < buf.length → norBlkFixProtectAddr chip (addr + k * norPageSize) =
      norBlkFixProtectAddr chip addr) {c : Cmd}
    (hc : c ∈ (programLoop succeeds buf.length addr buf).1) {x : Nat} (hx : c.Touches x) :
    norBlkFixProtectAddr chip x = norBlkFixProtectAddr chip addr := by
  have hlt := chip.total_lt
  obtain ⟨k, data, hk, rfl⟩ := programLoop_cmd (by omega) hc
  rw [fix_of_program hx, h k hk]

end

inductive Call where
  | program (addr : Nat) (buf : List UInt8)
  | erase (addr size : Nat)

/-- The bytes a call is for. -/
def Call.addr : Call → Nat
  | program addr _ => addr
  | erase addr _ => addr

def Call.size : Call → Nat
  | program _ buf => buf.length
  | erase _ size => size

def Call.run (chip : Chip) (fate : Fate) (nor : Nor) : Call → Nor × Int
  | program addr buf => spinorProgramData chip fate addr buf nor
  | erase addr size => spinorEraseSector chip fate addr size nor

/-- The commands of a call start in the protection block of its address. For an erase
of 4K blocks that is the block of all its bytes. -/
def Call.InBlock (chip : Chip) : Call → Prop
  | program addr buf => ∀ k, k * norPageSize < buf.length →
    norBlkFixProtectAddr chip (addr + k * norPageSize) = norBlkFixProtectAddr chip addr
  | erase addr size => addr % sz4K = 0 → ∀ x, addr ≤ x → x < addr + size →
    norBlkFixProtectAddr chip x = norBlkFixProtectAddr chip addr

/-- The call gets as far as unlocking a block. -/
def Call.Starts (fate : Fate) : Call → Prop
  | program _ _ => fate.ready = true
  | erase _ size => fate.ready = true ∧ size % sz4K = 0

section

variable {chip : Chip} {fate : Fate} {nor : Nor} {c : Call}

theorem run_of_not_starts (h : ¬ c.Starts fate) : (c.run chip fate nor).1 = nor := by
  cases c with
  | program addr buf =>
    have h' : fate.ready = false := by simpa [Call.Starts] using h
    simp [Call.run, spinorProgramData, h']
  | erase addr size =>
    cases hr : fate.ready with
    | false => simp [Call.run, spinorEraseSector, hr]
    | true =>
      have hs : size % sz4K ≠ 0 := fun h0 => h ⟨hr, h0⟩
      simp [Call.run, spinorEraseSector, hr, hs]

/-- The commands of a call. -/
def Call.cmds (chip : Chip) (fate : Fate) : Call → List Cmd × Int
  | program addr buf => programLoop fate.succeeds buf.length addr buf
  | erase addr size => eraseCmds chip fate.succeeds addr size

theorem run_of_starts (hb : c.addr + c.size ≤ chip.totalSize) (h : c.Starts fate) :
    c.run chip fate nor = withUnprotected chip fate c.addr (c.cmds chip fate) nor := by
  have hlt := chip.total_lt
  cases c with
  | program addr buf => exact if_pos h
  | erase addr size =>
    have hb' : addr + size ≤ chip.totalSize := hb
    rw [Call.run, spinorEraseSector, if_pos h.1, if_neg (not_not.2 h.2),
      Nat.mod_eq_of_lt (show addr + size < 2 ^ 32 by omega), if_neg (by omega)]
    rfl

/-- A chip has more than one protection block. -/
theorem exists_other_block (chip : Chip) :
    sz4K < chip.totalSize ∧ norBlkFixProtectAddr chip sz4K ≠ norBlkFixProtectAddr chip 0 := by
  obtain ⟨n, hn⟩ := chip.total_dvd
  have hpos := chip.total_pos
  refine ⟨by unfold sz4K; omega, ?_⟩
  unfold norBlkFixProtectAddr alignDown sz4K sz64K
  cases chip.factory <;> simp

theorem cmds_inBlock (hb : c.addr + c.size ≤ chip.totalSize) (h : c.InBlock chip) {cmd : Cmd}
    (hc : cmd ∈ (c.cmds chip fate).1) {x : Nat} (hx : cmd.Touches x) :
    norBlkFixProtectAddr chip x = norBlkFixProtectAddr chip c.addr := by
  cases c with
  | program addr buf => exact programLoop_inBlock hb h hc hx
  | erase addr size =>
    have hall : ¬ (addr = 0 ∧ size = chip.totalSize) := by
      rintro ⟨rfl, rfl⟩
      have ho := exists_other_block chip
      exact ho.2 (h rfl sz4K (Nat.zero_le _) (by omega))
    by_cases ha : addr % sz4K = 0
    · have hin := eraseCmds_touches hb hall hc hx
      exact h ha x hin.1 hin.2
    · rw [Call.cmds, eraseCmds_unaligned ha] at hc
      cases hc

/-- When everything succeeds, the commands reach every block the condition is about. -/
theorem inBlock_of_cmds (hb : c.addr + c.size ≤ chip.totalSize) (hs : ∀ cmd, fate.succeeds cmd = true)
    (hst : c.Starts fate)
    (h : ∀ cmd ∈ (c.cmds chip fate).1, ∀ x, cmd.Touches x → x < chip.totalSize →
      norBlkFixProtectAddr chip x = norBlkFixProtectAddr chip c.addr) : c.InBlock chip := by
  have hlt := chip.total_lt
  cases c with
  | program addr buf =>
    intro k hk
    have hb' : addr + buf.length ≤ chip.totalSize := hb
    obtain ⟨data, hd, hin⟩ := programLoop_all hs (show addr + buf.length < 2 ^ 32 by omega)
      (le_refl buf.length) hk
    exact h _ hin _ (touches_self hd) (by omega)
  | erase addr size =>
    intro ha x h1 h2
    have hb' : addr + size ≤ chip.totalSize := hb
    obtain ⟨cmd, hin, hx⟩ := eraseCmds_cover hs hb' (Nat.dvd_of_mod_eq_zero ha)
      (Nat.dvd_of_mod_eq_zero hst.2) h1 h2
    exact h cmd hin x hx (by omega)

/-- With all transfers of the call succeeding, it keeps the chip protected exactly when
its commands stay in the block of its address. -/
theorem run_protected_iff (hb : c.addr + c.size ≤ chip.totalSize) (hn : Protected chip nor)
    (hst : c.Starts fate) (hs : ∀ cmd, fate.succeeds cmd = true)
    (hu : fate.unlock = ⟨true, true⟩) (hr : fate.relock.done = true) :
    Protected chip (c.run chip fate nor).1 ↔ c.InBlock chip := by
  rw [run_of_starts hb hst, withUnprotected_protected_iff (by omega) hn (by rw [hu]) fun _ => hr]
  constructor
  · intro h
    exact inBlock_of_cmds hb hs hst (h (by rw [hu]))
  · intro h _ cmd hc x hx _
    exact cmds_inBlock hb h hc hx

/-! ## Sequences of calls -/

/-- What a call needs: a chip that carries out the lock commands, and, once a block is
unlocked, commands that stay in it. -/
def StepOk (chip : Chip) (_ : Nor) : Call × Fate → Prop
  | (c, fate) => c.addr + c.size ≤ chip.totalSize ∧ (c.Starts fate →
    fate.unlock.done = fate.unlock.reported ∧
      (fate.unlock.reported = true → fate.relock.done = true ∧ c.InBlock chip))

def driver (chip : Chip) : Machine Nor (Call × Fate) where
  next nor i := some (i.1.run chip i.2 nor).1

theorem next_protected {nor' : Nor} {i : Call × Fate} (hn : Protected chip nor)
    (hok : StepOk chip nor i) (h : (driver chip).next nor i = some nor') :
    Protected chip nor' := by
  obtain ⟨c, fate⟩ := i
  obtain ⟨hb, hok⟩ := hok
  cases h
  by_cases hst : c.Starts fate
  · obtain ⟨hu, hok⟩ := hok hst
    dsimp only
    rw [run_of_starts hb hst, withUnprotected_protected_iff (by omega) hn hu fun h => (hok h).1]
    intro hrep cmd hc x hx _
    exact cmds_inBlock hb (hok hrep).2 hc hx
  · rwa [run_of_not_starts hst]

/-- The state `nor_init` leaves: all blocks locked, no command sent yet. -/
def Nor.init : Nor where
  locked _ := true
  ptNow := norProtectDefault
  log := []

theorem init_protected (chip : Chip) : Protected chip .init where
  locked _ := rfl
  log _ he := nomatch he

/-- Over every sequence of in-range calls whose commands stay in the block of the
call's address, every command meets its blocks unlocked, and between the calls
all blocks are locked. -/
theorem protected_run {calls : List (Call × Fate)} {nor : Nor}
    (hok : (driver chip).Meets (StepOk chip) .init calls)
    (hr : (driver chip).run .init calls = some nor) : Protected chip nor :=
  Machine.run_inv (fun _ _ _ hn hC h => next_protected hn hC h) (init_protected chip) hok hr

/-- A Winbond chip of 16M. -/
def w25q128jv : Chip where
  factory := .winbond
  noErase64k := false
  totalSize := 16777216
  total_pos := by decide
  total_dvd := by decide
  total_lt := by decide

def fateOk : Fate := ⟨true, ⟨true, true⟩, fun _ => true, ⟨true, true⟩⟩

theorem protected_run_one_block :
    ∃ nor, (driver w25q128jv).run .init [(.erase 65536 65536, fateOk)] = some nor ∧
      Protected w25q128jv nor := by
  have hok : (driver w25q128jv).Meets (StepOk w25q128jv) .init [(.erase 65536 65536, fateOk)] := by
    refine ⟨⟨by decide, fun _ => ⟨rfl, fun _ => ⟨rfl, fun _ x h1 h2 => ?_⟩⟩⟩, fun _ _ => trivial⟩
    unfold norBlkFixProtectAddr w25q128jv alignDown sz4K sz64K
    dsimp only
    split <;> split <;> omega
  exact ⟨_, rfl, protected_run hok rfl⟩

/-- An erase of two 4K blocks at the start of the chip: the second erase command
meets a locked block. -/
theorem erase_two_blocks_meets_lock :
    ∃ nor, (driver w25q128jv).run .init [(.erase 0 8192, fateOk)] = some nor ∧
      nor.log.map (fun e => (e.1, e.2 0, e.2 4096)) =
        [(.erase 4096 0, false, true), (.erase 4096 4096, false, true)] ∧
      ¬ Protected w25q128jv nor := by
  refine ⟨_, rfl, by decide +kernel, fun h => ?_⟩
  have hst : (Call.erase 0 8192).Starts fateOk := ⟨rfl, rfl⟩
  have hin : (Call.erase 0 8192).InBlock w25q128jv :=
    (run_protected_iff (by decide) (init_protected _) hst (fun _ => rfl) rfl rfl).1 h
  exact (exists_other_block w25q128jv).2 (hin rfl 4096 (by omega) (by omega))

end

end Melis.Spinor
