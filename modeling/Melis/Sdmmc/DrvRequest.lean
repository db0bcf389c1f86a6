import Melis.Sdmmc.DrvLoop

/-!
# Requests up to their loops

What both directions have in common: which transfers go through, where a request
enters its loops (`Entered`), and when these end (`orderly_iff`).
-/

namespace Melis.Sdmmc.Drv

open Lib

/-! ## Transfers -/

/-- The card has the `n` bytes from where a transfer at position `pos` starts. -/
def Card.Has (card : Card) (pos n : Nat) : Prop := card.address (sblk (i32 pos)) + n ≤ card.bytes

instance (card : Card) (pos n : Nat) : Decidable (card.Has pos n) :=
  inferInstanceAs (Decidable (_ ≤ _))

/-- The transfers of a port are those of the card. -/
structure Port.Follows (port : Port) (card : Card) : Prop where
  log : ∀ m data sblk nblk, (port.blocks m data sblk nblk).1.log = m.log ++ [(sblk, nblk)]
  result : ∀ m data sblk nblk, (port.blocks m data sblk nblk).2 = 0 ↔
    nblk ≤ card.maxTransLen / 512 ∧ card.responds m.log.length = 0 ∧
      card.address sblk + 512 * nblk ≤ card.bytes
  sectorLog : ∀ m sblk, (port.sector m sblk).1.log = m.log ++ [(sblk, 1)]
  sectorResult : ∀ m sblk, (port.sector m sblk).2 = 0 ↔
    card.responds m.log.length = 0 ∧ card.address sblk + 512 ≤ card.bytes

section

variable {card : Card} {port : Port} {m : Mem} {f : Mem → Nat → Mem} {pos n s nblk : Nat}

theorem Card.le_maxTransLen (card : Card) : 1024 ≤ card.maxTransLen := by
  have := card.dmaBufSize_pos
  unfold maxTransLen
  omega

theorem Card.dvd_maxTransLen (card : Card) : 512 ∣ card.maxTransLen :=
  Nat.dvd_mul_left_of_dvd (by decide) _

theorem Card.totalBytes_eq (card : Card) : card.totalBytes = card.bytes % 2 ^ 32 := by
  unfold totalBytes sectorCount bytes
  omega

theorem Card.totalBytes_le (card : Card) : card.totalBytes ≤ card.bytes := by
  rw [totalBytes_eq]
  exact Nat.mod_le _ _

theorem Card.totalBytes_lt (card : Card) : card.totalBytes < 2 ^ 32 := by
  rw [totalBytes_eq]
  exact Nat.mod_lt _ (by decide)

theorem finish_log (hf : ∀ m a, (f m a).log = m.log) :
    (Mem.finish (transfer card m s nblk) f).1.log = m.log ++ [(s, nblk)] := by
  unfold Mem.finish
  split
  · rename_i h
    exact congrArg Mem.log (Prod.mk.inj h).1.symm
  · rename_i h
    exact (hf _ _).trans (congrArg Mem.log (Prod.mk.inj h).1.symm)

/-- A transfer that goes through leaves what `f` makes of its bytes. -/
theorem finish_ok (hn : nblk ≤ card.maxTransLen / 512) (hr : card.responds m.log.length = 0)
    (ha : card.address s + 512 * nblk ≤ card.bytes) : Mem.finish (transfer card m s nblk) f =
      (f { m with log := m.log ++ [(s, nblk)] } (card.address s), 0) := by
  unfold Mem.finish transfer
  rw [if_neg (Nat.not_lt.2 hn), if_neg (not_not.2 hr), if_neg (Nat.not_lt.2 ha)]

theorem finish_result : (Mem.finish (transfer card m s nblk) f).2 = 0 ↔
    nblk ≤ card.maxTransLen / 512 ∧ card.responds m.log.length = 0 ∧
      card.address s + 512 * nblk ≤ card.bytes := by
  constructor
  · intro h
    unfold Mem.finish transfer at h
    split at h
    · rename_i ret heq
      obtain ⟨-, heq⟩ := Prod.mk.inj heq
      dsimp only at h
      subst h
      split at heq
      · cases heq
      · split at heq
        · rename_i hr
          exact absurd (Except.error.inj heq) hr
        · split at heq
          · cases heq
          · cases heq
    · rename_i heq
      obtain ⟨-, heq⟩ := Prod.mk.inj heq
      split at heq
      · cases heq
      · rename_i hn
        split at heq
        · cases heq
        · rename_i hr
          split at heq
          · cases heq
          · rename_i ha
            exact ⟨Nat.not_lt.1 hn, not_not.1 hr, Nat.not_lt.1 ha⟩
  · rintro ⟨hn, hr, ha⟩
    rw [finish_ok hn hr ha]

theorem reader_follows (card : Card) : (reader card).Follows card where
  log _ _ _ _ := finish_log fun _ _ => rfl
  result _ _ _ _ := finish_result
  sectorLog _ _ := finish_log fun _ _ => rfl
  sectorResult _ _ := by
    have hM := card.le_maxTransLen
    refine finish_result.trans ⟨fun h => h.2, fun h => ⟨by omega, h⟩⟩

theorem writer_follows (card : Card) : (writer card).Follows card where
  log _ _ _ _ := finish_log fun _ _ => rfl
  result _ _ _ _ := finish_result
  sectorLog _ _ := finish_log fun _ _ => rfl
  sectorResult _ _ := by
    have hM := card.le_maxTransLen
    refine finish_result.trans ⟨fun h => h.2, fun h => ⟨by omega, h⟩⟩

/-! ## Positions -/

theorem sblk_eq (h : pos < 2 ^ 31) : sblk (i32 pos) = pos / 512 := by
  have htdiv : (pos : Int).tdiv 512 = ((pos / 512 : Nat) : Int) := rfl
  rw [i32_eq (by omega) (by omega), sblk, htdiv, u64]
  omega

theorem address_eq (h : pos < 2 ^ 31) :
    card.address (sblk (i32 pos)) = alignDown pos 512 := by
  rw [sblk_eq h]
  unfold Card.address alignDown
  split <;> omega

/-- Below the end of the card every sector is there. -/
theorem has_sector (h : pos < 2 ^ 31) (hpos : pos < card.totalBytes) :
    card.address (pos / 512) + 512 ≤ card.bytes := by
  have hle := card.totalBytes_le
  have haddr : card.address (sblk (i32 pos)) = alignDown pos 512 := address_eq h
  rw [sblk_eq h] at haddr
  rw [haddr]
  unfold alignDown Card.bytes at *
  omega

end

/-! ## The way to the loops -/

/-- The bytes of a request that are on the card. -/
def taken (card : Card) (pos size : Nat) : Nat := min (card.totalBytes - pos) size

/-- The bytes of the head, none from the start of a sector. -/
def headLen (pos n : Nat) : Nat := if pos % 512 = 0 then 0 else min (512 - pos % 512) n

/-- The transfers of the head. -/
def headCount (pos : Nat) : Nat := if pos % 512 = 0 then 0 else 1

/-- A call gets to its transfers. -/
structure Enters (card : Card) (calls : Calls) (pos size : Nat) : Prop where
  opened : calls.opened = true
  some : size ≠ 0
  control : calls.control = 0
  inside : pos < card.totalBytes
  malloc : pos % 512 ≠ 0 ∨ taken card pos size % 512 ≠ 0 → calls.malloc = true

/-- The start of the transfers. -/
def Mem.begin (m : Mem) (pos n : Nat) : Body := ⟨{ m with sectorBuf := fun _ => 0 }, pos, 0, 0, n⟩

/-- The body `c` is what the head leaves of `b`. -/
structure HeadDone (start : Nat) (b c : Body) : Prop where
  pos : c.pos = i32 ((start + headLen start b.size : Nat) : Int)
  data : c.data = b.data
  sz : c.sz = b.sz + headLen start b.size
  size : c.size = b.size - headLen start b.size
  log : c.mem.log.length = b.mem.log.length + headCount start
  mem : ∀ t ∈ c.mem.log, t ∈ b.mem.log ∨ t.2 = 1

section

variable {card : Card} {port : Port} {calls : Calls} {m : Mem} {b c : Body} {pos size k M : Nat}

theorem u64_natCast (h : pos < 2 ^ 31) : u64 (pos : Int) = pos := by
  unfold u64
  omega

theorem toLoop_of_enters (hpos : pos < 2 ^ 31) (h : Enters card calls pos size) :
    toLoop port card calls pos size m =
      if (headStep port (m.begin pos (taken card pos size))).2 ≠ 0 then
        .inl (Body.outcome (headStep port (m.begin pos (taken card pos size))))
      else .inr (headStep port (m.begin pos (taken card pos size))).1 := by
  have hin : ¬ card.totalBytes ≤ pos := Nat.not_le.2 h.inside
  have hmalloc : ¬ ((pos % 512 ≠ 0 ∨ taken card pos size % 512 ≠ 0) ∧ calls.malloc = false) := by
    rintro ⟨hneed, hnone⟩
    rw [h.malloc hneed] at hnone
    cases hnone
  unfold toLoop
  rw [h.opened, if_neg Bool.noConfusion, if_neg h.some, if_neg (not_not.2 h.control),
    u64_natCast hpos, if_neg hin, u32_eq (by omega)]
  exact if_neg hmalloc

theorem toLoop_of_not_enters (hpos : pos < 2 ^ 31) (h : ¬ Enters card calls pos size) :
    ∃ o, toLoop port card calls pos size m = .inl o := by
  unfold toLoop
  rw [u64_natCast hpos, u32_eq (by omega)]
  by_cases hopened : calls.opened = false
  · exact ⟨_, if_pos hopened⟩
  rw [if_neg hopened]
  by_cases hsize : size = 0
  · exact ⟨_, if_pos hsize⟩
  rw [if_neg hsize]
  by_cases hcontrol : calls.control ≠ 0
  · exact ⟨_, if_pos hcontrol⟩
  rw [if_neg hcontrol]
  by_cases hin : card.totalBytes ≤ pos
  · exact ⟨_, if_pos hin⟩
  rw [if_neg hin]
  by_cases hmalloc : (pos % 512 ≠ 0 ∨ taken card pos size % 512 ≠ 0) ∧ calls.malloc = false
  · exact ⟨_, if_pos hmalloc⟩
  · refine absurd ⟨by simpa using hopened, hsize, not_not.1 hcontrol, Nat.not_le.1 hin, ?_⟩ h
    intro hneed
    by_contra hnone
    exact hmalloc ⟨hneed, by simpa using hnone⟩

/-- A negative position is past the end, as a number of 64 bits. -/
theorem toLoop_of_neg {pos : Int} (hpos : -2 ^ 31 ≤ pos) (hneg : pos < 0) :
    ∃ o, toLoop port card calls pos size m = .inl o := by
  have hlt := card.totalBytes_lt
  have hpast : card.totalBytes ≤ u64 pos := by
    unfold u64
    omega
  unfold toLoop
  rw [if_pos hpast]
  split
  · exact ⟨_, rfl⟩
  · split
    · exact ⟨_, rfl⟩
    · split <;> exact ⟨_, rfl⟩

theorem headLen_le : headLen pos size ≤ size := by
  unfold headLen
  split
  · exact Nat.zero_le _
  · exact Nat.min_le_right _ _

/-- The head goes through if the card answers. -/
theorem headStep_result (hf : port.Follows card) (hpos : pos < 2 ^ 31)
    (hin : pos < card.totalBytes) (hb : b.pos = pos) : (headStep port b).2 = 0 ↔
      (pos % 512 ≠ 0 → card.responds b.mem.log.length = 0) := by
  unfold headStep
  rw [hb, u32_eq (by omega)]
  by_cases haligned : pos % 512 = 0
  · rw [if_pos haligned]
    exact ⟨fun _ h => absurd haligned h, fun _ => rfl⟩
  · rw [if_neg haligned]
    dsimp only
    have hsector : alignDown pos 512 / 512 = pos / 512 := Nat.mul_div_cancel _ (by decide)
    have hresult := hf.sectorResult b.mem (pos / 512)
    rw [hsector]
    constructor
    · intro h _
      by_contra hr
      have hne : (port.sector b.mem (pos / 512)).2 ≠ 0 := fun h0 => hr (hresult.1 h0).1
      rw [if_pos hne] at h
      exact hne h
    · intro h
      rw [if_neg (not_not.2 (hresult.2 ⟨h haligned, has_sector hpos hin⟩))]

theorem headStep_done (hf : port.Follows card) (hpos : pos < 2 ^ 31) (hb : b.pos = pos)
    (h : (headStep port b).2 = 0) : HeadDone pos b (headStep port b).1 := by
  unfold headStep at h ⊢
  rw [hb, u32_eq (by omega)] at h ⊢
  by_cases haligned : pos % 512 = 0
  · rw [if_pos haligned] at h ⊢
    have hlen : headLen pos b.size = 0 := if_pos haligned
    have hcount : headCount pos = 0 := if_pos haligned
    refine ⟨?_, rfl, by rw [hlen]; rfl, by rw [hlen]; rfl, by rw [hcount]; rfl, fun _ h => .inl h⟩
    rw [hb, hlen, i32_eq (by omega) (by omega)]
    rfl
  · rw [if_neg haligned] at h ⊢
    dsimp only at h ⊢
    have hlen : headLen pos b.size = min (512 - (pos - alignDown pos 512)) b.size := by
      rw [headLen, if_neg haligned]
      congr 2
      unfold alignDown
      omega
    have hcount : headCount pos = 1 := if_neg haligned
    split at h
    · rename_i hret
      exact absurd h hret
    · rename_i hret
      rw [if_neg hret]
      have hlog := hf.sectorLog b.mem (alignDown pos 512 / 512)
      refine ⟨?_, rfl, by rw [hlen]; rfl, by rw [hlen]; rfl, ?_, ?_⟩
      · rw [hlen, Int.natCast_add, ← hb]
        rfl
      · show (port.sector b.mem (alignDown pos 512 / 512)).1.log.length = _
        rw [hlog, hcount, List.length_append]
        rfl
      · intro t ht
        have ht' : t ∈ b.mem.log ++ [(alignDown pos 512 / 512, 1)] := hlog ▸ ht
        rcases List.mem_append.1 ht' with ht | ht
        · exact .inl ht
        · right
          rw [List.mem_singleton.1 ht]

/-! ## Which full transfers go through -/

theorem nth_log (hf : port.Follows card) :
    (nth port M b k).mem.log.length = b.mem.log.length + k := by
  induction k with
  | zero => rfl
  | succ k ih =>
    show (port.blocks (nth port M b k).mem _ _ _).1.log.length = _
    rw [hf.log, List.length_append, ih]
    rfl

theorem code_eq_zero_iff (hf : port.Follows card) {q : Nat} (hpos : b.pos = i32 q) :
    code port card.maxTransLen b k = 0 ↔ card.responds (b.mem.log.length + k) = 0 ∧
      card.Has (q + k * card.maxTransLen) card.maxTransLen := by
  have hmul : 512 * (card.maxTransLen / 512) = card.maxTransLen :=
    Nat.mul_div_cancel' card.dvd_maxTransLen
  unfold code
  rw [hf.result, nth_log hf, nth_pos hpos, hmul]
  exact ⟨fun h => h.2, fun h => ⟨Nat.le_refl _, h⟩⟩

end

end Melis.Sdmmc.Drv
