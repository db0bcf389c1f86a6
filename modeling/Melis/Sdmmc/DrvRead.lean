import Melis.Sdmmc.DrvOutcome

/-!
# What a read gives

The loops of `sunxi_sdmmc_read` fill the caller's bytes from its first one on,
whatever the head has put there (`sunxiSdmmcRead_buf`). So a read that starts
inside a sector and goes past its end is right for some contents only
(`ReadFits`).
-/

namespace Melis.Sdmmc.Drv

open Lib Lib.Memory

/-- The call returns the number of bytes up to the end of the card, and the caller has them. -/
def ReadsRight (card : Card) (calls : Calls) (pos size : Nat) (dev buf : Nat → UInt8) : Prop :=
  ∃ fuel n m, sunxiSdmmcRead card calls fuel pos size (.start dev buf) = some (.ok n, m) ∧
    n = min size (card.bytes - pos) ∧ ∀ i < n, m.buf i = dev (pos + i)

/-- What a read needs that is for at least one byte of the card. -/
structure ReadFits (card : Card) (pos size : Nat) (dev buf : Nat → UInt8) : Prop where
  inside : min size (card.bytes - pos) ≤ card.totalBytes - pos
  ends : Ends card (bodyLen card pos size)
  served : Served card (bodyPos card pos size) (bodyLen card pos size)
  body : ∀ i < bodyLen card pos size,
    dev (card.byteAt (bodyPos card pos size) (bodyLen card pos size) i) = dev (pos + i)
  left : ∀ i, bodyLen card pos size ≤ i → headLen pos (taken card pos size) ≤ i →
    i < taken card pos size → buf i = dev (pos + i)

section

variable {card : Card} {m : Mem} {b c : Body} {dev buf : Nat → UInt8}
  {pos size q n len i k data s nblk : Nat}

theorem finish_eq {f : Mem → Nat → Mem} (h : (Mem.finish (transfer card m s nblk) f).2 = 0) :
    (Mem.finish (transfer card m s nblk) f).1 =
      f { m with log := m.log ++ [(s, nblk)] } (card.address s) := by
  obtain ⟨hn, hr, ha⟩ := finish_result.1 h
  rw [finish_ok hn hr ha]

theorem reader_blocks (h : ((reader card).blocks m data s nblk).2 = 0) :
    ((reader card).blocks m data s nblk).1.dev = m.dev ∧
      ((reader card).blocks m data s nblk).1.buf =
        copyN m.buf data m.dev (card.address s) (512 * nblk) := by
  have heq : ((reader card).blocks m data s nblk).1 = _ := finish_eq h
  rw [heq]
  exact ⟨rfl, rfl⟩

theorem reader_sector (h : ((reader card).sector m s).2 = 0) :
    ((reader card).sector m s).1.dev = m.dev ∧ ((reader card).sector m s).1.buf = m.buf ∧
      ((reader card).sector m s).1.sectorBuf =
        copyN m.sectorBuf 0 m.dev (card.address s) 512 := by
  have heq : ((reader card).sector m s).1 = _ := finish_eq h
  rw [heq]
  exact ⟨rfl, rfl, rfl⟩

/-! ## The head -/

theorem reader_head (hb : b.mem = .start dev buf) (hpos : b.pos = pos) (hlt : pos < 2 ^ 31)
    (hdata : b.data = 0) (h : (headStep (reader card) b).2 = 0) :
    (headStep (reader card) b).1.mem.dev = dev ∧
      ∀ i, (headStep (reader card) b).1.mem.buf i =
        if i < headLen pos b.size then dev (pos + i) else buf i := by
  unfold headStep at h ⊢
  rw [hpos, u32_eq (by omega)] at h ⊢
  by_cases haligned : pos % 512 = 0
  · have hlen : headLen pos b.size = 0 := if_pos haligned
    rw [if_pos haligned, hlen, hb]
    exact ⟨rfl, fun i => rfl⟩
  · rw [if_neg haligned] at h ⊢
    dsimp only at h ⊢
    have hlen : headLen pos b.size = min (512 - pos % 512) b.size := if_neg haligned
    split at h
    · rename_i hret
      exact absurd h hret
    · rename_i hret
      rw [if_neg hret]
      obtain ⟨hdev, hbuf, hsector⟩ := reader_sector (not_not.1 hret)
      have hdown : alignDown pos 512 / 512 = pos / 512 := Nat.mul_div_cancel _ (by decide)
      have haddr : card.address (pos / 512) = alignDown pos 512 := by
        have haddr : card.address (sblk (i32 pos)) = alignDown pos 512 := address_eq hlt
        rwa [sblk_eq hlt] at haddr
      have hmod : pos - alignDown pos 512 = pos % 512 := by
        unfold alignDown
        omega
      refine ⟨hdev.trans (congrArg Mem.dev hb), fun i => ?_⟩
      show copyN ((reader card).sector b.mem _).1.buf b.data
        ((reader card).sector b.mem _).1.sectorBuf _ _ i = _
      rw [hbuf, hsector, hdown, haddr, hdata, hmod, hlen, hb]
      by_cases hi : i < min (512 - pos % 512) b.size
      · rw [if_pos hi]
        have hin : copyN buf 0 (copyN (fun _ => 0) 0 dev (alignDown pos 512) 512) (pos % 512)
            (min (512 - pos % 512) b.size) (0 + i) = _ := copyN_in hi
        have hin' : copyN (fun _ => 0) 0 dev (alignDown pos 512) 512 (0 + (pos % 512 + i)) =
            dev (alignDown pos 512 + (pos % 512 + i)) := copyN_in (by omega)
        rw [Nat.zero_add] at hin hin'
        have hsum : alignDown pos 512 + (pos % 512 + i) = pos + i := by omega
        rw [hsum] at hin'
        exact hin.trans hin'
      · rw [if_neg hi]
        exact copyN_out (.inr (by omega))

/-! ## The loops -/

theorem reader_nth (hpos : b.pos = i32 q) (hdata : b.data = 0)
    (hcode : ∀ j < k, code (reader card) card.maxTransLen b j = 0) :
    (nth (reader card) card.maxTransLen b k).mem.dev = b.mem.dev ∧
      ∀ i, (nth (reader card) card.maxTransLen b k).mem.buf i =
        if i < k * card.maxTransLen then
          b.mem.dev (card.address (sblk (i32
            ((q + i / card.maxTransLen * card.maxTransLen : Nat) : Int))) +
              (i - i / card.maxTransLen * card.maxTransLen))
        else b.mem.buf i := by
  have hmul : 512 * (card.maxTransLen / 512) = card.maxTransLen :=
    Nat.mul_div_cancel' card.dvd_maxTransLen
  induction k with
  | zero => exact ⟨rfl, fun i => by rw [Nat.zero_mul, if_neg (Nat.not_lt_zero i)]; rfl⟩
  | succ k ih =>
    obtain ⟨ihdev, ihbuf⟩ := ih fun j hj => hcode j (by omega)
    obtain ⟨hdev, hbuf⟩ := reader_blocks (hcode k (Nat.lt_succ_self k))
    refine ⟨hdev.trans ihdev, fun i => ?_⟩
    show ((reader card).blocks _ _ _ _).1.buf i = _
    rw [hbuf, nth_pos hpos, nth_data, hdata, hmul, ihdev, Nat.zero_add, Nat.succ_mul]
    by_cases hlo : i < k * card.maxTransLen
    · rw [copyN_out (.inl hlo), ihbuf, if_pos hlo, if_pos (by omega)]
    · by_cases hhi : i < k * card.maxTransLen + card.maxTransLen
      · have hdiv : i / card.maxTransLen = k :=
          Nat.div_eq_of_lt_le (Nat.not_lt.1 hlo) (by rw [Nat.succ_mul]; exact hhi)
        obtain ⟨j, rfl⟩ := Nat.exists_eq_add_of_le (Nat.not_lt.1 hlo)
        rw [copyN_in (by omega), if_pos hhi, hdiv, Nat.add_sub_cancel_left]
      · rw [copyN_out (.inr (Nat.not_lt.1 hhi)), ihbuf, if_neg hlo, if_neg hhi]

theorem reader_rest (h : (rest (reader card) c).2 = 0) :
    (rest (reader card) c).1.mem.dev = c.mem.dev ∧
      (rest (reader card) c).1.mem.buf =
        copyN c.mem.buf c.data c.mem.dev (card.address (sblk c.pos)) (512 * (c.size / 512)) := by
  unfold rest at h ⊢
  by_cases hshort : c.size < 512
  · rw [if_pos hshort, Nat.div_eq_of_lt hshort]
    refine ⟨rfl, funext fun i => ?_⟩
    rw [copyN_out (by omega)]
  · rw [if_neg hshort] at h ⊢
    dsimp only at h ⊢
    split at h
    · rename_i hret
      exact absurd h hret
    · rename_i hret
      rw [if_neg hret]
      exact reader_blocks (not_not.1 hret)

/-- The bytes behind the full transfers are in one more. -/
theorem div_of_last (card : Card) {n i : Nat} (hlo : n / card.maxTransLen * card.maxTransLen ≤ i)
    (hhi : i < n) : i / card.maxTransLen = n / card.maxTransLen := by
  have hM := card.le_maxTransLen
  apply Nat.div_eq_of_lt_le hlo
  rw [Nat.succ_mul]
  exact Nat.lt_of_lt_of_le hhi (Nat.le_of_lt (Nat.lt_div_mul_add (by omega)))

theorem reader_ended (hb : AtLoop q n len b)
    (hcode : ∀ k < b.size / card.maxTransLen, code (reader card) card.maxTransLen b k = 0)
    (h : (ended (reader card) card b).2 = 0) :
    (ended (reader card) card b).1.mem.dev = b.mem.dev ∧
      ∀ i, (ended (reader card) card b).1.mem.buf i =
        if i < n - n % 512 then b.mem.dev (card.byteAt q n i) else b.mem.buf i := by
  have hwhole := whole_eq card n
  obtain ⟨hdev, hbuf⟩ := reader_nth hb.pos hb.data hcode
  obtain ⟨hdev', hbuf'⟩ := reader_rest h
  refine ⟨hdev'.trans hdev, fun i => ?_⟩
  show (rest (reader card) _).1.mem.buf i = _
  rw [hbuf', hdev, nth_pos hb.pos, nth_data, hb.data, nth_full_size, Nat.zero_add, hb.size]
  rw [hb.size] at hbuf
  by_cases hlo : i < n / card.maxTransLen * card.maxTransLen
  · rw [copyN_out (.inl hlo), hbuf, if_pos hlo, if_pos (by omega), byteAt_lt (by omega)]
  · by_cases hhi : i < n - n % 512
    · have hdiv := div_of_last card (Nat.not_lt.1 hlo) (show i < n by omega)
      rw [if_pos hhi, byteAt_lt hhi, hdiv]
      obtain ⟨j, rfl⟩ := Nat.exists_eq_add_of_le (Nat.not_lt.1 hlo)
      rw [copyN_in (by omega), Nat.add_sub_cancel_left]
    · rw [copyN_out (.inr (by omega)), hbuf, if_neg hlo, if_neg hhi]

/-! ## The tail -/

theorem reader_tail (hpos : c.pos = i32 ((q + (n - n % 512) : Nat) : Int))
    (hdata : c.data = n - n % 512) (hsize : c.size = n % 512)
    (h : (tailStep (reader card) c).2 = 0) (i : Nat) :
    (tailStep (reader card) c).1.mem.buf i =
      if n - n % 512 ≤ i ∧ i < n then c.mem.dev (card.byteAt q n i) else c.mem.buf i := by
  unfold tailStep at h ⊢
  by_cases hzero : c.size = 0
  · rw [if_pos hzero, if_neg (by omega)]
  · rw [if_neg hzero] at h ⊢
    dsimp only at h ⊢
    split at h
    · rename_i hret
      exact absurd h hret
    · rename_i hret
      rw [if_neg hret]
      obtain ⟨-, hbuf, hsector⟩ := reader_sector (not_not.1 hret)
      show copyN ((reader card).sector c.mem _).1.buf c.data
        ((reader card).sector c.mem _).1.sectorBuf 0 c.size i = _
      rw [hbuf, hsector, hdata, hpos, hsize]
      by_cases hin : n - n % 512 ≤ i ∧ i < n
      · rw [if_pos hin, byteAt_ge hin.1]
        obtain ⟨j, rfl⟩ := Nat.exists_eq_add_of_le hin.1
        rw [copyN_in (by omega), copyN_in (by omega), Nat.add_sub_cancel_left]
      · rw [if_neg hin, copyN_out (by omega)]

/-! ## The call -/

/-- Behind the head everything goes to the caller's first bytes. -/
theorem sunxiSdmmcRead_buf (hr : ∀ k, card.responds k = 0) (hpos : pos < 2 ^ 31)
    (hsize : size ≠ 0) (hin : pos < card.totalBytes) (hends : Ends card (bodyLen card pos size))
    (hserved : Served card (bodyPos card pos size) (bodyLen card pos size)) :
    ∃ m, sunxiSdmmcRead card .good 2 pos size (.start dev buf) =
        some (.ok (taken card pos size), m) ∧
      ∀ i, m.buf i =
        if i < bodyLen card pos size then
          dev (card.byteAt (bodyPos card pos size) (bodyLen card pos size) i)
        else if i < headLen pos (taken card pos size) then dev (pos + i) else buf i := by
  have hf := reader_follows card
  obtain ⟨hhead, hloop, hb⟩ := toLoop_good (m := .start dev buf) hf hr hpos hsize hin
  obtain ⟨hdev, hbuf⟩ := reader_head (b := (Mem.start dev buf).begin pos (taken card pos size))
    rfl rfl hpos rfl hhead
  obtain ⟨hended, htail⟩ := hserved.result hf hr hb
  obtain ⟨hdev', hbuf'⟩ := reader_ended hb (fun k hk => hserved.code hf hr hb hk) hended
  obtain ⟨hposE, hdataE, -, hsizeE⟩ := ended_done hb hended
  have hsum : headLen pos (taken card pos size) + bodyLen card pos size = taken card pos size :=
    Nat.add_sub_cancel' headLen_le
  have hcall := request_served hf hr hloop hb hends hserved
  rw [hsum] at hcall
  refine ⟨_, hcall, fun i => ?_⟩
  rw [reader_tail hposE hdataE hsizeE htail, hdev', hbuf', hdev, hbuf]
  by_cases hi : i < bodyLen card pos size
  · rw [if_pos hi]
    by_cases hlast : bodyLen card pos size - bodyLen card pos size % 512 ≤ i
    · rw [if_pos ⟨hlast, hi⟩]
      rfl
    · rw [if_neg (by omega), if_pos (by omega)]
      rfl
  · rw [if_neg (by omega), if_neg (by omega), if_neg hi]
    rfl

/-- A read of nothing, or past the end of the card. -/
theorem readsRight_none (hpos : pos < 2 ^ 31) (h : size = 0 ∨ card.bytes ≤ pos) :
    ReadsRight card .good pos size dev buf := by
  have hle := card.totalBytes_le
  have hloop : toLoop (reader card) card .good pos size (.start dev buf) = _ :=
    toLoop_none hpos (h.imp_right hle.trans)
  refine ⟨0, 0, .start dev buf, ?_, by omega, fun i hi => absurd hi (Nat.not_lt_zero i)⟩
  rw [sunxiSdmmcRead, request, hloop]

/-- Aligned reads of less than 2 GB fit, except for multiples of `maxTransLen`. -/
theorem readFits_of_aligned (haligned : pos % 512 = 0) (hin : pos + size ≤ card.totalBytes)
    (hlt : pos + size ≤ 2 ^ 31) (hends : Ends card size) : ReadFits card pos size dev buf := by
  have hle := card.totalBytes_le
  have htaken : taken card pos size = size := Nat.min_eq_right (by omega)
  have hlen : headLen pos (taken card pos size) = 0 := if_pos haligned
  have hbody : bodyLen card pos size = size := by
    rw [bodyLen, hlen, htaken, Nat.sub_zero]
  have hstart : bodyPos card pos size = pos := by
    rw [bodyPos, hlen, Nat.add_zero]
  have hdvd : 512 ∣ pos := Nat.dvd_of_mod_eq_zero haligned
  constructor
  · omega
  · rwa [hbody]
  · rw [hbody, hstart]
    exact served_of_le hdvd hlt hin
  · intro i hi
    rw [hbody] at hi ⊢
    rw [hstart, byteAt_eq hdvd (by omega)]
  · intro i hi _ hi'
    omega

end

/-- A read is right if and only if it is for no byte of the card or fits. -/
theorem readsRight_iff (card : Card) (hr : ∀ k, card.responds k = 0) (pos size : Nat)
    (hpos : pos < 2 ^ 31) (dev buf : Nat → UInt8) :
    ReadsRight card .good pos size dev buf ↔
      size = 0 ∨ card.bytes ≤ pos ∨ ReadFits card pos size dev buf := by
  have hf := reader_follows card
  have htaken : taken card pos size = min (card.totalBytes - pos) size := rfl
  have hle := card.totalBytes_le
  constructor
  · rintro ⟨fuel, n, m, hcall, hn, hbytes⟩
    by_cases hnone : size = 0 ∨ card.bytes ≤ pos
    · rcases hnone with h | h
      · exact .inl h
      · exact .inr (.inl h)
    · right
      right
      obtain ⟨hsize, hpast⟩ := not_or.1 hnone
      by_cases hin : pos < card.totalBytes
      · obtain ⟨-, hloop, hb⟩ := toLoop_good (m := .start dev buf) hf hr hpos hsize hin
        obtain ⟨hends, hserved⟩ := served_of_request hf hr hloop hb hcall
        obtain ⟨m', hcall', hbuf⟩ := @sunxiSdmmcRead_buf card dev buf pos size hr hpos hsize hin
          hends hserved
        obtain ⟨hret, rfl⟩ := Prod.mk.inj (request_eq hcall hcall')
        obtain rfl := Except.ok.inj hret
        refine ⟨by omega, hends, hserved, fun i hi => ?_, fun i hbody hhead hi => ?_⟩
        · have hi' : i < taken card pos size := Nat.lt_of_lt_of_le hi (Nat.sub_le _ _)
          have hbyte := hbytes i hi'
          rwa [hbuf, if_pos hi] at hbyte
        · have hbyte := hbytes i hi
          rwa [hbuf, if_neg (Nat.not_lt.2 hbody), if_neg (Nat.not_lt.2 hhead)] at hbyte
      · -- the size of the card has lost its upper bits
        have hloop : toLoop (reader card) card .good pos size (.start dev buf) = _ :=
          toLoop_none hpos (.inr (Nat.not_lt.1 hin))
        rw [sunxiSdmmcRead, request, hloop] at hcall
        obtain ⟨hret, -⟩ := Prod.mk.inj (Option.some.inj hcall)
        obtain rfl := Except.ok.inj hret
        omega
  · intro h
    by_cases hnone : size = 0 ∨ card.bytes ≤ pos
    · exact readsRight_none hpos hnone
    · obtain ⟨hsize, hpast⟩ := not_or.1 hnone
      have hfits := (h.resolve_left hsize).resolve_left hpast
      have hinside := hfits.inside
      have hin : pos < card.totalBytes := by omega
      obtain ⟨m, hcall, hbuf⟩ := @sunxiSdmmcRead_buf card dev buf pos size hr hpos hsize hin
        hfits.ends hfits.served
      refine ⟨2, _, m, hcall, by omega, fun i hi => ?_⟩
      rw [hbuf]
      by_cases hbody : i < bodyLen card pos size
      · rw [if_pos hbody, hfits.body i hbody]
      · rw [if_neg hbody]
        split
        · rfl
        · rename_i hhead
          exact hfits.left i (Nat.not_lt.1 hbody) (Nat.not_lt.1 hhead) hi

theorem readsRight_iff_kilobyte : ReadsRight (.plain 1024 (by decide)) .good 512 1000
    (fun x => UInt8.ofNat x) fun _ => 0 :=
  (readsRight_iff (.plain 1024 (by decide)) (fun _ => rfl) 512 1000 (by decide) _ _).2
    (.inr (.inr (readFits_of_aligned (by decide) (by decide) (by decide) (by decide))))

/-- Of 1000 bytes from the second byte of the card on, the first one is the one after the first
sector. -/
theorem readsRight_not : ¬ ReadsRight (.plain 1024 (by decide)) .good 1 1000
    (fun x => if x = 1 then 1 else 0) fun _ => 0 := by
  rintro ⟨fuel, n, m, hcall, -, hbytes⟩
  obtain ⟨m', hcall', hbuf⟩ := @sunxiSdmmcRead_buf (.plain 1024 (by decide))
    (fun x => if x = 1 then 1 else 0) (fun _ => 0) 1 1000 (fun _ => rfl) (by decide) (by decide)
    (by decide) (by decide) (served_of_le (by decide) (by decide) (by decide))
  obtain ⟨hret, rfl⟩ := Prod.mk.inj (request_eq hcall hcall')
  obtain rfl := Except.ok.inj hret
  have hfirst := hbytes 0 (by decide)
  rw [hbuf] at hfirst
  revert hfirst
  decide

end Melis.Sdmmc.Drv
