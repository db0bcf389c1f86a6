import Melis.Sdmmc.DrvRead

/-!
# What a write leaves

`sunxi_sdmmc_write` sends the zeroed `sector_buf` for head and tail and copies it
to the caller's bytes, as a read does. So a write that does not consist of whole
sectors is right for some contents only (`WriteFits`).
-/

namespace Melis.Sdmmc.Drv

open Lib Lib.Memory

/-- The byte `x` of the card after a write of `n` bytes at `pos`. -/
def meant (pos n : Nat) (dev buf : Nat → UInt8) (x : Nat) : UInt8 :=
  if pos ≤ x ∧ x < pos + n then buf (x - pos) else dev x

/-- The call returns a number of bytes, the card has these bytes of the caller's and otherwise what
it had, and the caller's bytes are as they were. -/
def WritesRight (card : Card) (calls : Calls) (pos size : Nat) (dev buf : Nat → UInt8) : Prop :=
  ∃ fuel n m, sunxiSdmmcWrite card calls fuel pos size (.start dev buf) = some (.ok n, m) ∧
    (∀ i < n, m.dev (pos + i) = buf i) ∧ (∀ x, x < pos ∨ pos + n ≤ x → m.dev x = dev x) ∧
      ∀ i, m.buf i = buf i

/-- The bytes of the sectors that hold `n` bytes. -/
def sectorBytes (n : Nat) : Nat := (n + 511) / 512 * 512

/-- What a write needs that is for at least one byte: with `n` bytes behind the head at `q`, the
bytes of head and tail are zero, and so is the rest of their sectors; the bytes behind the head
are where a write sends them anyway, and nothing else is missing. -/
structure WriteFits (card : Card) (pos size : Nat) (dev buf : Nat → UInt8) (q n : Nat) : Prop where
  ends : Ends card n
  served : Served card q n
  zero : ∀ i, i < headLen pos (taken card pos size) ∨ n - n % 512 ≤ i ∧ i < n → buf i = 0
  head : pos % 512 ≠ 0 → ∀ x, alignDown pos 512 ≤ x → x < alignDown pos 512 + 512 →
    meant pos (taken card pos size) dev buf x = 0
  body : ∀ i < sectorBytes n, meant pos (taken card pos size) dev buf (card.byteAt q n i) =
    if i < n - n % 512 then buf i else 0
  missed : ∀ x, q ≤ x → x < q + n → (∀ i < sectorBytes n, card.byteAt q n i ≠ x) →
    dev x = buf (x - pos)

/-! ## Where the sectors are -/

section

variable {card : Card} {q n i j : Nat}

/-- From 2 GB on a position is negative, and so is its sector, of which a command has 32 bits. -/
theorem address_wrap (hdvd : 512 ∣ q) (h : q < 2 ^ 32) : card.address (sblk (i32 q)) =
    if card.blockaddr = true ∧ 2 ^ 31 ≤ q then q + (2 ^ 41 - 2 ^ 32) else q := by
  by_cases hlow : q < 2 ^ 31
  · rw [address_eq hlow, alignDown_of_dvd hdvd, if_neg (by omega)]
  · obtain ⟨s, rfl⟩ := hdvd
    have hneg : i32 ((512 * s : Nat) : Int) = ((512 * s : Nat) : Int) - 2 ^ 32 := by
      unfold i32
      rw [Int.bmod_eq_emod]
      split <;> omega
    have hdiv : (((512 * s : Nat) : Int) - 2 ^ 32).tdiv 512 = (s : Int) - 2 ^ 23 := by
      have hmul : ((512 * s : Nat) : Int) - 2 ^ 32 = 512 * ((s : Int) - 2 ^ 23) := by omega
      rw [hmul, Int.mul_tdiv_cancel_left _ (by decide)]
    rw [sblk, hneg, hdiv, u64]
    unfold Card.address
    cases card.blockaddr with
    | true =>
      rw [if_pos rfl, if_pos ⟨rfl, Nat.not_lt.1 hlow⟩]
      omega
    | false =>
      rw [if_neg Bool.noConfusion, if_neg fun h => Bool.noConfusion h.1]
      omega

theorem transferOf_dvd : 512 ∣ transferOf card.maxTransLen n i := by
  unfold transferOf
  split
  · exact Nat.dvd_mul_left_of_dvd card.dvd_maxTransLen _
  · exact Nat.dvd_sub_mod n

theorem transferOf_lt (hi : i < sectorBytes n) : transferOf card.maxTransLen n i < n := by
  unfold sectorBytes at hi
  unfold transferOf
  split
  · have := Nat.div_mul_le_self i card.maxTransLen
    omega
  · omega

/-- A byte is where it should be or as far off as a position that wraps. -/
theorem byteAt_cases (hdvd : n ≠ 0 → 512 ∣ q) (hend : q + n ≤ 2 ^ 32) (hi : i < sectorBytes n) :
    card.byteAt q n i = q + i ∨ card.byteAt q n i = q + i + (2 ^ 41 - 2 ^ 32) := by
  have hle : transferOf card.maxTransLen n i ≤ i := transferOf_le
  have hlt : transferOf card.maxTransLen n i < n := transferOf_lt hi
  rw [Card.byteAt, address_wrap (Nat.dvd_add (hdvd (by omega)) transferOf_dvd) (by omega)]
  split <;> omega

theorem byteAt_inj (hdvd : n ≠ 0 → 512 ∣ q) (hend : q + n ≤ 2 ^ 32) (hi : i < sectorBytes n)
    (hj : j < sectorBytes n) (h : card.byteAt q n i = card.byteAt q n j) : i = j := by
  have hn : sectorBytes n < n + 512 := by
    unfold sectorBytes
    omega
  rcases @byteAt_cases card q n i hdvd hend hi with hi' | hi' <;>
    rcases @byteAt_cases card q n j hdvd hend hj with hj' | hj' <;> omega

end

/-! ## The head -/

section

variable {card : Card} {m : Mem} {b c : Body} {dev buf : Nat → UInt8}
  {pos size q n len i k data s nblk : Nat}

theorem writer_blocks (h : ((writer card).blocks m data s nblk).2 = 0) :
    ((writer card).blocks m data s nblk).1.buf = m.buf ∧
      ((writer card).blocks m data s nblk).1.sectorBuf = m.sectorBuf ∧
      ((writer card).blocks m data s nblk).1.dev =
        copyN m.dev (card.address s) m.buf data (512 * nblk) := by
  have heq : ((writer card).blocks m data s nblk).1 = _ := finish_eq h
  rw [heq]
  exact ⟨rfl, rfl, rfl⟩

theorem writer_sector (h : ((writer card).sector m s).2 = 0) :
    ((writer card).sector m s).1.buf = m.buf ∧
      ((writer card).sector m s).1.sectorBuf = m.sectorBuf ∧
      ((writer card).sector m s).1.dev = copyN m.dev (card.address s) m.sectorBuf 0 512 := by
  have heq : ((writer card).sector m s).1 = _ := finish_eq h
  rw [heq]
  exact ⟨rfl, rfl, rfl⟩

/-- The head sector and the head of the caller's bytes are zeros. -/
theorem writer_head (hb : b.mem = .start dev buf) (hpos : b.pos = pos) (hlt : pos < 2 ^ 31)
    (hdata : b.data = 0) (h : (headStep (writer card) b).2 = 0) :
    (headStep (writer card) b).1.mem.sectorBuf = (fun _ => 0) ∧
      (∀ i, (headStep (writer card) b).1.mem.buf i = if i < headLen pos b.size then 0 else buf i) ∧
      ∀ x, (headStep (writer card) b).1.mem.dev x =
        if pos % 512 ≠ 0 ∧ alignDown pos 512 ≤ x ∧ x < alignDown pos 512 + 512 then 0
        else dev x := by
  unfold headStep at h ⊢
  rw [hpos, u32_eq (by omega)] at h ⊢
  by_cases haligned : pos % 512 = 0
  · have hlen : headLen pos b.size = 0 := if_pos haligned
    rw [if_pos haligned, hlen, hb]
    exact ⟨rfl, fun i => rfl, fun x => (if_neg fun h => h.1 haligned).symm⟩
  · rw [if_neg haligned] at h ⊢
    dsimp only at h ⊢
    have hlen : headLen pos b.size = min (512 - pos % 512) b.size := if_neg haligned
    split at h
    · rename_i hret
      exact absurd h hret
    · rename_i hret
      rw [if_neg hret]
      obtain ⟨hbuf, hsector, hdev⟩ := writer_sector (not_not.1 hret)
      have hdown : alignDown pos 512 / 512 = pos / 512 := Nat.mul_div_cancel _ (by decide)
      have haddr : card.address (pos / 512) = alignDown pos 512 := by
        have haddr : card.address (sblk (i32 pos)) = alignDown pos 512 := address_eq hlt
        rwa [sblk_eq hlt] at haddr
      have hmod : pos - alignDown pos 512 = pos % 512 := by
        unfold alignDown
        omega
      refine ⟨hsector.trans (congrArg Mem.sectorBuf hb), fun i => ?_, fun x => ?_⟩
      · show copyN ((writer card).sector b.mem _).1.buf b.data
          ((writer card).sector b.mem _).1.sectorBuf _ _ i = _
        rw [hbuf, hsector, hdata, hmod, hlen, hb]
        by_cases hi : i < min (512 - pos % 512) b.size
        · rw [if_pos hi]
          exact if_pos ⟨Nat.zero_le i, by omega⟩
        · rw [if_neg hi]
          exact copyN_out (.inr (by omega))
      · show ((writer card).sector b.mem _).1.dev x = _
        rw [hdev, hdown, haddr, hb]
        by_cases hx : alignDown pos 512 ≤ x ∧ x < alignDown pos 512 + 512
        · rw [if_pos ⟨haligned, hx⟩]
          exact if_pos hx
        · rw [if_neg fun h => hx h.2]
          exact if_neg hx

/-! ## The loops -/

/-- Of the card's bytes those at `place 0`, …, `place (k - 1)` are `value 0`, …,
`value (k - 1)`, and the others are those of `dev`. -/
structure Placed (k : Nat) (place : Nat → Nat) (value dev dev' : Nat → UInt8) : Prop where
  at_place : ∀ i < k, dev' (place i) = value i
  other : ∀ x, (∀ i < k, place i ≠ x) → dev' x = dev x

/-- One more transfer of `len` bytes, which begin with number `k` and go to `addr`. -/
theorem Placed.copyN {place : Nat → Nat} {value src dev' : Nat → UInt8} {addr d : Nat}
    (h : Placed k place value dev dev') (haddr : ∀ j < len, place (k + j) = addr + j)
    (hsrc : ∀ j < len, src (d + j) = value (k + j))
    (hinj : ∀ i < k, ∀ j < len, place i ≠ place (k + j)) :
    Placed (k + len) place value dev (copyN dev' addr src d len) where
  at_place i hi := by
    by_cases hk : i < k
    · rw [copyN_out, h.at_place i hk]
      by_contra hin
      obtain ⟨j, hj⟩ := Nat.exists_eq_add_of_le (show addr ≤ place i by omega)
      exact hinj i hk j (by omega) (by rw [haddr j (by omega), hj])
    · obtain ⟨j, rfl⟩ := Nat.exists_eq_add_of_le (Nat.not_lt.1 hk)
      rw [haddr j (by omega), copyN_in (by omega), hsrc j (by omega)]
  other x hx := by
    rw [copyN_out, h.other x fun i hi => hx i (by omega)]
    by_contra hin
    obtain ⟨j, rfl⟩ := Nat.exists_eq_add_of_le (show addr ≤ x by omega)
    exact hx (k + j) (by omega) (haddr j (by omega))

/-- What is placed depends on its values only where they are used. -/
theorem Placed.congr {place : Nat → Nat} {value value' dev' : Nat → UInt8}
    (h : Placed k place value dev dev') (heq : ∀ i < k, value i = value' i) :
    Placed k place value' dev dev' where
  at_place i hi := (h.at_place i hi).trans (heq i hi)
  other := h.other

/-- The transfer of the byte `k * maxTransLen + j` starts at `k * maxTransLen`. -/
theorem byteAt_full {j : Nat} (hj : j < card.maxTransLen)
    (hlt : k * card.maxTransLen + j < n - n % 512) :
    card.byteAt q n (k * card.maxTransLen + j) =
      card.address (sblk (i32 ((q + k * card.maxTransLen : Nat) : Int))) + j := by
  have hdiv : (k * card.maxTransLen + j) / card.maxTransLen = k :=
    Nat.div_eq_of_lt_le (by omega) (by rw [Nat.succ_mul]; omega)
  rw [byteAt_lt hlt, hdiv, Nat.add_sub_cancel_left]

theorem writer_nth (hb : AtLoop q n len b) (hdvd : n ≠ 0 → 512 ∣ q) (hend : q + n ≤ 2 ^ 32)
    (hk : k ≤ n / card.maxTransLen)
    (hcode : ∀ j < k, code (writer card) card.maxTransLen b j = 0) :
    (nth (writer card) card.maxTransLen b k).mem.buf = b.mem.buf ∧
      (nth (writer card) card.maxTransLen b k).mem.sectorBuf = b.mem.sectorBuf ∧
      Placed (k * card.maxTransLen) (card.byteAt q n) b.mem.buf b.mem.dev
        (nth (writer card) card.maxTransLen b k).mem.dev := by
  have hmul : 512 * (card.maxTransLen / 512) = card.maxTransLen :=
    Nat.mul_div_cancel' card.dvd_maxTransLen
  have hwhole := whole_eq card n
  induction k with
  | zero =>
    refine ⟨rfl, rfl, fun i hi => ?_, fun x _ => rfl⟩
    rw [Nat.zero_mul] at hi
    exact absurd hi (Nat.not_lt_zero i)
  | succ k ih =>
    obtain ⟨ihbuf, ihsector, ihdev⟩ := ih (by omega) fun j hj => hcode j (by omega)
    obtain ⟨hbuf, hsector, hdev⟩ := writer_blocks (hcode k (Nat.lt_succ_self k))
    refine ⟨hbuf.trans ihbuf, hsector.trans ihsector, ?_⟩
    have hfull : (k + 1) * card.maxTransLen ≤ n / card.maxTransLen * card.maxTransLen :=
      Nat.mul_le_mul_right _ hk
    rw [Nat.succ_mul] at hfull ⊢
    have hsectors : n - n % 512 ≤ sectorBytes n := by
      unfold sectorBytes
      omega
    show Placed _ _ _ _ ((writer card).blocks _ _ _ _).1.dev
    rw [hdev, ihbuf, nth_pos hb.pos, nth_data, hb.data, hmul, Nat.zero_add]
    apply ihdev.copyN
    · exact fun j hj => byteAt_full hj (by omega)
    · exact fun j hj => rfl
    · intro i hi j hj heq
      have := byteAt_inj hdvd hend (by omega) (by omega) heq
      omega

theorem writer_rest (h : (rest (writer card) c).2 = 0) :
    (rest (writer card) c).1.mem.buf = c.mem.buf ∧
      (rest (writer card) c).1.mem.sectorBuf = c.mem.sectorBuf ∧
      (rest (writer card) c).1.mem.dev =
        copyN c.mem.dev (card.address (sblk c.pos)) c.mem.buf c.data (512 * (c.size / 512)) := by
  unfold rest at h ⊢
  by_cases hshort : c.size < 512
  · rw [if_pos hshort, Nat.div_eq_of_lt hshort]
    refine ⟨rfl, rfl, funext fun i => ?_⟩
    rw [copyN_out (by omega)]
  · rw [if_neg hshort] at h ⊢
    dsimp only at h ⊢
    split at h
    · rename_i hret
      exact absurd h hret
    · rename_i hret
      rw [if_neg hret]
      exact writer_blocks (not_not.1 hret)

theorem writer_ended (hb : AtLoop q n len b) (hdvd : n ≠ 0 → 512 ∣ q) (hend : q + n ≤ 2 ^ 32)
    (hcode : ∀ k < b.size / card.maxTransLen, code (writer card) card.maxTransLen b k = 0)
    (h : (ended (writer card) card b).2 = 0) :
    (ended (writer card) card b).1.mem.buf = b.mem.buf ∧
      (ended (writer card) card b).1.mem.sectorBuf = b.mem.sectorBuf ∧
      Placed (n - n % 512) (card.byteAt q n) b.mem.buf b.mem.dev
        (ended (writer card) card b).1.mem.dev := by
  have hwhole := whole_eq card n
  rw [hb.size] at hcode
  obtain ⟨hbuf, hsector, hdev⟩ := writer_nth hb hdvd hend (Nat.le_refl _) hcode
  obtain ⟨hbuf', hsector', hdev'⟩ := writer_rest h
  rw [hb.size] at hbuf' hsector' hdev'
  have hstate : ended (writer card) card b =
      rest (writer card) (nth (writer card) card.maxTransLen b (n / card.maxTransLen)) := by
    rw [ended, hb.size]
  have hM := card.le_maxTransLen
  have hlt : n % card.maxTransLen < card.maxTransLen := Nat.mod_lt _ (by omega)
  have hsize : (nth (writer card) card.maxTransLen b (n / card.maxTransLen)).size =
      n % card.maxTransLen := by
    have hsize : (nth (writer card) card.maxTransLen b (b.size / card.maxTransLen)).size = _ :=
      nth_full_size card
    rwa [hb.size] at hsize
  have hsectors : n - n % 512 ≤ sectorBytes n := by
    unfold sectorBytes
    omega
  rw [hstate]
  refine ⟨hbuf'.trans hbuf, hsector'.trans hsector, ?_⟩
  rw [hdev', hbuf, nth_pos hb.pos, nth_data, hb.data, hsize, Nat.zero_add, ← hwhole]
  apply hdev.copyN
  · exact fun j hj => byteAt_full (by omega) (by omega)
  · exact fun j hj => rfl
  · intro i hi j hj heq
    have := byteAt_inj hdvd hend (by omega) (by omega) heq
    omega

/-! ## The tail -/

theorem writer_tail (hpos : c.pos = i32 ((q + (n - n % 512) : Nat) : Int))
    (hdata : c.data = n - n % 512) (hsize : c.size = n % 512) (hdvd : n ≠ 0 → 512 ∣ q)
    (hend : q + n ≤ 2 ^ 32) (hsector : c.mem.sectorBuf = fun _ => 0)
    (hdev : Placed (n - n % 512) (card.byteAt q n) c.mem.buf dev c.mem.dev)
    (h : (tailStep (writer card) c).2 = 0) :
    (∀ i, (tailStep (writer card) c).1.mem.buf i =
        if n - n % 512 ≤ i ∧ i < n then 0 else c.mem.buf i) ∧
      Placed (sectorBytes n) (card.byteAt q n)
        (fun i => if i < n - n % 512 then c.mem.buf i else 0) dev
        (tailStep (writer card) c).1.mem.dev := by
  have hplaced : Placed (n - n % 512) (card.byteAt q n)
      (fun i => if i < n - n % 512 then c.mem.buf i else 0) dev c.mem.dev :=
    hdev.congr fun i hi => (if_pos hi).symm
  unfold tailStep at h ⊢
  by_cases hzero : c.size = 0
  · have hsectors : sectorBytes n = n - n % 512 := by
      unfold sectorBytes
      omega
    rw [if_pos hzero, hsectors]
    exact ⟨fun i => by rw [if_neg (by omega)], hplaced⟩
  · have hsectors : sectorBytes n = n - n % 512 + 512 := by
      unfold sectorBytes
      omega
    rw [if_neg hzero] at h ⊢
    dsimp only at h ⊢
    split at h
    · rename_i hret
      exact absurd h hret
    · rename_i hret
      rw [if_neg hret]
      obtain ⟨hbuf, hsector', hdev'⟩ := writer_sector (not_not.1 hret)
      constructor
      · intro i
        show copyN ((writer card).sector c.mem _).1.buf c.data
          ((writer card).sector c.mem _).1.sectorBuf 0 c.size i = _
        rw [hbuf, hsector', hdata, hsize, hsector]
        by_cases hi : n - n % 512 ≤ i ∧ i < n
        · rw [if_pos hi]
          exact if_pos ⟨hi.1, by omega⟩
        · rw [if_neg hi, copyN_out (by omega)]
      · show Placed _ _ _ _ ((writer card).sector c.mem _).1.dev
        rw [hdev', hpos, hsectors, hsector]
        apply hplaced.copyN
        · intro j hj
          rw [byteAt_ge (by omega), Nat.add_sub_cancel_left]
        · intro j hj
          rw [if_neg (by omega)]
        · intro i hi j hj heq
          have := byteAt_inj hdvd hend (by omega) (by omega) heq
          omega

/-! ## The call -/

theorem bodyPos_eq (h : bodyLen card pos size ≠ 0) : bodyPos card pos size =
    if pos % 512 = 0 then pos else alignDown pos 512 + 512 := by
  unfold bodyPos bodyLen headLen alignDown at *
  by_cases haligned : pos % 512 = 0
  · rw [if_pos haligned] at *
    rw [if_pos haligned]
    rfl
  · rw [if_neg haligned] at *
    rw [if_neg haligned]
    omega

theorem bodyPos_dvd (h : bodyLen card pos size ≠ 0) : 512 ∣ bodyPos card pos size := by
  rw [bodyPos_eq h]
  unfold alignDown
  split <;> omega

theorem body_eq (card : Card) (pos size : Nat) :
    bodyPos card pos size + bodyLen card pos size = pos + taken card pos size := by
  have hle : headLen pos (taken card pos size) ≤ taken card pos size := headLen_le
  unfold bodyPos bodyLen
  omega

/-- The bytes of the caller behind the head. -/
def headless (card : Card) (pos size : Nat) (buf : Nat → UInt8) (i : Nat) : UInt8 :=
  if i < headLen pos (taken card pos size) then 0 else buf i

/-- The bytes of the card behind the head. -/
def headSector (pos : Nat) (dev : Nat → UInt8) (x : Nat) : UInt8 :=
  if pos % 512 ≠ 0 ∧ alignDown pos 512 ≤ x ∧ x < alignDown pos 512 + 512 then 0 else dev x

/-- What a write does that succeeds. -/
theorem sunxiSdmmcWrite_placed (hr : ∀ k, card.responds k = 0) (hpos : pos < 2 ^ 31)
    (hsize : size ≠ 0) (hin : pos < card.totalBytes) (hq : q = bodyPos card pos size)
    (hn : n = bodyLen card pos size) (hends : Ends card n) (hserved : Served card q n) :
    ∃ m, sunxiSdmmcWrite card .good 2 pos size (.start dev buf) =
        some (.ok (taken card pos size), m) ∧
      (∀ i, m.buf i = if n - n % 512 ≤ i ∧ i < n then 0 else headless card pos size buf i) ∧
      Placed (sectorBytes n) (card.byteAt q n)
        (fun i => if i < n - n % 512 then headless card pos size buf i else 0)
        (headSector pos dev) m.dev := by
  subst hq hn
  have hf := writer_follows card
  obtain ⟨hhead, hloop, hb⟩ := toLoop_good (m := .start dev buf) hf hr hpos hsize hin
  obtain ⟨hsector, hbuf, hdev⟩ := writer_head
    (b := (Mem.start dev buf).begin pos (taken card pos size)) rfl rfl hpos rfl hhead
  have hbuf' : _ = headless card pos size buf := funext hbuf
  have hdev' : _ = headSector pos dev := funext hdev
  obtain ⟨hended, htail⟩ := hserved.result hf hr hb
  have hsum : headLen pos (taken card pos size) + bodyLen card pos size = taken card pos size :=
    Nat.add_sub_cancel' headLen_le
  have hcall := request_served hf hr hloop hb hends hserved
  rw [hsum] at hcall
  have hend : bodyPos card pos size + bodyLen card pos size ≤ 2 ^ 32 := by
    have hlt := card.totalBytes_lt
    rw [body_eq]
    unfold taken
    omega
  obtain ⟨hbufE, hsectorE, hdevE⟩ := writer_ended hb bodyPos_dvd hend
    (fun k hk => hserved.code hf hr hb hk) hended
  obtain ⟨hposE, hdataE, -, hsizeE⟩ := ended_done hb hended
  rw [← hbufE, hdev'] at hdevE
  obtain ⟨hbufT, hdevT⟩ := writer_tail hposE hdataE hsizeE bodyPos_dvd hend
    (hsectorE.trans hsector) hdevE htail
  rw [hbufE, hbuf'] at hbufT hdevT
  exact ⟨_, hcall, hbufT, hdevT⟩

/-! ## When it is what is meant -/

variable {dev' buf' : Nat → UInt8}

theorem meant_iff : (∀ x, dev' x = meant pos n dev buf x) ↔
    (∀ i < n, dev' (pos + i) = buf i) ∧ ∀ x, x < pos ∨ pos + n ≤ x → dev' x = dev x := by
  constructor
  · intro h
    refine ⟨fun i hi => ?_, fun x hx => ?_⟩
    · rw [h, meant, if_pos (by omega), Nat.add_sub_cancel_left]
    · rw [h, meant, if_neg (by omega)]
  · rintro ⟨hin, hout⟩ x
    unfold meant
    split
    · rename_i hx
      obtain ⟨i, rfl⟩ := Nat.exists_eq_add_of_le hx.1
      rw [Nat.add_sub_cancel_left]
      exact hin i (by omega)
    · exact hout x (by omega)

/-- The sectors behind the head do not touch its sector. -/
theorem head_ne_byteAt {x : Nat} (hq : q = bodyPos card pos size) (hn : n = bodyLen card pos size)
    (hend : q + n ≤ 2 ^ 32) (haligned : pos % 512 ≠ 0) (hx : x < alignDown pos 512 + 512) :
    ∀ i < sectorBytes n, card.byteAt q n i ≠ x := by
  subst hq hn
  intro i hi heq
  have hne : bodyLen card pos size ≠ 0 := by
    intro h0
    rw [h0] at hi
    exact absurd hi (Nat.not_lt_zero i)
  have hpos := bodyPos_eq hne
  rw [if_neg haligned] at hpos
  rcases @byteAt_cases card _ _ i bodyPos_dvd hend hi with h | h <;> omega

theorem writeFits_iff (hq : q = bodyPos card pos size) (hn : n = bodyLen card pos size)
    (hend : q + n ≤ 2 ^ 32) (hends : Ends card n) (hserved : Served card q n)
    (hbuf : ∀ i, buf' i = if n - n % 512 ≤ i ∧ i < n then 0 else headless card pos size buf i)
    (hdev : Placed (sectorBytes n) (card.byteAt q n)
      (fun i => if i < n - n % 512 then headless card pos size buf i else 0)
      (headSector pos dev) dev') :
    (∀ x, dev' x = meant pos (taken card pos size) dev buf x) ∧ (∀ i, buf' i = buf i) ↔
      WriteFits card pos size dev buf q n := by
  have hsum := body_eq card pos size
  rw [← hq, ← hn] at hsum
  constructor
  · rintro ⟨hmeant, hkept⟩
    have hzero : ∀ i, i < headLen pos (taken card pos size) ∨ n - n % 512 ≤ i ∧ i < n →
        buf i = 0 := by
      intro i hi
      rw [← hkept, hbuf]
      by_cases htail : n - n % 512 ≤ i ∧ i < n
      · rw [if_pos htail]
      · rw [if_neg htail, headless, if_pos (hi.resolve_right htail)]
    have hheadless : ∀ i, headless card pos size buf i = buf i := by
      intro i
      unfold headless
      split
      · rename_i hi
        exact (hzero i (.inl hi)).symm
      · rfl
    refine ⟨hends, hserved, hzero, fun haligned x hlo hhi => ?_, fun i hi => ?_,
      fun x hlo hhi hx => ?_⟩
    · rw [← hmeant, hdev.other x (head_ne_byteAt hq hn hend haligned hhi), headSector,
        if_pos ⟨haligned, hlo, hhi⟩]
    · rw [← hmeant, hdev.at_place i hi]
      rw [hheadless]
    · have hne : bodyLen card pos size ≠ 0 := by omega
      have hstart := bodyPos_eq hne
      have hout : ¬ (pos % 512 ≠ 0 ∧ alignDown pos 512 ≤ x ∧ x < alignDown pos 512 + 512) := by
        rintro ⟨haligned, -, hx'⟩
        rw [if_neg haligned] at hstart
        omega
      have hpos : pos ≤ q := by
        rw [hq]
        exact Nat.le_add_right _ _
      have hx' := hmeant x
      rw [hdev.other x hx, headSector, if_neg hout, meant, if_pos (by omega)] at hx'
      exact hx'
  · intro hfits
    have hheadless : ∀ i, headless card pos size buf i = buf i := by
      intro i
      unfold headless
      split
      · rename_i hi
        exact (hfits.zero i (.inl hi)).symm
      · rfl
    constructor
    · intro x
      by_cases hplace : ∃ i < sectorBytes n, card.byteAt q n i = x
      · obtain ⟨i, hi, rfl⟩ := hplace
        rw [hfits.body i hi, hdev.at_place i hi]
        rw [hheadless]
      · have hx : ∀ i < sectorBytes n, card.byteAt q n i ≠ x := fun i hi heq => hplace ⟨i, hi, heq⟩
        rw [hdev.other x hx, headSector]
        split
        · rename_i hhead
          exact (hfits.head hhead.1 x hhead.2.1 hhead.2.2).symm
        · rename_i hhead
          unfold meant
          split
          · rename_i hin
            by_cases hlo : q ≤ x
            · exact hfits.missed x hlo (by omega) hx
            · -- such a byte is in the head
              exfalso
              have hlen : x < pos + headLen pos (taken card pos size) := by
                rw [hq] at hlo
                exact Nat.not_le.1 hlo
              have haligned : pos % 512 ≠ 0 := by
                intro h0
                rw [headLen, if_pos h0] at hlen
                omega
              rw [headLen, if_neg haligned] at hlen
              refine hhead ⟨haligned, ?_, ?_⟩ <;> unfold alignDown <;> omega
          · rfl
    · intro i
      rw [hbuf]
      split
      · rename_i hi
        exact (hfits.zero i (.inr hi)).symm
      · exact hheadless i

/-- Writes of whole sectors below 2 GB fit, except for multiples of `maxTransLen`. -/
theorem writeFits_of_aligned (haligned : pos % 512 = 0) (hsectors : size % 512 = 0)
    (hin : pos + size ≤ card.totalBytes) (hlt : pos + size ≤ 2 ^ 31) (hends : Ends card size) :
    WriteFits card pos size dev buf (bodyPos card pos size) (bodyLen card pos size) := by
  have htaken : taken card pos size = size := Nat.min_eq_right (by omega)
  have hlen : headLen pos (taken card pos size) = 0 := if_pos haligned
  have hbody : bodyLen card pos size = size := by
    rw [bodyLen, hlen, htaken, Nat.sub_zero]
  have hstart : bodyPos card pos size = pos := by
    rw [bodyPos, hlen, Nat.add_zero]
  have hdvd : 512 ∣ pos := Nat.dvd_of_mod_eq_zero haligned
  have hbytes : sectorBytes size = size := by
    unfold sectorBytes
    omega
  have hplace : ∀ i < size, card.byteAt pos size i = pos + i := fun i hi =>
    byteAt_eq hdvd (by omega)
  rw [hbody, hstart]
  refine ⟨hends, served_of_le hdvd hlt hin, fun i hi => by omega, fun h => absurd haligned h,
    fun i hi => ?_, fun x hlo hhi hx => ?_⟩
  · rw [hbytes] at hi
    rw [hplace i hi, htaken, meant, if_pos (by omega), if_pos (by omega), Nat.add_sub_cancel_left]
  · obtain ⟨i, rfl⟩ := Nat.exists_eq_add_of_le hlo
    exact absurd (hplace i (by omega)) (hx i (by omega))

end

/-- A write is right if and only if it takes on no byte or fits. -/
theorem writesRight_iff (card : Card) (hr : ∀ k, card.responds k = 0) (pos size : Nat)
    (hpos : pos < 2 ^ 31) (dev buf : Nat → UInt8) :
    WritesRight card .good pos size dev buf ↔ size = 0 ∨ card.totalBytes ≤ pos ∨
      WriteFits card pos size dev buf (bodyPos card pos size) (bodyLen card pos size) := by
  have hf := writer_follows card
  by_cases hnone : size = 0 ∨ card.totalBytes ≤ pos
  · have hloop : toLoop (writer card) card .good pos size (.start dev buf) = _ :=
      toLoop_none hpos hnone
    refine ⟨fun _ => hnone.imp_right .inl, fun _ => ⟨0, 0, .start dev buf, ?_,
      fun i hi => absurd hi (Nat.not_lt_zero i), fun x _ => rfl, fun i => rfl⟩⟩
    rw [sunxiSdmmcWrite, request, hloop]
  · obtain ⟨hsize, hpast⟩ := not_or.1 hnone
    have hin := Nat.not_le.1 hpast
    have hend : bodyPos card pos size + bodyLen card pos size ≤ 2 ^ 32 := by
      have hlt := card.totalBytes_lt
      rw [body_eq]
      unfold taken
      omega
    constructor
    · rintro ⟨fuel, n, m, hcall, hbytes, hother, hkept⟩
      right
      right
      obtain ⟨-, hloop, hb⟩ := toLoop_good (m := .start dev buf) hf hr hpos hsize hin
      obtain ⟨hends, hserved⟩ := served_of_request hf hr hloop hb hcall
      obtain ⟨m', hcall', hbuf, hdev⟩ := @sunxiSdmmcWrite_placed card dev buf pos size _ _ hr hpos
        hsize hin rfl rfl hends hserved
      obtain ⟨hret, rfl⟩ := Prod.mk.inj (request_eq hcall hcall')
      obtain rfl := Except.ok.inj hret
      exact (writeFits_iff rfl rfl hend hends hserved hbuf hdev).1
        ⟨meant_iff.2 ⟨hbytes, hother⟩, hkept⟩
    · intro h
      have hfits := (h.resolve_left hsize).resolve_left hpast
      obtain ⟨m, hcall, hbuf, hdev⟩ := @sunxiSdmmcWrite_placed card dev buf pos size _ _ hr hpos
        hsize hin rfl rfl hfits.ends hfits.served
      obtain ⟨hmeant, hkept⟩ :=
        (writeFits_iff rfl rfl hend hfits.ends hfits.served hbuf hdev).2 hfits
      obtain ⟨hbytes, hother⟩ := meant_iff.1 hmeant
      exact ⟨2, _, m, hcall, hbytes, hother, hkept⟩

theorem writesRight_iff_sector : WritesRight (.plain 1024 (by decide)) .good 512 1024
    (fun _ => 0) fun x => UInt8.ofNat x :=
  (writesRight_iff (.plain 1024 (by decide)) (fun _ => rfl) 512 1024 (by decide) _ _).2
    (.inr (.inr (writeFits_of_aligned (by decide) (by decide) (by decide) (by decide) (by decide))))

/-- A write of one byte at the start of the card makes it zero, and the caller's byte too. -/
theorem writesRight_not : ¬ WritesRight (.plain 1024 (by decide)) .good 0 1
    (fun _ => 0) fun _ => 1 := by
  rintro ⟨fuel, n, m, hcall, -, -, hkept⟩
  obtain ⟨m', hcall', hbuf, -⟩ := @sunxiSdmmcWrite_placed (.plain 1024 (by decide)) (fun _ => 0)
    (fun _ => 1) 0 1 0 1 (fun _ => rfl) (by decide) (by decide) (by decide) (by decide) (by decide)
    (by decide) (served_of_le (by decide) (by decide) (by decide))
  obtain ⟨-, rfl⟩ := Prod.mk.inj (request_eq hcall hcall')
  have hfirst := hkept 0
  rw [hbuf] at hfirst
  revert hfirst
  decide

end Melis.Sdmmc.Drv
