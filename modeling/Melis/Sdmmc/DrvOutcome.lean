import Melis.Sdmmc.DrvOrder

/-!
# When a request succeeds

On a card that answers, a request that has got to its loops succeeds if and only
if these end and the card has the sectors of each transfer (`Served`). `ended` is
where it stands before its tail then.
-/

namespace Melis.Sdmmc.Drv

open Lib

/-- The loops have `len` bytes behind them and `m` bytes from position `q` on to do. -/
structure AtLoop (q m len : Nat) (b : Body) : Prop where
  pos : b.pos = i32 q
  data : b.data = 0
  sz : b.sz = len
  size : b.size = m

/-- The card has the sectors of all transfers for the `m` bytes from position `q` on. -/
structure Served (card : Card) (q m : Nat) : Prop where
  full : ∀ k < m / card.maxTransLen, card.Has (q + k * card.maxTransLen) card.maxTransLen
  last : 512 ≤ m % card.maxTransLen → card.Has (q + m / card.maxTransLen * card.maxTransLen)
    (512 * (m % card.maxTransLen / 512))
  tail : m % 512 ≠ 0 → card.Has (q + (m - m % 512)) 512

/-- The loops end for `m` bytes. -/
def Ends (card : Card) (m : Nat) : Prop := card.maxTransLen ∣ m → m = 0

instance (card : Card) (m : Nat) : Decidable (Ends card m) :=
  inferInstanceAs (Decidable (_ → _))

/-- The transfers of `maxTransLen` bytes and the one behind them. -/
def ended (port : Port) (card : Card) (b : Body) : Body × Int :=
  rest port (nth port card.maxTransLen b (b.size / card.maxTransLen))

section

variable {card : Card} {port : Port} {calls : Calls} {m : Mem} {b c : Body} {pos : Int}
  {q n len size fuel : Nat} {o : Outcome}

/-! ## The last transfers -/

theorem rest_result (hf : port.Follows card) (hr : ∀ k, card.responds k = 0) (hpos : c.pos = i32 q)
    (hlt : c.size < card.maxTransLen) :
    (rest port c).2 = 0 ↔ (512 ≤ c.size → card.Has q (512 * (c.size / 512))) := by
  unfold rest
  by_cases hshort : c.size < 512
  · rw [if_pos hshort]
    exact ⟨fun _ h => absurd hshort (Nat.not_lt.2 h), fun _ => rfl⟩
  · rw [if_neg hshort]
    dsimp only
    have hle : c.size / 512 ≤ card.maxTransLen / 512 := Nat.div_le_div_right (Nat.le_of_lt hlt)
    have hresult := hf.result c.mem c.data (sblk c.pos) (c.size / 512)
    rw [hpos] at hresult ⊢
    constructor
    · intro h _
      by_contra hhas
      have hne : (port.blocks c.mem c.data (sblk (i32 q)) (c.size / 512)).2 ≠ 0 := fun h0 =>
        hhas (hresult.1 h0).2.2
      rw [if_pos hne] at h
      exact hne h
    · intro h
      rw [if_neg (not_not.2 (hresult.2 ⟨hle, hr _, h (Nat.not_lt.1 hshort)⟩))]

theorem rest_done (h : (rest port c).2 = 0) (hpos : c.pos = i32 q) :
    (rest port c).1.pos = i32 ((q + 512 * (c.size / 512) : Nat) : Int) ∧
      (rest port c).1.data = c.data + 512 * (c.size / 512) ∧
      (rest port c).1.sz = c.sz + 512 * (c.size / 512) ∧ (rest port c).1.size = c.size % 512 := by
  unfold rest at h ⊢
  by_cases hshort : c.size < 512
  · rw [if_pos hshort, Nat.div_eq_of_lt hshort, Nat.mod_eq_of_lt hshort]
    exact ⟨hpos, rfl, rfl, rfl⟩
  · rw [if_neg hshort] at h ⊢
    dsimp only at h ⊢
    split at h
    · rename_i hret
      exact absurd h hret
    · rename_i hret
      rw [if_neg hret]
      refine ⟨?_, rfl, rfl, ?_⟩
      · show i32 (c.pos + _) = _
        rw [hpos, i32_i32_add]
        rfl
      · show c.size - 512 * (c.size / 512) = _
        omega

theorem tailStep_result (hf : port.Follows card) (hr : ∀ k, card.responds k = 0)
    (hpos : c.pos = i32 q) : (tailStep port c).2 = 0 ↔ (c.size ≠ 0 → card.Has q 512) := by
  unfold tailStep
  by_cases hsize : c.size = 0
  · rw [if_pos hsize]
    exact ⟨fun _ h => absurd hsize h, fun _ => rfl⟩
  · rw [if_neg hsize]
    dsimp only
    have hresult := hf.sectorResult c.mem (sblk c.pos)
    rw [hpos] at hresult ⊢
    constructor
    · intro h _
      by_contra hhas
      have hne : (port.sector c.mem (sblk (i32 q))).2 ≠ 0 := fun h0 => hhas (hresult.1 h0).2
      rw [if_pos hne] at h
      exact hne h
    · intro h
      rw [if_neg (not_not.2 (hresult.2 ⟨hr _, h hsize⟩))]

theorem tailStep_sz (h : (tailStep port c).2 = 0) : (tailStep port c).1.sz = c.sz + c.size := by
  unfold tailStep at h ⊢
  split at h
  · rename_i hsize
    rw [if_pos hsize, hsize]
    rfl
  · rename_i hsize
    rw [if_neg hsize]
    dsimp only at h ⊢
    split at h
    · rename_i hret
      exact absurd h hret
    · rename_i hret
      rw [if_neg hret]

/-! ## All transfers -/

theorem mod_mod_512 (card : Card) (n : Nat) : n % card.maxTransLen % 512 = n % 512 :=
  Nat.mod_mod_of_dvd n card.dvd_maxTransLen

/-- The whole sectors of `n` bytes are the full transfers and the last one. -/
theorem whole_eq (card : Card) (n : Nat) : n / card.maxTransLen * card.maxTransLen +
    512 * (n % card.maxTransLen / 512) = n - n % 512 := by
  have hdiv := Nat.div_add_mod n card.maxTransLen
  have hmod := mod_mod_512 card n
  rw [Nat.mul_comm] at hdiv
  omega

theorem nth_full_size (card : Card) :
    (nth port card.maxTransLen b (b.size / card.maxTransLen)).size = b.size % card.maxTransLen := by
  have hdiv := Nat.div_add_mod b.size card.maxTransLen
  rw [Nat.mul_comm] at hdiv
  rw [nth_size]
  omega

theorem ended_done (hb : AtLoop q n len b) (h : (ended port card b).2 = 0) :
    (ended port card b).1.pos = i32 ((q + (n - n % 512) : Nat) : Int) ∧
      (ended port card b).1.data = n - n % 512 ∧
      (ended port card b).1.sz = len + (n - n % 512) ∧ (ended port card b).1.size = n % 512 := by
  obtain ⟨hpos, hdata, hsz, hsize⟩ := rest_done h (nth_pos hb.pos)
  rw [nth_full_size] at hpos hdata hsz hsize
  rw [hb.size] at hpos hdata hsz hsize
  unfold ended
  rw [hb.size]
  refine ⟨?_, ?_, ?_, ?_⟩
  · rw [Nat.add_assoc, whole_eq] at hpos
    exact hpos
  · rw [nth_data, hb.data, Nat.zero_add, whole_eq] at hdata
    exact hdata
  · rw [nth_sz, hb.sz, Nat.add_assoc, whole_eq] at hsz
    exact hsz
  · rw [mod_mod_512] at hsize
    exact hsize

theorem ended_result (hf : port.Follows card) (hr : ∀ k, card.responds k = 0)
    (hb : AtLoop q n len b) : (ended port card b).2 = 0 ↔
      (512 ≤ n % card.maxTransLen → card.Has (q + n / card.maxTransLen * card.maxTransLen)
        (512 * (n % card.maxTransLen / 512))) := by
  have hM := card.le_maxTransLen
  have hsize : (nth port card.maxTransLen b (b.size / card.maxTransLen)).size = _ :=
    nth_full_size card
  have hlt : b.size % card.maxTransLen < card.maxTransLen := Nat.mod_lt _ (by omega)
  have hresult := rest_result hf hr (nth_pos (k := b.size / card.maxTransLen) hb.pos)
    (by rw [hsize]; exact hlt)
  rw [hsize, hb.size] at hresult
  unfold ended
  rw [hb.size]
  exact hresult

theorem Served.code (hf : port.Follows card) (hr : ∀ k, card.responds k = 0)
    (hb : AtLoop q n len b) (h : Served card q n) {k : Nat} (hk : k < b.size / card.maxTransLen) :
    Drv.code port card.maxTransLen b k = 0 := by
  rw [hb.size] at hk
  exact (code_eq_zero_iff hf hb.pos).2 ⟨hr _, h.full k hk⟩

theorem Served.result (hf : port.Follows card) (hr : ∀ k, card.responds k = 0)
    (hb : AtLoop q n len b) (h : Served card q n) : (ended port card b).2 = 0 ∧
      (tailStep port (ended port card b).1).2 = 0 := by
  have hended := (ended_result hf hr hb).2 h.last
  obtain ⟨hpos, -, -, hsize⟩ := ended_done hb hended
  refine ⟨hended, (tailStep_result hf hr hpos).2 ?_⟩
  rw [hsize]
  exact h.tail

/-- What a request makes of the bytes behind its head. -/
theorem request_served (hf : port.Follows card) (hr : ∀ k, card.responds k = 0)
    (hloop : toLoop port card calls pos size m = .inr b) (hb : AtLoop q n len b)
    (hends : Ends card n) (h : Served card q n) : request port card calls 2 pos size m =
      some (.ok (len + n), (tailStep port (ended port card b).1).1.mem) := by
  have hM := card.le_maxTransLen
  obtain ⟨hended, htail⟩ := h.result hf hr hb
  have hloops : bodyLoop port card.maxTransLen 2 b = some (ended port card b) := by
    apply bodyLoop_pass (by omega)
    · rw [hb.size]
      exact hends
    · exact fun k hk => h.code hf hr hb hk
  obtain ⟨-, -, hsz, hsize⟩ := ended_done hb hended
  rw [request, hloop]
  dsimp only
  rw [hloops, Option.map_some, if_neg (not_not.2 hended), Body.outcome, if_neg (not_not.2 htail),
    tailStep_sz htail, hsz, hsize]
  have hsum : len + (n - n % 512) + n % 512 = len + n := by omega
  rw [hsum]

/-- A request that succeeds has got all its transfers through. -/
theorem served_of_request {k : Nat} {m' : Mem} (hf : port.Follows card)
    (hr : ∀ k, card.responds k = 0)
    (hloop : toLoop port card calls pos size m = .inr b) (hb : AtLoop q n len b)
    (h : request port card calls fuel pos size m = some (.ok k, m')) :
    Ends card n ∧ Served card q n := by
  have hM := card.le_maxTransLen
  rw [request, hloop] at h
  obtain ⟨r, hloops, hret⟩ := Option.map_eq_some_iff.1 h
  have hok : r.2 = 0 := by
    by_contra hne
    rw [if_pos hne, Body.outcome, if_pos hne] at hret
    cases hret
  rw [if_neg (not_not.2 hok)] at hret
  have htail : (tailStep port r.1).2 = 0 := by
    by_contra hne
    rw [Body.outcome, if_pos hne] at hret
    cases hret
  have hcode : ∀ k, k * card.maxTransLen + card.maxTransLen < n →
      Drv.code port card.maxTransLen b k = 0 := by
    intro k hk
    by_contra hne
    obtain ⟨x, hx, hx2⟩ := bodyLoop_fail (by omega) (by rw [hb.size]; exact hk) hne
    exact hx2 (bodyLoop_eq hx hloops ▸ hok)
  have hterm : Terminates port card.maxTransLen b := ⟨fuel, by rw [hloops]; rfl⟩
  have hends : Ends card n := by
    intro hdvd
    by_contra hne
    refine (terminates_iff (by omega)).1 hterm ⟨?_, ?_, fun k hk => hcode k ?_⟩
    · rw [hb.size]
      exact Nat.pos_of_ne_zero hne
    · rw [hb.size]
      exact hdvd
    · rw [hb.size] at hk
      have hmul : (k + 2) * card.maxTransLen ≤ n / card.maxTransLen * card.maxTransLen :=
        Nat.mul_le_mul_right _ hk
      rw [Nat.div_mul_cancel hdvd, Nat.succ_mul, Nat.succ_mul] at hmul
      omega
  refine ⟨hends, ?_⟩
  have hfull : ∀ k < n / card.maxTransLen, Drv.code port card.maxTransLen b k = 0 := by
    intro k hk
    apply hcode
    have hmul : (k + 1) * card.maxTransLen ≤ n / card.maxTransLen * card.maxTransLen :=
      Nat.mul_le_mul_right _ hk
    have hdiv := Nat.div_add_mod n card.maxTransLen
    rw [Nat.mul_comm] at hdiv
    rw [Nat.succ_mul] at hmul
    by_contra hge
    have hmod : n % card.maxTransLen = 0 := by omega
    have hzero := hends (Nat.dvd_of_mod_eq_zero hmod)
    omega
  have hr' : r = ended port card b := by
    refine bodyLoop_eq hloops (bodyLoop_pass (by omega) ?_ ?_)
    · rw [hb.size]
      exact hends
    · rw [hb.size]
      exact hfull
  subst hr'
  obtain ⟨hpos, -, -, hsize⟩ := ended_done hb hok
  refine ⟨fun k hk => ((code_eq_zero_iff hf hb.pos).1 (hfull k hk)).2,
    (ended_result hf hr hb).1 hok, ?_⟩
  have hlast := (tailStep_result hf hr hpos).1 htail
  rw [hsize] at hlast
  exact hlast

/-- The outcome does not depend on the fuel. -/
theorem request_eq {j : Nat} {x y : Outcome} (hx : request port card calls fuel pos size m = some x)
    (hy : request port card calls j pos size m = some y) : x = y := by
  unfold request at hx hy
  cases hloop : toLoop port card calls pos size m with
  | inl o =>
    rw [hloop] at hx hy
    exact Option.some.inj (hx.symm.trans hy)
  | inr b =>
    rw [hloop] at hx hy
    obtain ⟨r, hr, rfl⟩ := Option.map_eq_some_iff.1 hx
    obtain ⟨s, hs, rfl⟩ := Option.map_eq_some_iff.1 hy
    rw [bodyLoop_eq hr hs]

/-! ## The way to the loops, with nothing failing -/

theorem toLoop_none {start : Nat} (hpos : start < 2 ^ 31)
    (h : size = 0 ∨ card.totalBytes ≤ start) :
    toLoop port card .good start size m = .inl (.ok 0, m) := by
  have hcontrol : ¬ Calls.good.control ≠ 0 := not_not.2 rfl
  unfold toLoop
  rw [if_neg Bool.noConfusion, u64_natCast hpos]
  by_cases hsize : size = 0
  · exact if_pos hsize
  · rw [if_neg hsize, if_neg hcontrol, if_pos (h.resolve_left hsize)]

theorem toLoop_good {start : Nat} (hf : port.Follows card) (hr : ∀ k, card.responds k = 0)
    (hpos : start < 2 ^ 31) (hsize : size ≠ 0) (hin : start < card.totalBytes) :
    (headStep port (m.begin start (taken card start size))).2 = 0 ∧
      toLoop port card .good start size m =
        .inr (headStep port (m.begin start (taken card start size))).1 ∧
      AtLoop (bodyPos card start size) (bodyLen card start size)
        (headLen start (taken card start size))
        (headStep port (m.begin start (taken card start size))).1 := by
  have hresult := (headStep_result (b := m.begin start (taken card start size)) hf hpos hin rfl).2
    fun _ => hr _
  have hloop : toLoop port card .good start size m = _ :=
    toLoop_of_enters hpos ⟨rfl, hsize, rfl, hin, fun _ => rfl⟩
  rw [if_neg (not_not.2 hresult)] at hloop
  have hdone := headStep_done (b := m.begin start (taken card start size)) hf hpos rfl hresult
  exact ⟨hresult, hloop, hdone.pos, hdone.data, hdone.sz.trans (Nat.zero_add _), hdone.size⟩

end

/-! ## Where the bytes are -/

/-- Where the transfer starts that has the byte `k` of `n`. -/
def transferOf (maxTransLen n k : Nat) : Nat :=
  if k < n - n % 512 then k / maxTransLen * maxTransLen else n - n % 512

/-- Where the card has the byte `k` of the `n` bytes from position `q` on, by the transfer that is
made for it. -/
def Card.byteAt (card : Card) (q n k : Nat) : Nat :=
  card.address (sblk (i32 ((q + transferOf card.maxTransLen n k : Nat) : Int))) +
    (k - transferOf card.maxTransLen n k)

section

variable {card : Card} {q n k M : Nat}

theorem transferOf_le : transferOf M n k ≤ k := by
  unfold transferOf
  split
  · exact Nat.div_mul_le_self k M
  · omega

theorem byteAt_lt (h : k < n - n % 512) : card.byteAt q n k =
    card.address (sblk (i32 ((q + k / card.maxTransLen * card.maxTransLen : Nat) : Int))) +
      (k - k / card.maxTransLen * card.maxTransLen) := by
  rw [Card.byteAt, transferOf, if_pos h]

theorem byteAt_ge (h : n - n % 512 ≤ k) : card.byteAt q n k =
    card.address (sblk (i32 ((q + (n - n % 512) : Nat) : Int))) + (k - (n - n % 512)) := by
  rw [Card.byteAt, transferOf, if_neg (Nat.not_lt.2 h)]

/-- Transfers for sectors below 2 GB are where they should be. -/
theorem byteAt_eq (hq : 512 ∣ q) (h : q + k < 2 ^ 31) : card.byteAt q n k = q + k := by
  have hle : transferOf card.maxTransLen n k ≤ k := transferOf_le
  have hdvd : 512 ∣ transferOf card.maxTransLen n k := by
    unfold transferOf
    split
    · exact Nat.dvd_mul_left_of_dvd card.dvd_maxTransLen _
    · exact Nat.dvd_sub_mod n
  rw [Card.byteAt, address_eq (by omega), alignDown_of_dvd (Nat.dvd_add hq hdvd)]
  omega

/-- Below 2 GB the card has all sectors. -/
theorem served_of_le (hq : 512 ∣ q) (hend : q + n ≤ 2 ^ 31) (hin : q + n ≤ card.totalBytes) :
    Served card q n := by
  have hle := card.totalBytes_le
  have hM := card.le_maxTransLen
  have hdiv := Nat.div_add_mod n card.maxTransLen
  have hwhole := whole_eq card n
  rw [Nat.mul_comm] at hdiv
  have hmul : 512 ∣ n / card.maxTransLen * card.maxTransLen :=
    Nat.dvd_mul_left_of_dvd card.dvd_maxTransLen _
  refine ⟨fun k hk => ?_, fun hlast => ?_, fun htail => ?_⟩
  · have hfull : (k + 1) * card.maxTransLen ≤ n / card.maxTransLen * card.maxTransLen :=
      Nat.mul_le_mul_right _ hk
    have hdvd : 512 ∣ k * card.maxTransLen := Nat.dvd_mul_left_of_dvd card.dvd_maxTransLen _
    rw [Nat.succ_mul] at hfull
    rw [Card.Has, address_eq (by omega), alignDown_of_dvd (Nat.dvd_add hq hdvd)]
    omega
  · rw [Card.Has, address_eq (by omega), alignDown_of_dvd (Nat.dvd_add hq hmul)]
    omega
  · have hdvd : 512 ∣ n - n % 512 := Nat.dvd_sub_mod n
    rw [Card.Has, address_eq (by omega), alignDown_of_dvd (Nat.dvd_add hq hdvd)]
    -- the card ends with a sector
    rw [Card.totalBytes_eq] at hin
    unfold Card.bytes at *
    omega

end

end Melis.Sdmmc.Drv
