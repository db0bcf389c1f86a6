import Melis.Sdmmc.Drv

/-!
# The body loops

`nth k` is where the loops stand after `k` transfers of `maxTransLen` bytes and
`code k` the result of the next one. The loops end for every size that is not a
positive multiple of `maxTransLen`; at such a multiple the inner loop leaves
`maxTransLen` bytes, which neither loop takes.
-/

namespace Melis.Sdmmc.Drv

open Lib

theorem i32_i32_add (x y : Int) : i32 (i32 x + y) = i32 (x + y) := Int.bmod_add_bmod

/-! ## The inner loop -/

section

variable (port : Port) (maxTransLen : Nat) (b : Body)

/-- The loops after `k` full transfers, whatever these returned. -/
def nth : Nat → Body
  | 0 => b
  | k + 1 => (nth k).advance
      (port.blocks (nth k).mem (nth k).data (sblk (nth k).pos) (maxTransLen / 512)).1 maxTransLen

/-- The result of the full transfer with number `k`. -/
def code (k : Nat) : Int :=
  (port.blocks (nth port maxTransLen b k).mem (nth port maxTransLen b k).data
    (sblk (nth port maxTransLen b k).pos) (maxTransLen / 512)).2

end

section

variable {port : Port} {M : Nat} {b c c' : Body} {k K fuel : Nat} {q : Nat} {r : Int}

theorem nth_size : (nth port M b k).size = b.size - k * M := by
  induction k with
  | zero => simp [nth]
  | succ k ih =>
    show (nth port M b k).size - M = _
    rw [ih, Nat.sub_sub, Nat.succ_mul]

theorem nth_data : (nth port M b k).data = b.data + k * M := by
  induction k with
  | zero => simp [nth]
  | succ k ih =>
    show (nth port M b k).data + M = _
    rw [ih, Nat.add_assoc, Nat.succ_mul]

theorem nth_sz : (nth port M b k).sz = b.sz + k * M := by
  induction k with
  | zero => simp [nth]
  | succ k ih =>
    show (nth port M b k).sz + M = _
    rw [ih, Nat.add_assoc, Nat.succ_mul]

theorem nth_pos (hpos : b.pos = i32 q) : (nth port M b k).pos = i32 ((q + k * M : Nat) : Int) := by
  induction k with
  | zero => simpa [nth] using hpos
  | succ k ih =>
    show i32 ((nth port M b k).pos + M) = _
    rw [ih, i32_i32_add, Nat.succ_mul, ← Nat.add_assoc]
    rfl

/-- One turn of the inner loop. -/
theorem maxLoop_nth (h : M < (nth port M b k).size) :
    maxLoop port M (fuel + 1) (nth port M b k) =
      if code port M b k ≠ 0 then ({ nth port M b k with mem := (nth port M b (k + 1)).mem }, code port M b k)
      else maxLoop port M fuel (nth port M b (k + 1)) := by
  rw [maxLoop, if_neg (Nat.not_le.2 h)]
  rfl

theorem maxLoop_le (h : c.size ≤ M) : maxLoop port M fuel c = (c, 0) := by
  cases fuel with
  | zero => rfl
  | succ fuel => exact if_pos h

/-- Before the last bytes there is more than one transfer left. -/
theorem lt_nth_size (hlt : K * M < b.size) (hk : k < K) : M < (nth port M b k).size := by
  have hmul : (k + 1) * M ≤ K * M := Nat.mul_le_mul_right M hk
  rw [nth_size]
  rw [Nat.succ_mul] at hmul
  omega

theorem maxLoop_pass (hlt : K * M < b.size) (hle : b.size ≤ K * M + M)
    (hcode : ∀ k < K, code port M b k = 0) (hk : k ≤ K) (hfuel : K - k ≤ fuel) :
    maxLoop port M fuel (nth port M b k) = (nth port M b K, 0) := by
  induction fuel generalizing k with
  | zero =>
    obtain rfl : k = K := by omega
    rfl
  | succ fuel ih =>
    by_cases hend : k = K
    · subst hend
      apply maxLoop_le
      rw [nth_size]
      omega
    · have hk' : k < K := by omega
      rw [maxLoop_nth (lt_nth_size hlt hk'), if_neg (not_not.2 (hcode k hk'))]
      apply ih <;> omega

theorem maxLoop_fail {j : Nat} (hlt : K * M < b.size) (hj : j < K)
    (hcode : code port M b j ≠ 0) (hk : k ≤ j) (hfuel : j - k < fuel) :
    (maxLoop port M fuel (nth port M b k)).2 ≠ 0 := by
  induction fuel generalizing k with
  | zero => exact absurd hfuel (Nat.not_lt_zero _)
  | succ fuel ih =>
    rw [maxLoop_nth (lt_nth_size hlt (by omega))]
    by_cases hend : k = j
    · subst hend
      rw [if_pos hcode]
      exact hcode
    · split
      · assumption
      · apply ih <;> omega

theorem maxLoop_size (hM : 0 < M) (h : maxLoop port M fuel c = (c', 0)) :
    c' = c ∨ c'.size < c.size := by
  induction fuel generalizing c with
  | zero =>
    obtain ⟨rfl, -⟩ := Prod.mk.inj h
    exact .inl rfl
  | succ fuel ih =>
    rw [maxLoop] at h
    split at h
    · obtain ⟨rfl, -⟩ := Prod.mk.inj h
      exact .inl rfl
    · rename_i hlt
      right
      dsimp only at h
      split at h
      · rename_i hret
        exact absurd (Prod.mk.inj h).2 hret
      · have hless : (c.advance (port.blocks c.mem c.data (sblk c.pos) (M / 512)).1 M).size < c.size := by
          show c.size - M < c.size
          omega
        rcases ih h with rfl | hsize
        · exact hless
        · exact Nat.lt_trans hsize hless

end

/-! ## The outer loop -/

/-- What the outer loop does with less than `maxTransLen` bytes. -/
def rest (port : Port) (c : Body) : Body × Int :=
  if c.size < 512 then (c, 0)
  else
    let r := port.blocks c.mem c.data (sblk c.pos) (c.size / 512)
    if r.2 ≠ 0 then ({ c with mem := r.1 }, r.2)
    else (c.advance r.1 (512 * (c.size / 512)), 0)

/-- The loops end. -/
def Terminates (port : Port) (maxTransLen : Nat) (b : Body) : Prop :=
  ∃ fuel, (bodyLoop port maxTransLen fuel b).isSome

section

variable {port : Port} {M : Nat} {b c c' : Body} {k K fuel : Nat} {q : Nat} {r : Int}

theorem bodyLoop_lt (h : b.size < 512) : bodyLoop port M fuel b = some (b, 0) := by
  unfold bodyLoop
  exact if_pos h

theorem bodyLoop_succ (h : 512 ≤ b.size) : bodyLoop port M (fuel + 1) b =
    if (pass port M b).2 ≠ 0 then some (pass port M b) else bodyLoop port M fuel (pass port M b).1 := by
  rw [bodyLoop, if_neg (Nat.not_lt.2 h)]

theorem bodyLoop_zero (h : 512 ≤ b.size) : bodyLoop port M 0 b = none := by
  rw [bodyLoop, if_neg (Nat.not_lt.2 h)]

/-- A loop that has ended does not depend on the fuel. -/
theorem bodyLoop_eq {j : Nat} {x y : Body × Int} (hx : bodyLoop port M fuel b = some x)
    (hy : bodyLoop port M j b = some y) : x = y := by
  induction fuel generalizing b j with
  | zero =>
    by_cases h : b.size < 512
    · rw [bodyLoop_lt h] at hx hy
      exact Option.some.inj (hx.symm.trans hy)
    · rw [bodyLoop_zero (Nat.not_lt.1 h)] at hx
      cases hx
  | succ fuel ih =>
    by_cases h : b.size < 512
    · rw [bodyLoop_lt h] at hx hy
      exact Option.some.inj (hx.symm.trans hy)
    · rw [Nat.not_lt] at h
      cases j with
      | zero =>
        rw [bodyLoop_zero h] at hy
        cases hy
      | succ j =>
        rw [bodyLoop_succ h] at hx hy
        split at hx
        · rename_i hret
          rw [if_pos hret] at hy
          exact Option.some.inj (hx.symm.trans hy)
        · rename_i hret
          rw [if_neg hret] at hy
          exact ih hx hy

theorem bodyLoop_rest (h : c.size < M) : bodyLoop port M (fuel + 1) c = some (rest port c) := by
  unfold rest
  by_cases h512 : c.size < 512
  · rw [bodyLoop_lt h512, if_pos h512]
  · rw [bodyLoop_succ (Nat.not_lt.1 h512), if_neg h512, pass, if_pos h]
    dsimp only
    split
    · rfl
    · rw [if_neg (not_not.2 rfl)]
      apply bodyLoop_lt
      show c.size - 512 * (c.size / 512) < 512
      omega

/-- The full transfers and the rest. -/
theorem bodyLoop_pass (hM : 512 ≤ M) (hdvd : M ∣ b.size → b.size = 0)
    (hcode : ∀ k < b.size / M, code port M b k = 0) :
    bodyLoop port M 2 b = some (rest port (nth port M b (b.size / M))) := by
  have hmod := Nat.div_add_mod b.size M
  have hlt : b.size % M < M := Nat.mod_lt _ (by omega)
  rw [Nat.mul_comm] at hmod
  by_cases hsize : b.size < M
  · rw [Nat.div_eq_of_lt hsize]
    exact bodyLoop_rest hsize
  · have hpos : b.size % M ≠ 0 := fun h0 => by
      have := hdvd (Nat.dvd_of_mod_eq_zero h0)
      omega
    have hdiv : b.size / M ≤ b.size := Nat.div_le_self _ _
    have hpass : pass port M b = (nth port M b (b.size / M), 0) := by
      rw [pass, if_neg hsize]
      exact maxLoop_pass (k := 0) (by omega) (by omega) hcode (Nat.zero_le _) (by omega)
    rw [bodyLoop_succ (by omega), hpass, if_neg (not_not.2 rfl)]
    apply bodyLoop_rest
    rw [nth_size]
    omega

/-- A full transfer fails. -/
theorem bodyLoop_fail (hM : 512 ≤ M) (hlt : k * M + M < b.size) (hcode : code port M b k ≠ 0) :
    ∃ x, bodyLoop port M 1 b = some x ∧ x.2 ≠ 0 := by
  have hmul : k ≤ k * M := Nat.le_mul_of_pos_right k (by omega)
  have hfail : (pass port M b).2 ≠ 0 := by
    rw [pass, if_neg (by omega)]
    refine maxLoop_fail (K := k + 1) (k := 0) ?_ (Nat.lt_succ_self k) hcode (Nat.zero_le k) ?_
    · rw [Nat.succ_mul]
      exact hlt
    · omega
  refine ⟨_, ?_, hfail⟩
  rw [bodyLoop_succ (by omega), if_pos hfail]

/-- A pass that changes nothing is made again and again. -/
theorem bodyLoop_stuck (hsize : 512 ≤ b.size) (hpass : pass port M b = (b, 0)) :
    bodyLoop port M fuel b = none := by
  induction fuel with
  | zero => exact bodyLoop_zero hsize
  | succ fuel ih =>
    rw [bodyLoop_succ hsize, hpass, if_neg (not_not.2 rfl)]
    exact ih

/-- With `maxTransLen` bytes left, neither loop takes them. -/
theorem pass_of_size (h : b.size = M) : pass port M b = (b, 0) := by
  rw [pass, if_neg (by omega)]
  exact maxLoop_le (Nat.le_of_eq h)

theorem not_terminates (hM : 512 ≤ M) (hpos : 0 < b.size) (hdvd : M ∣ b.size)
    (hcode : ∀ k, k + 1 < b.size / M → code port M b k = 0) : ¬ Terminates port M b := by
  rintro ⟨fuel, hfuel⟩
  obtain ⟨n, hn⟩ := hdvd
  obtain ⟨K, rfl⟩ : ∃ K, n = K + 1 := by
    cases n with
    | zero => omega
    | succ n => exact ⟨n, rfl⟩
  rw [hn, Nat.mul_div_cancel_left _ (by omega)] at hcode
  rw [Nat.mul_comm, Nat.succ_mul] at hn
  have hlast : (nth port M b K).size = M := by
    rw [nth_size]
    omega
  have hstuck : ∀ fuel, bodyLoop port M fuel (nth port M b K) = none := fun fuel =>
    bodyLoop_stuck (by omega) (pass_of_size hlast)
  cases K with
  | zero =>
    rw [show b = nth port M b 0 from rfl, hstuck] at hfuel
    cases hfuel
  | succ K =>
    have hmul : K + 1 ≤ (K + 1) * M := Nat.le_mul_of_pos_right _ (by omega)
    have hmul' : M ≤ (K + 1) * M := Nat.le_mul_of_pos_left M (Nat.succ_pos K)
    have hpass : pass port M b = (nth port M b (K + 1), 0) := by
      rw [pass, if_neg (by omega)]
      exact maxLoop_pass (k := 0) (by omega) (by omega) (fun k hk => hcode k (by omega))
        (Nat.zero_le _) (by omega)
    cases fuel with
    | zero =>
      rw [bodyLoop_zero (by omega)] at hfuel
      cases hfuel
    | succ fuel =>
      rw [bodyLoop_succ (by omega), hpass, if_neg (not_not.2 rfl), hstuck] at hfuel
      cases hfuel

theorem terminates_iff (hM : 512 ≤ M) : Terminates port M b ↔
    ¬ (0 < b.size ∧ M ∣ b.size ∧ ∀ k, k + 1 < b.size / M → code port M b k = 0) := by
  constructor
  · rintro h ⟨hpos, hdvd, hcode⟩
    exact not_terminates hM hpos hdvd hcode h
  · intro h
    by_cases hfail : ∃ k, k * M + M < b.size ∧ code port M b k ≠ 0
    · obtain ⟨k, hlt, hk⟩ := hfail
      obtain ⟨x, hx, -⟩ := bodyLoop_fail hM hlt hk
      exact ⟨1, by rw [hx]; rfl⟩
    · have hcode : ∀ k, k * M + M < b.size → code port M b k = 0 := fun k hlt => by
        by_contra hk
        exact hfail ⟨k, hlt, hk⟩
      by_cases hdvd : M ∣ b.size
      · have hzero : b.size = 0 := by
          by_contra hne
          refine h ⟨Nat.pos_of_ne_zero hne, hdvd, fun k hk => hcode k ?_⟩
          have hmul : (k + 2) * M ≤ b.size / M * M := Nat.mul_le_mul_right M hk
          rw [Nat.div_mul_cancel hdvd, Nat.succ_mul, Nat.succ_mul] at hmul
          omega
        exact ⟨0, by rw [bodyLoop_lt (by omega)]; rfl⟩
      · refine ⟨2, ?_⟩
        rw [bodyLoop_pass hM (fun h => absurd h hdvd) fun k hk => hcode k ?_]
        · rfl
        · have hmul : (k + 1) * M ≤ b.size / M * M := Nat.mul_le_mul_right M hk
          have hmod := Nat.div_add_mod b.size M
          rw [Nat.mul_comm] at hmod
          rw [Nat.succ_mul] at hmul
          have hne : b.size % M ≠ 0 := fun h0 => hdvd (Nat.dvd_of_mod_eq_zero h0)
          omega

/-! ## What a pass leaves -/

theorem Terminates.pass (h : Terminates port M c) (hsize : 512 ≤ c.size)
    (hpass : pass port M c = (c', 0)) : Terminates port M c' := by
  obtain ⟨fuel, hfuel⟩ := h
  cases fuel with
  | zero =>
    rw [bodyLoop_zero hsize] at hfuel
    cases hfuel
  | succ fuel =>
    rw [bodyLoop_succ hsize, hpass, if_neg (not_not.2 rfl)] at hfuel
    exact ⟨fuel, hfuel⟩

/-- In loops that end, each pass takes something off. -/
theorem Terminates.size_lt (hM : 512 ≤ M) (h : Terminates port M c) (hsize : 512 ≤ c.size)
    (hpass : Drv.pass port M c = (c', 0)) : c'.size < c.size := by
  by_cases hlt : c.size < M
  · rw [Drv.pass, if_pos hlt] at hpass
    dsimp only at hpass
    split at hpass
    · rename_i hret
      exact absurd (Prod.mk.inj hpass).2 hret
    · obtain ⟨rfl, -⟩ := Prod.mk.inj hpass
      show c.size - 512 * (c.size / 512) < c.size
      omega
  · have hpass' := hpass
    rw [Drv.pass, if_neg hlt] at hpass
    rcases maxLoop_size (by omega) hpass with rfl | hless
    · -- a pass that takes nothing off never ends
      obtain ⟨fuel, hfuel⟩ := h
      rw [bodyLoop_stuck hsize hpass'] at hfuel
      cases hfuel
    · exact hless

end

end Melis.Sdmmc.Drv
