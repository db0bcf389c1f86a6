import Melis.Ccmu.Divider
import Mathlib.Tactic.Ring
import Mathlib.Tactic.Positivity

/-!
# Where the divider of a peripheral clock is chosen rightly

`set_rate` and `round_rate` look for the divisor in the same way, but not for the same quotient:
`rates_agree_iff` says for which rates the two come to the same rate, and the rate of `round_rate`
is one that `set_rate` keeps.
-/

namespace Melis.Ccmu

open Function

/-- A divider whose two fields are in its register, apart from each other. -/
structure DividerShape extends sunxi_clk_periph_div where
  has_reg : reg ≠ 0
  m_fits : mshift + mwidth ≤ 32
  n_fits : nshift + nwidth ≤ 32
  apart : FieldsDisjoint mshift mwidth nshift nwidth

namespace sunxi_clk_periph_div

variable (divider : sunxi_clk_periph_div)

/-- `D` is a divisor that the two fields can hold. -/
def Reaches (D : Nat) : Prop :=
  ∃ m < 2 ^ divider.mwidth, ∃ n < 2 ^ divider.nwidth, D = (m + 1) * 2 ^ n

instance : DecidablePred divider.Reaches := fun D => by
  unfold Reaches
  infer_instance

/-- The largest divisor of the fields that is not above `d`. -/
def largest (d : Nat) : Nat := Nat.findGreatest divider.Reaches d

/-- The divisor that `set_rate` chooses for the quotient `d`. -/
def setDivisor (d : Nat) : Nat := divider.largest (max d 1)

/-- The divisor that `round_rate` chooses for the quotient `d`. When no turn finds a divisor, the
quotient has been halved once too often. -/
def roundDivisor (d : Nat) : Nat :=
  if divider.mwidth = 31 then max d 1
  else if d / 2 ^ (2 ^ divider.nwidth - 1) ≤ 2 ^ divider.mwidth then divider.largest (max d 1)
  else min (d / 2 ^ 2 ^ divider.nwidth) (2 ^ divider.mwidth) * 2 ^ (2 ^ divider.nwidth - 1)

/-- The rate that a parent rate is divided to. -/
def attained (rate prate : Nat) : Nat := nearest prate (divider.setDivisor (nearest prate rate))

/-- The largest divisor is one of 32 bits, both ways come to the same rate, and for this rate the
divisor is the same. -/
structure RatesAgree (rate prate : Nat) : Prop where
  ranged : divider.mwidth + 2 ^ divider.nwidth ≤ 32
  same : divider.attained rate prate =
    nearest prate (divider.roundDivisor (nearest ((prate + rate / 2 + (2 ^ 32 - 1)) % 2 ^ 32) rate))
  pos : divider.attained rate prate ≠ 0
  again : divider.attained (divider.attained rate prate) prate = divider.attained rate prate

end sunxi_clk_periph_div

/-! ## Division -/

theorem nearest_le (n : Nat) {base : Nat} (h : base ≠ 0) : nearest n base ≤ n := by
  unfold nearest
  split
  · rename_i hrem
    have hbase : 2 ≤ base := by
      have hmod := Nat.mod_lt n (Nat.pos_of_ne_zero h)
      omega
    have hn : n % base ≤ n := Nat.mod_le n base
    have hhalf : n / base ≤ n / 2 := Nat.div_le_div_left hbase (by decide)
    omega
  · exact Nat.div_le_self n base

theorem nearest_one (p : Nat) : nearest p 1 = p := by
  simp [nearest, Nat.mod_one]

theorem do_div_eq {n base : Nat} (h : base ≠ 0) (hbase : base < 2 ^ 32) :
    do_div n base = some (nearest n base) := by
  unfold do_div
  simp only [Nat.mod_eq_of_lt hbase, if_neg h]

theorem intShl_eq {k : Nat} (h : k < 32) : intShl k = some (BitVec.twoPow 32 k) := by
  rw [intShl, if_pos h, BitVec.twoPow_eq]

theorem toNat_twoPow {k : Nat} (h : k < 32) : (BitVec.twoPow 32 k).toNat = 2 ^ k := by
  rw [BitVec.toNat_twoPow]
  exact Nat.mod_eq_of_lt (Nat.pow_lt_pow_right (by decide) h)

theorem toNat_turns {k : Nat} (h : k < 32) : (BitVec.twoPow 32 k - 1).toNat = 2 ^ k - 1 := by
  have hone : (1 : BitVec 32) ≤ BitVec.twoPow 32 k := by
    rw [BitVec.le_def, toNat_twoPow h]
    exact Nat.two_pow_pos k
  rw [BitVec.toNat_sub_of_le hone, toNat_twoPow h]
  rfl

theorem pred_eq {w x : Nat} (h : x ≠ 0) (hx : x ≤ 2 ^ w) : pred w x = x - 1 := by
  have hpos : 0 < 2 ^ w := Nat.two_pow_pos w
  have hsum : x + 2 ^ w - 1 = x - 1 + 2 ^ w := by omega
  rw [pred, hsum, Nat.add_mod_right]
  exact Nat.mod_eq_of_lt (by omega)

/-! ## The search -/

variable {divider : sunxi_clk_periph_div} {d w left i : Nat}

/-- The top bits of a number, as many as fit in `m`, are the largest divisor below it. -/
theorem largest_eq (hi : i < 2 ^ divider.nwidth) (hle : d / 2 ^ i ≤ 2 ^ divider.mwidth)
    (hpos : d / 2 ^ i ≠ 0) (hmore : ∀ j < i, 2 ^ divider.mwidth < d / 2 ^ j) :
    divider.largest d = d / 2 ^ i * 2 ^ i := by
  have hbelow : d / 2 ^ i * 2 ^ i ≤ d := Nat.div_mul_le_self d (2 ^ i)
  have hreach : divider.Reaches (d / 2 ^ i * 2 ^ i) :=
    ⟨d / 2 ^ i - 1, lt_of_lt_of_le (Nat.sub_lt (Nat.pos_of_ne_zero hpos) one_pos) hle, i, hi, by
      rw [Nat.sub_add_cancel (Nat.one_le_iff_ne_zero.2 hpos)]⟩
  have hmost : ∀ D, divider.Reaches D → D ≤ d → D ≤ d / 2 ^ i * 2 ^ i := by
    rintro D ⟨m, hm, n, -, rfl⟩ hD
    rcases Nat.lt_or_ge n i with hn | hn
    · -- a divisor with fewer halvings is at most the top one of the turn before
      obtain ⟨k, rfl⟩ : ∃ k, i = k + 1 := ⟨i - 1, by omega⟩
      have hbefore := hmore k (Nat.lt_succ_self k)
      have htop : (m + 1) * 2 ^ n ≤ 2 ^ divider.mwidth * 2 ^ k :=
        Nat.mul_le_mul hm (Nat.pow_le_pow_right (by decide) (Nat.le_of_lt_succ hn))
      have hhalf : d / 2 ^ (k + 1) = d / 2 ^ k / 2 := by rw [Nat.pow_succ, Nat.div_div_eq_div_mul]
      have htwice : 2 ^ divider.mwidth ≤ d / 2 ^ (k + 1) * 2 := by
        cases hw : divider.mwidth with
        | zero => omega
        | succ mw =>
          rw [hw, Nat.pow_succ] at hbefore
          rw [Nat.pow_succ]
          omega
      calc (m + 1) * 2 ^ n ≤ 2 ^ divider.mwidth * 2 ^ k := htop
        _ ≤ d / 2 ^ (k + 1) * 2 * 2 ^ k := Nat.mul_le_mul_right _ htwice
        _ = d / 2 ^ (k + 1) * 2 ^ (k + 1) := by rw [Nat.pow_succ]; ring
    · -- one with more is a multiple of this power
      obtain ⟨k, rfl⟩ := Nat.exists_eq_add_of_le hn
      have hmul : (m + 1) * 2 ^ (i + k) = (m + 1) * 2 ^ k * 2 ^ i := by rw [Nat.pow_add]; ring
      rw [hmul] at hD ⊢
      exact Nat.mul_le_mul_right _ ((Nat.le_div_iff_mul_le (Nat.two_pow_pos i)).2 hD)
  apply le_antisymm
  · exact hmost _ (Nat.findGreatest_spec hbelow hreach) (Nat.findGreatest_le d)
  · exact Nat.le_findGreatest hbelow hreach

theorem largest_one : divider.largest 1 = 1 := by
  have heq := @largest_eq divider 1 0 (Nat.two_pow_pos _) (by simpa using Nat.one_le_two_pow)
    (by decide) (fun j hj => absurd hj (Nat.not_lt_zero j))
  simpa using heq

/-- All divisors of the fields are below the largest. -/
theorem largest_min :
    divider.largest (min d (2 ^ (divider.mwidth + (2 ^ divider.nwidth - 1)))) = divider.largest d := by
  have hmost : ∀ D, divider.Reaches D → D ≤ 2 ^ (divider.mwidth + (2 ^ divider.nwidth - 1)) := by
    rintro D ⟨m, hm, n, hn, rfl⟩
    rw [Nat.pow_add]
    exact Nat.mul_le_mul hm (Nat.pow_le_pow_right (by decide) (by omega))
  rcases Nat.le_total d (2 ^ (divider.mwidth + (2 ^ divider.nwidth - 1))) with hd | hd
  · rw [Nat.min_eq_left hd]
  · rw [Nat.min_eq_right hd]
    apply le_antisymm
    · exact Nat.findGreatest_mono_right _ hd
    · rcases Nat.eq_zero_or_pos (divider.largest d) with hzero | hpos
      · rw [hzero]
        exact Nat.zero_le _
      · have hreach : divider.Reaches (divider.largest d) :=
          Nat.findGreatest_of_ne_zero rfl (Nat.pos_iff_ne_zero.1 hpos)
        exact Nat.le_findGreatest (hmost _ hreach) hreach

theorem half_eq : d / 2 ^ i / 2 = d / 2 ^ (i + 1) := by rw [Nat.pow_succ, Nat.div_div_eq_div_mul]

theorem quotient_ne_zero (hd : d ≠ 0) (hmore : ∀ j < i, 2 ^ divider.mwidth < d / 2 ^ j) :
    d / 2 ^ i ≠ 0 := by
  cases i with
  | zero => simpa using hd
  | succ k =>
    have hbefore := hmore k (Nat.lt_succ_self k)
    have hm : 0 < 2 ^ divider.mwidth := Nat.two_pow_pos _
    rw [← half_eq]
    omega

/-- Within the turns of the loop, the search ends with the largest divisor below. -/
theorem findFactors_found (hw : divider.mwidth ≤ w) (hd : d ≠ 0)
    (hin : d / 2 ^ (2 ^ divider.nwidth - 1) ≤ 2 ^ divider.mwidth) (left i : Nat)
    (hsum : i + left = 2 ^ divider.nwidth) (hmore : ∀ j < i, 2 ^ divider.mwidth < d / 2 ^ j) :
    let f := findFactors w (2 ^ divider.mwidth) (2 ^ divider.nwidth) left (d / 2 ^ i) i
    f.1 < 2 ^ divider.mwidth ∧ f.2 < 2 ^ divider.nwidth ∧
      (f.1 + 1) * 2 ^ f.2 = divider.largest d := by
  induction left generalizing i with
  | zero =>
    have hn : 0 < 2 ^ divider.nwidth := Nat.two_pow_pos _
    exact absurd hin (not_le.2 (hmore _ (by omega)))
  | succ left ih =>
    have hpos := quotient_ne_zero hd hmore
    unfold findFactors
    by_cases hle : d / 2 ^ i ≤ 2 ^ divider.mwidth
    · have hpred : pred w (d / 2 ^ i) = d / 2 ^ i - 1 :=
        pred_eq hpos (hle.trans (Nat.pow_le_pow_right (by decide) hw))
      rw [if_pos hle, hpred]
      dsimp only
      refine ⟨lt_of_lt_of_le (Nat.sub_lt (Nat.pos_of_ne_zero hpos) one_pos) hle, by omega, ?_⟩
      rw [Nat.sub_add_cancel (Nat.one_le_iff_ne_zero.2 hpos), largest_eq (by omega) hle hpos hmore]
    · have hm : 0 < 2 ^ divider.mwidth := Nat.two_pow_pos _
      have hnext : d / 2 ^ i / 2 ≠ 0 := by omega
      simp only [if_neg hle, if_neg hnext]
      rw [half_eq]
      apply ih (i + 1) (by omega)
      intro j hj
      rcases Nat.lt_succ_iff_lt_or_eq.1 hj with hlt | rfl
      · exact hmore j hlt
      · exact not_le.1 hle

theorem last_ne_zero (hout : 2 ^ divider.mwidth < d / 2 ^ (2 ^ divider.nwidth - 1)) :
    d / 2 ^ 2 ^ divider.nwidth ≠ 0 := by
  have hm : 0 < 2 ^ divider.mwidth := Nat.two_pow_pos _
  obtain ⟨k, hk⟩ : ∃ k, 2 ^ divider.nwidth = k + 1 := by
    have hn : 0 < 2 ^ divider.nwidth := Nat.two_pow_pos _
    exact ⟨2 ^ divider.nwidth - 1, by omega⟩
  rw [hk, Nat.add_sub_cancel] at hout
  rw [hk, ← half_eq]
  omega

/-- When all turns are made, the quotient has been halved in each. -/
theorem findFactors_spent (hw : divider.mwidth ≤ w)
    (hout : 2 ^ divider.mwidth < d / 2 ^ (2 ^ divider.nwidth - 1)) (left i : Nat)
    (hsum : i + left = 2 ^ divider.nwidth) :
    findFactors w (2 ^ divider.mwidth) (2 ^ divider.nwidth) left (d / 2 ^ i) i =
      (min (d / 2 ^ 2 ^ divider.nwidth) (2 ^ divider.mwidth) - 1, 2 ^ divider.nwidth - 1) := by
  have hm : 0 < 2 ^ divider.mwidth := Nat.two_pow_pos _
  induction left generalizing i with
  | zero =>
    have hi : i = 2 ^ divider.nwidth := hsum
    have hlast := last_ne_zero hout
    have hmin : (if d / 2 ^ 2 ^ divider.nwidth > 2 ^ divider.mwidth then 2 ^ divider.mwidth
        else d / 2 ^ 2 ^ divider.nwidth) = min (d / 2 ^ 2 ^ divider.nwidth) (2 ^ divider.mwidth) := by
      split <;> omega
    have hle : min (d / 2 ^ 2 ^ divider.nwidth) (2 ^ divider.mwidth) ≤ 2 ^ w :=
      (Nat.min_le_right _ _).trans (Nat.pow_le_pow_right (by decide) hw)
    unfold findFactors
    rw [hi, hmin, pred_eq (by omega) hle]
  | succ left ih =>
    have hmono : d / 2 ^ (2 ^ divider.nwidth - 1) ≤ d / 2 ^ i :=
      Nat.div_le_div_left (Nat.pow_le_pow_right (by decide) (by omega)) (Nat.two_pow_pos i)
    have hle : ¬ d / 2 ^ i ≤ 2 ^ divider.mwidth := by omega
    have hnext : d / 2 ^ i / 2 ≠ 0 := by omega
    unfold findFactors
    simp only [if_neg hle, if_neg hnext]
    rw [half_eq]
    exact ih (i + 1) (by omega)

/-! ## The rates -/

/-- `set_rate` programs values that fit in their fields, and `recalc_rate` then reports `v`. -/
structure Sets (divider : sunxi_clk_periph_div) (regs : Regs) (rate prate v : BitVec 32) : Prop where
  fits : ∃ f, rateFactors divider rate prate = some f ∧
    f.1 < 2 ^ divider.mwidth ∧ f.2 < 2 ^ divider.nwidth
  reports : ∃ regs', sunxi_clk_periph_set_rate divider regs rate prate = some regs' ∧
    sunxi_clk_periph_recalc_rate divider regs' prate = some v

/-- The rate that is set is the one that `round_rate` answers, also when this one is set. -/
def SetsRounded (divider : sunxi_clk_periph_div) (regs : Regs) (rate prate : BitVec 32) : Prop :=
  ∃ v, sunxi_clk_periph_round_rate divider rate prate = some v ∧
    Sets divider regs rate prate v ∧ Sets divider regs v prate v

section

variable {shape : DividerShape} {regs : Regs} {rate prate v : BitVec 32} {f : Nat × Nat}

theorem nwidth_lt_of_ranged (hr : divider.mwidth + 2 ^ divider.nwidth ≤ 32) : divider.nwidth < 6 :=
  (Nat.pow_lt_pow_iff_right (by decide : 1 < 2)).1 (by omega : 2 ^ divider.nwidth < 2 ^ 6)

theorem divisor_lt (hf1 : f.1 < 2 ^ divider.mwidth) (hf2 : f.2 < 2 ^ divider.nwidth)
    (hr : divider.mwidth + 2 ^ divider.nwidth ≤ 32) : (f.1 + 1) * 2 ^ f.2 < 2 ^ 32 := by
  have hm : (f.1 + 1) * 2 ^ f.2 ≤ 2 ^ divider.mwidth * 2 ^ (2 ^ divider.nwidth - 1) :=
    Nat.mul_le_mul hf1 (Nat.pow_le_pow_right (by decide) (by omega))
  rw [← Nat.pow_add] at hm
  exact hm.trans_lt (Nat.pow_lt_pow_right (by decide) (by omega))

theorem most_eq (hr : divider.mwidth + 2 ^ divider.nwidth ≤ 32) :
    (BitVec.twoPow 32 divider.mwidth <<< (2 ^ divider.nwidth - 1)).toNat =
      2 ^ (divider.mwidth + (2 ^ divider.nwidth - 1)) := by
  have hn : 0 < 2 ^ divider.nwidth := Nat.two_pow_pos _
  rw [BitVec.twoPow_eq, ← BitVec.shiftLeft_add, ← BitVec.twoPow_eq, toNat_twoPow (by omega)]

theorem toNat_ne_zero (h : rate ≠ 0) : rate.toNat ≠ 0 := fun h0 => h (BitVec.eq_of_toNat_eq h0)

theorem rateFactors_eq (rate prate : BitVec 32) (hr : divider.mwidth + 2 ^ divider.nwidth ≤ 32) (hrate : rate ≠ 0) :
    ∃ f, rateFactors divider rate prate = some f ∧ f.1 < 2 ^ divider.mwidth ∧
      f.2 < 2 ^ divider.nwidth ∧
      (f.1 + 1) * 2 ^ f.2 = divider.setDivisor (nearest prate.toNat rate.toNat) := by
  have hrate' := toNat_ne_zero hrate
  have hnw := nwidth_lt_of_ranged hr
  have hn : 0 < 2 ^ divider.nwidth := Nat.two_pow_pos _
  unfold rateFactors sunxi_clk_periph_div.setDivisor
  rw [do_div_eq hrate' rate.isLt]
  simp only [Option.bind_eq_bind, Option.bind_some]
  generalize nearest prate.toNat rate.toNat = d
  by_cases hd : d = 0
  · rw [if_pos hd]
    exact ⟨(0, 0), rfl, Nat.two_pow_pos _, hn, by simp [hd, largest_one]⟩
  · rw [if_neg hd, intShl_eq (by omega), intShl_eq (by omega)]
    simp only [Option.bind_some]
    rw [toNat_turns (by omega), if_pos (by omega), most_eq hr, toNat_twoPow (by omega), toNat_twoPow (by omega)]
    have hmin : (if d > 2 ^ (divider.mwidth + (2 ^ divider.nwidth - 1)) then
        2 ^ (divider.mwidth + (2 ^ divider.nwidth - 1)) else d) =
        min d (2 ^ (divider.mwidth + (2 ^ divider.nwidth - 1))) := by
      split <;> omega
    rw [hmin, Nat.max_eq_left (Nat.one_le_iff_ne_zero.2 hd), ← largest_min]
    have htop : 0 < 2 ^ (divider.mwidth + (2 ^ divider.nwidth - 1)) := Nat.two_pow_pos _
    have hin : min d (2 ^ (divider.mwidth + (2 ^ divider.nwidth - 1))) /
        2 ^ (2 ^ divider.nwidth - 1) ≤ 2 ^ divider.mwidth := by
      refine (Nat.div_le_div_right (Nat.min_le_right _ _)).trans (le_of_eq ?_)
      rw [Nat.pow_add]
      exact Nat.mul_div_cancel _ (Nat.two_pow_pos _)
    have hfound := findFactors_found (w := 32) (by omega) (by omega) hin (2 ^ divider.nwidth) 0
      (by omega) (fun j hj => absurd hj (Nat.not_lt_zero j))
    rw [Nat.pow_zero, Nat.div_one] at hfound
    exact ⟨_, rfl, hfound⟩

theorem toNat_ofNat_of_lt {x k : Nat} (hx : x < 2 ^ k) (hk : k ≤ 32) :
    (BitVec.ofNat 32 x).toNat = x := by
  rw [BitVec.toNat_ofNat]
  exact Nat.mod_eq_of_lt (hx.trans_le (Nat.pow_le_pow_right (by decide) hk))

/-- What the fields hold is what the factors say. -/
theorem reports_of_fits (regs : Regs) (hset : rateFactors shape.tosunxi_clk_periph_div rate prate = some f)
    (hf1 : f.1 < 2 ^ shape.mwidth) (hf2 : f.2 < 2 ^ shape.nwidth) (hn : f.2 < 32)
    (hlt : (f.1 + 1) * 2 ^ f.2 < 2 ^ 32) :
    ∃ regs', sunxi_clk_periph_set_rate shape.tosunxi_clk_periph_div regs rate prate = some regs' ∧
      sunxi_clk_periph_recalc_rate shape.tosunxi_clk_periph_div regs' prate =
        some (BitVec.ofNat 32 (nearest prate.toNat ((f.1 + 1) * 2 ^ f.2))) := by
  have hm32 := shape.m_fits
  have hn32 := shape.n_fits
  have hval1 := toNat_ofNat_of_lt hf1 (by omega)
  have hval2 := toNat_ofNat_of_lt hf2 (by omega)
  unfold sunxi_clk_periph_set_rate
  rw [hset]
  simp only [Option.bind_eq_bind, Option.bind_some, if_neg shape.has_reg]
  refine ⟨_, rfl, ?_⟩
  unfold sunxi_clk_periph_recalc_rate
  simp only [if_neg shape.has_reg, update_self]
  generalize hreg : (if shape.mwidth ≠ 0 then
    SET_BITS shape.mshift shape.mwidth (regs shape.reg) (BitVec.ofNat 32 f.1)
    else regs shape.reg) = reg
  have hgetn : (if shape.nwidth ≠ 0 then (GET_BITS shape.nshift shape.nwidth
      (if shape.nwidth ≠ 0 then SET_BITS shape.nshift shape.nwidth reg (BitVec.ofNat 32 f.2)
        else reg)).toNat else 0) = f.2 := by
    by_cases hw : shape.nwidth = 0
    · rw [hw] at hf2
      simp only [hw, ne_eq, not_true_eq_false, if_false]
      omega
    · simp only [ne_eq, hw, not_false_eq_true, if_true]
      rw [GET_BITS_SET_BITS hn32 (by rwa [hval2]), hval2]
  have hgetm : (if shape.mwidth ≠ 0 then (GET_BITS shape.mshift shape.mwidth
      (if shape.nwidth ≠ 0 then SET_BITS shape.nshift shape.nwidth reg (BitVec.ofNat 32 f.2)
        else reg)).toNat else 0) = f.1 := by
    by_cases hw : shape.mwidth = 0
    · rw [hw] at hf1
      simp only [hw, ne_eq, not_true_eq_false, if_false]
      omega
    · have hkept : GET_BITS shape.mshift shape.mwidth
          (if shape.nwidth ≠ 0 then SET_BITS shape.nshift shape.nwidth reg (BitVec.ofNat 32 f.2)
            else reg) = GET_BITS shape.mshift shape.mwidth reg := by
        split
        · apply GET_BITS_SET_BITS_of_disjoint hn32 hm32 _ (by rwa [hval2])
          exact fun j hj => shape.apart j hj.symm
        · rfl
      simp only [ne_eq, hw, not_false_eq_true, if_true] at hreg ⊢
      simp only [ne_eq] at hkept
      rw [hkept, ← hreg, GET_BITS_SET_BITS hm32 (by rwa [hval1]), hval1]
  have hbase : (f.1 + 1) * 2 ^ f.2 ≠ 0 := by positivity
  rw [hgetm, hgetn, intShl_eq hn]
  simp only [Option.bind_eq_bind, Option.bind_some, toNat_twoPow hn, do_div_eq hbase hlt]

theorem nearest_lt (p : BitVec 32) {base : Nat} (h : base ≠ 0) : nearest p.toNat base < 2 ^ 32 :=
  (nearest_le p.toNat h).trans_lt p.isLt

theorem sets_iff (hr : shape.mwidth + 2 ^ shape.nwidth ≤ 32) (hrate : rate ≠ 0) :
    Sets shape.tosunxi_clk_periph_div regs rate prate v ↔
      v.toNat = shape.attained rate.toNat prate.toNat := by
  obtain ⟨f, hset, hf1, hf2, hdiv⟩ := rateFactors_eq rate prate hr hrate
  have hbase : (f.1 + 1) * 2 ^ f.2 ≠ 0 := by positivity
  have hlt := divisor_lt hf1 hf2 hr
  obtain ⟨regs', hregs', hrecalc⟩ := reports_of_fits regs hset hf1 hf2 (by omega) hlt
  have hrate32 := nearest_lt prate hbase
  rw [hdiv] at hrecalc hrate32
  unfold sunxi_clk_periph_div.attained
  constructor
  · rintro ⟨-, regs'', hregs'', hv⟩
    rw [hregs'] at hregs''
    cases hregs''
    rw [hrecalc] at hv
    cases hv
    exact toNat_ofNat_of_lt hrate32 (le_refl 32)
  · intro hv
    refine ⟨⟨f, hset, hf1, hf2⟩, regs', hregs', ?_⟩
    rw [hrecalc, ← hv, BitVec.ofNat_toNat, BitVec.setWidth_eq]

theorem roundDivisor_zero : divider.roundDivisor 0 = 1 := by
  unfold sunxi_clk_periph_div.roundDivisor
  simp [largest_one]

theorem toNat_signExtend {k : Nat} (hk : k < 31) :
    ((BitVec.twoPow 32 k).signExtend 64).toNat = 2 ^ k := by
  rw [BitVec.signExtend_eq_setWidth_of_msb_false, BitVec.toNat_setWidth, toNat_twoPow (by omega)]
  · exact Nat.mod_eq_of_lt (Nat.pow_lt_pow_right (by decide) (by omega))
  · rw [BitVec.msb_eq_false_iff_two_mul_lt, toNat_twoPow (by omega), ← Nat.pow_succ']
    exact Nat.pow_lt_pow_right (by decide) (by omega)

/-- The divisor of `round_rate`. -/
theorem round_factors (hr : divider.mwidth + 2 ^ divider.nwidth ≤ 32) (hd : d ≠ 0)
    (hd32 : d < 2 ^ 32) :
    let f := findFactors 64 ((BitVec.twoPow 32 divider.mwidth).signExtend 64).toNat
      (2 ^ divider.nwidth) (2 ^ divider.nwidth) d 0
    f.2 < 2 ^ divider.nwidth ∧ (f.1 + 1) * 2 ^ f.2 = divider.roundDivisor d ∧
      divider.roundDivisor d < 2 ^ 32 := by
  have hn : 0 < 2 ^ divider.nwidth := Nat.two_pow_pos _
  have hmax : max d 1 = d := Nat.max_eq_left (Nat.one_le_iff_ne_zero.2 hd)
  unfold sunxi_clk_periph_div.roundDivisor
  by_cases h31 : divider.mwidth = 31
  · -- as a number of 64 bits the bound is above every quotient
    have hturns : 2 ^ divider.nwidth = 1 := by omega
    have hbound : ((BitVec.twoPow 32 31).signExtend 64).toNat = 2 ^ 64 - 2 ^ 31 := by decide
    have hle : d ≤ 2 ^ 64 - 2 ^ 31 := by omega
    rw [h31, hturns, hbound]
    unfold findFactors
    rw [if_pos hle, pred_eq hd (by omega)]
    simp only [if_pos, hmax, Nat.pow_zero, Nat.mul_one]
    omega
  · rw [toNat_signExtend (by omega), if_neg h31]
    by_cases hin : d / 2 ^ (2 ^ divider.nwidth - 1) ≤ 2 ^ divider.mwidth
    · have hfound := findFactors_found (w := 64) (by omega) hd hin (2 ^ divider.nwidth) 0
        (by omega) (fun j hj => absurd hj (Nat.not_lt_zero j))
      rw [Nat.pow_zero, Nat.div_one] at hfound
      rw [if_pos hin, hmax]
      refine ⟨hfound.2.1, hfound.2.2, ?_⟩
      rw [← hfound.2.2]
      exact divisor_lt hfound.1 hfound.2.1 hr
    · have hspent := findFactors_spent (w := 64) (by omega) (not_le.1 hin) (2 ^ divider.nwidth) 0
        (by omega)
      rw [Nat.pow_zero, Nat.div_one] at hspent
      have hpos : min (d / 2 ^ 2 ^ divider.nwidth) (2 ^ divider.mwidth) ≠ 0 := by
        have hlast := last_ne_zero (not_le.1 hin)
        have hm : 0 < 2 ^ divider.mwidth := Nat.two_pow_pos _
        omega
      have hlt := @divisor_lt divider
        (min (d / 2 ^ 2 ^ divider.nwidth) (2 ^ divider.mwidth) - 1, 2 ^ divider.nwidth - 1)
        (lt_of_lt_of_le (Nat.sub_lt (Nat.pos_of_ne_zero hpos) one_pos) (Nat.min_le_right _ _))
        (Nat.sub_lt hn one_pos) hr
      dsimp only at hlt
      rw [Nat.sub_add_cancel (Nat.one_le_iff_ne_zero.2 hpos)] at hlt
      rw [if_neg hin, hspent]
      dsimp only
      rw [Nat.sub_add_cancel (Nat.one_le_iff_ne_zero.2 hpos)]
      exact ⟨by omega, rfl, hlt⟩

theorem asked_toNat : (prate + rate / 2 - 1).toNat =
    (prate.toNat + rate.toNat / 2 + (2 ^ 32 - 1)) % 2 ^ 32 := by
  have hone : (1 : BitVec 32).toNat = 1 := rfl
  have htwo : (2 : BitVec 32).toNat = 2 := rfl
  rw [BitVec.toNat_sub, BitVec.toNat_add, BitVec.toNat_udiv, hone, htwo]
  omega

theorem roundDivisor_lt (hr : divider.mwidth + 2 ^ divider.nwidth ≤ 32) (hd32 : d < 2 ^ 32) :
    divider.roundDivisor d ≠ 0 ∧ divider.roundDivisor d < 2 ^ 32 := by
  by_cases hd : d = 0
  · rw [hd, roundDivisor_zero]
    decide
  · obtain ⟨-, hdiv, hlt⟩ := round_factors hr hd hd32
    refine ⟨?_, hlt⟩
    rw [← hdiv]
    positivity

theorem rounded_lt (hr : divider.mwidth + 2 ^ divider.nwidth ≤ 32) (hrate : rate ≠ 0) :
    nearest prate.toNat (divider.roundDivisor
      (nearest ((prate.toNat + rate.toNat / 2 + (2 ^ 32 - 1)) % 2 ^ 32) rate.toNat)) < 2 ^ 32 := by
  rw [← asked_toNat]
  exact nearest_lt prate (roundDivisor_lt hr (nearest_lt _ (toNat_ne_zero hrate))).1

theorem roundDivN_eq (hr : divider.mwidth + 2 ^ divider.nwidth ≤ 32) :
    ∃ k, roundDivN divider (BitVec.twoPow 32 divider.nwidth) = some k := by
  have hnw := nwidth_lt_of_ranged hr
  unfold roundDivN
  rw [toNat_signExtend (by omega)]
  split
  · exact ⟨_, intShl_eq (by omega)⟩
  · exact ⟨1, rfl⟩

theorem round_eq (hr : divider.mwidth + 2 ^ divider.nwidth ≤ 32) (hrate : rate ≠ 0) :
    sunxi_clk_periph_round_rate divider rate prate =
      some (BitVec.ofNat 32 (nearest prate.toNat (divider.roundDivisor
        (nearest ((prate.toNat + rate.toNat / 2 + (2 ^ 32 - 1)) % 2 ^ 32) rate.toNat)))) := by
  have hrate' := toNat_ne_zero hrate
  have hnw := nwidth_lt_of_ranged hr
  have hn : 0 < 2 ^ divider.nwidth := Nat.two_pow_pos _
  unfold sunxi_clk_periph_round_rate
  rw [if_neg hrate, do_div_eq hrate' rate.isLt, ← asked_toNat]
  have hd32 : nearest (prate + rate / 2 - 1).toNat rate.toNat < 2 ^ 32 := nearest_lt _ hrate'
  generalize nearest (prate + rate / 2 - 1).toNat rate.toNat = d at hd32
  simp only [Option.bind_eq_bind, Option.bind_some]
  by_cases hd : d = 0
  · rw [if_pos hd, hd, roundDivisor_zero, nearest_one, BitVec.ofNat_toNat, BitVec.setWidth_eq]
  · obtain ⟨hf2, hdiv, hlt⟩ := round_factors hr hd hd32
    obtain ⟨k, hk⟩ := roundDivN_eq hr
    rw [if_neg hd, intShl_eq (by omega), intShl_eq (by omega)]
    simp only [Option.bind_some, hk]
    rw [toNat_twoPow (by omega), intShl_eq (by omega)]
    simp only [Option.bind_some]
    rw [toNat_twoPow (by omega), hdiv, do_div_eq _ hlt]
    · rfl
    · rw [← hdiv]
      positivity

/-- The rate zero is a division by zero. -/
theorem rate_ne_zero (hset : rateFactors divider rate prate = some f) : rate ≠ 0 := by
  rintro rfl
  cases hset

theorem nearest_self {p : Nat} (hp : p ≠ 0) : nearest p p = 1 := by
  simp [nearest, Nat.div_self (Nat.pos_of_ne_zero hp)]

theorem not_fits (hr : ¬ shape.mwidth + 2 ^ shape.nwidth ≤ 32)
    (hset : rateFactors shape.tosunxi_clk_periph_div rate prate = some f)
    (hd : nearest prate.toNat rate.toNat ≠ 0) : ¬ f.1 < 2 ^ shape.mwidth := by
  have hm32 := shape.m_fits
  have hrate := toNat_ne_zero (rate_ne_zero hset)
  unfold rateFactors at hset
  simp only [do_div_eq hrate rate.isLt, Option.bind_eq_bind, Option.bind_some, if_neg hd] at hset
  by_cases hm : shape.mwidth < 32
  · by_cases hn : shape.nwidth < 32
    · rw [intShl_eq hm, intShl_eq hn] at hset
      simp only [Option.bind_some] at hset
      rw [toNat_turns hn] at hset
      by_cases hsh : 2 ^ shape.nwidth - 1 < 32
      · -- the bound on the quotient is shifted out of its 32 bits, and zero less one is taken for m
        have hmost : (BitVec.twoPow 32 shape.mwidth <<< (2 ^ shape.nwidth - 1)).toNat = 0 := by
          rw [BitVec.twoPow_eq, ← BitVec.shiftLeft_add, BitVec.shiftLeft_eq_zero (by omega)]
          rfl
        obtain ⟨k, hk⟩ : ∃ k, 2 ^ shape.nwidth = k + 1 :=
          ⟨2 ^ shape.nwidth - 1, (Nat.sub_add_cancel Nat.one_le_two_pow).symm⟩
        rw [if_pos hsh, hmost, if_pos (Nat.pos_of_ne_zero hd), toNat_twoPow hn, hk] at hset
        unfold findFactors at hset
        rw [if_pos (Nat.zero_le _)] at hset
        cases hset
        have hmw : 2 ^ shape.mwidth < 2 ^ 32 := Nat.pow_lt_pow_right (by decide) hm
        have hpred : pred 32 0 = 2 ^ 32 - 1 := by decide
        rw [hpred]
        omega
      · rw [if_neg hsh] at hset
        cases hset
    · simp [intShl, hn] at hset
  · simp [intShl, hm] at hset

theorem ranged_of_setsRounded
    (hmeets : SetsRounded shape.tosunxi_clk_periph_div regs rate prate) :
    shape.mwidth + 2 ^ shape.nwidth ≤ 32 := by
  by_contra hr
  obtain ⟨v, -, ⟨⟨f, hset, hf1, hf2⟩, regs', hregs', hv⟩, ⟨f', hset', hf1', -⟩, -⟩ := hmeets
  by_cases hd : nearest prate.toNat rate.toNat = 0
  · -- then the parent rate is what is set, and setting this divides by one
    have hf : f = (0, 0) := by
      unfold rateFactors at hset
      simp only [do_div_eq (toNat_ne_zero (rate_ne_zero hset)) rate.isLt, Option.bind_eq_bind,
        Option.bind_some, if_pos hd] at hset
      exact (Option.some.inj hset).symm
    subst hf
    obtain ⟨regs'', hregs'', hrecalc⟩ :=
      reports_of_fits regs hset hf1 hf2 (by decide) (by decide)
    rw [hregs'] at hregs''
    cases hregs''
    rw [hv] at hrecalc
    have hvp : v = prate := by
      rw [Option.some.inj hrecalc, Nat.zero_add, Nat.pow_zero, Nat.mul_one, nearest_one,
        BitVec.ofNat_toNat, BitVec.setWidth_eq]
    subst hvp
    have hone := nearest_self (toNat_ne_zero (rate_ne_zero hset'))
    exact not_fits hr hset' (by rw [hone]; decide) hf1'
  · exact not_fits hr hset hd hf1

theorem attained_lt (rate prate : BitVec 32) (hr : shape.mwidth + 2 ^ shape.nwidth ≤ 32) (hrate : rate ≠ 0) :
    shape.attained rate.toNat prate.toNat < 2 ^ 32 := by
  obtain ⟨f, -, -, -, hdiv⟩ := rateFactors_eq rate prate hr hrate
  unfold sunxi_clk_periph_div.attained
  rw [← hdiv]
  exact nearest_lt prate (by positivity)

/-- For which rates what is set is what is answered. -/
theorem sets_rounded_iff (shape : DividerShape) (regs : Regs) (rate prate : BitVec 32)
    (hrate : rate ≠ 0) :
    SetsRounded shape.tosunxi_clk_periph_div regs rate prate ↔
      shape.RatesAgree rate.toNat prate.toNat := by
  constructor
  · intro hmeets
    have hr := ranged_of_setsRounded hmeets
    obtain ⟨v, hround, hset, hagain⟩ := hmeets
    obtain ⟨f, hset', -⟩ := hagain.fits
    have hv := (sets_iff hr hrate).1 hset
    have hv0 := rate_ne_zero hset'
    have hvv := (sets_iff hr hv0).1 hagain
    rw [round_eq hr hrate] at hround
    have hsame := congrArg BitVec.toNat (Option.some.inj hround)
    rw [toNat_ofNat_of_lt (rounded_lt hr hrate) (le_refl 32)] at hsame
    refine ⟨hr, ?_, ?_, ?_⟩
    · rw [hsame, hv]
    · rw [← hv]
      exact toNat_ne_zero hv0
    · rw [← hv]
      exact hvv.symm
  · rintro ⟨hr, hsame, hpos, hagain⟩
    have hv := toNat_ofNat_of_lt (attained_lt rate prate hr hrate) (le_refl 32)
    have hv0 : BitVec.ofNat 32 (shape.attained rate.toNat prate.toNat) ≠ 0 := by
      intro h0
      rw [h0] at hv
      exact hpos hv.symm
    refine ⟨_, ?_, (sets_iff hr hrate).2 hv, (sets_iff hr hv0).2 ?_⟩
    · rw [round_eq hr hrate, hsame]
    · rw [hv, hagain]

/-- The quotient of `round_rate` is rounded twice: a remainder of two is enough to round it up,
where that of `set_rate` is rounded up from half of the rate on. -/
theorem asked_quotient {p r : Nat} (hr : 2 ≤ r) (hsum : p + r / 2 ≤ 2 ^ 32) :
    nearest ((p + r / 2 + (2 ^ 32 - 1)) % 2 ^ 32) r = p / r + if 2 ≤ p % r then 1 else 0 := by
  have hmod : (p + r / 2 + (2 ^ 32 - 1)) % 2 ^ 32 = (p % r + r / 2 - 1) + r * (p / r) := by
    have hp := Nat.mod_add_div p r
    omega
  have hs : p % r < r := Nat.mod_lt p (by omega)
  unfold nearest
  rw [hmod, Nat.add_mul_div_left _ _ (by omega), Nat.add_mul_mod_self_left]
  rcases Nat.lt_or_ge (p % r + r / 2 - 1) r with hlt | hge
  · rw [Nat.div_eq_of_lt hlt, Nat.mod_eq_of_lt hlt]
    split <;> split <;> omega
  · have hdiv : (p % r + r / 2 - 1) / r = 1 := by
      rw [Nat.div_eq_iff (by omega)]
      omega
    have hrem : (p % r + r / 2 - 1) % r = p % r + r / 2 - 1 - r := by
      rw [Nat.mod_eq_sub_mod hge, Nat.mod_eq_of_lt (by omega)]
    rw [hdiv, hrem]
    split <;> split <;> omega

/-- Four bits of m and two of n. -/
def fourAndTwo : DividerShape where
  reg := 4
  mshift := 0
  mwidth := 4
  nshift := 8
  nwidth := 2
  has_reg := by decide
  m_fits := by decide
  n_fits := by decide
  apart := by
    rintro j ⟨hm, hn⟩
    unfold InField at hm hn
    omega

/-- 12 MHz from 24 MHz. -/
theorem sets_rounded_twelve :
    SetsRounded fourAndTwo.tosunxi_clk_periph_div (fun _ => 0) 12000000#32 24000000#32 :=
  (sets_rounded_iff fourAndTwo (fun _ => 0) 12000000#32 24000000#32 (by decide)).2
    ⟨by decide, by decide, by decide, by decide⟩

/-- 10 MHz from 24 MHz: 12 MHz are set, 8 MHz are answered. -/
theorem sets_rounded_not :
    ¬ SetsRounded fourAndTwo.tosunxi_clk_periph_div (fun _ => 0) 10000000#32 24000000#32 := by
  rintro ⟨v, hround, ⟨-, regs', hregs', hv⟩, -⟩
  have hdown : sunxi_clk_periph_round_rate fourAndTwo.tosunxi_clk_periph_div 10000000#32
      24000000#32 = some 8000000#32 := by decide
  have hset : (sunxi_clk_periph_set_rate fourAndTwo.tosunxi_clk_periph_div (fun _ => 0)
      10000000#32 24000000#32).bind (fun regs' =>
        sunxi_clk_periph_recalc_rate fourAndTwo.tosunxi_clk_periph_div regs' 24000000#32) =
        some 12000000#32 := by decide
  rw [hregs', Option.bind_some, hv] at hset
  rw [hdown] at hround
  cases hround
  cases hset

end

end Melis.Ccmu
