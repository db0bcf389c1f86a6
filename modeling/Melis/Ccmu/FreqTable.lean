import Mathlib.Data.List.Basic
import Mathlib.Data.Nat.Dist

/-!
# The frequency table of a PLL

From `clk_factors.c`: the table is sorted by frequency, and the entry nearest to a frequency is
looked for by halving it. The table fits in the memory, so that no `int` overflows in an index.
-/

namespace Melis.Ccmu

structure sunxi_clk_factor_freq where
  factor : BitVec 32
  freq : BitVec 32

/-- The frequency in MHz. -/
def sunxi_clk_factor_freq.mhz (e : sunxi_clk_factor_freq) : Nat := e.freq.toNat / 1000000

/-- `tbl[i]`, `none` outside the table. -/
def tblAt (tbl : List sunxi_clk_factor_freq) (i : Int) : Option sunxi_clk_factor_freq :=
  if i < 0 then none else tbl[i.toNat]?

def sunxi_clk_freq_search (tbl : List sunxi_clk_factor_freq) (freq : Nat) (low high : Int) :
    Option Int :=
  if low > high then some (if high = -1 then 0 else high)
  else
    let mid := (low + high) / 2
    match tblAt tbl mid with
    | none => none
    | some e =>
      if e.mhz = freq then some mid
      else if e.mhz > freq then sunxi_clk_freq_search tbl freq low (mid - 1)
      else sunxi_clk_freq_search tbl freq (mid + 1) high
termination_by (high + 1 - low).toNat
decreasing_by all_goals omega

/-- An `unsigned long` that is assigned to an `int`. -/
def toInt32 (x : Nat) : Int := Int.bmod x (2 ^ 32)

def delta (freq x : Nat) : Int := toInt32 (if freq > x then freq - x else x - freq)

def sunxi_clk_freq_find (tbl : List sunxi_clk_factor_freq) (n freq : Nat) : Option Int :=
  match sunxi_clk_freq_search tbl freq 0 (n - 1) with
  | none => none
  | some i =>
    if i ≠ n - 1 then
      match tblAt tbl i, tblAt tbl (i + 1) with
      | some e, some e' => some (if delta freq e'.mhz < delta freq e.mhz then i + 1 else i)
      | _, _ => none
    else some i

/-! ## The entry that is found -/

/-- Sorted by frequency. -/
def Sorted (tbl : List sunxi_clk_factor_freq) : Prop :=
  tbl.Pairwise fun e e' => e.freq ≤ e'.freq

variable {tbl : List sunxi_clk_factor_freq} {freq i j : Nat} {e e' : sunxi_clk_factor_freq}

theorem mhz_le (hs : Sorted tbl) (hi : tbl[i]? = some e) (hj : tbl[j]? = some e') (hij : i ≤ j) :
    e.mhz ≤ e'.mhz := by
  obtain ⟨hi', rfl⟩ := List.getElem?_eq_some_iff.1 hi
  obtain ⟨hj', rfl⟩ := List.getElem?_eq_some_iff.1 hj
  rcases Nat.lt_or_eq_of_le hij with hlt | rfl
  · exact Nat.div_le_div_right (List.pairwise_iff_getElem.1 hs i j hi' hj' hlt)
  · exact Nat.le_refl _

theorem mhz_lt (e : sunxi_clk_factor_freq) : e.mhz < 4295 := by
  have hfreq := e.freq.isLt
  unfold sunxi_clk_factor_freq.mhz
  omega

theorem tblAt_natCast (i : Nat) : tblAt tbl i = tbl[i]? := by
  simp [tblAt]

/-- All entries before `i` are below the frequency. -/
def Below (tbl : List sunxi_clk_factor_freq) (freq : Nat) (i : Int) : Prop :=
  ∀ (j : Nat) e, tbl[j]? = some e → j < i → e.mhz < freq

/-- All entries behind `i` are above it. -/
def Above (tbl : List sunxi_clk_factor_freq) (freq : Nat) (i : Int) : Prop :=
  ∀ (j : Nat) e, tbl[j]? = some e → i < j → freq < e.mhz

/-- The search ends at the frequency, or at the last entry below it, or at the first entry. -/
inductive Ends (tbl : List sunxi_clk_factor_freq) (freq i : Nat) : Prop
  | hit (e : sunxi_clk_factor_freq) (hi : tbl[i]? = some e) (heq : e.mhz = freq)
  | between (hbelow : Below tbl freq (i + 1)) (habove : Above tbl freq i)
  | first (hi : i = 0) (habove : Above tbl freq (-1))

theorem freq_search_spec (freq : Nat) (hs : Sorted tbl) (hne : tbl ≠ []) {low high : Int} (hlow : 0 ≤ low)
    (hhigh : high < tbl.length) (hle : low ≤ high + 1) (hbelow : Below tbl freq low)
    (habove : Above tbl freq high) :
    ∃ i : Nat, sunxi_clk_freq_search tbl freq low high = some (i : Int) ∧ i < tbl.length ∧
      Ends tbl freq i := by
  have hlen : 0 < tbl.length := List.length_pos_iff.2 hne
  fun_induction sunxi_clk_freq_search tbl freq low high with
  | case1 low high hgt =>
    have hhl : high + 1 = low := by omega
    by_cases h1 : high = -1
    · rw [if_pos h1]
      rw [h1] at habove
      exact ⟨0, rfl, hlen, .first rfl habove⟩
    · obtain ⟨k, hk⟩ := Int.eq_ofNat_of_zero_le (by omega : 0 ≤ high)
      rw [if_neg h1, hk]
      rw [hk] at habove
      rw [← hhl, hk] at hbelow
      exact ⟨k, rfl, by omega, .between hbelow habove⟩
  | case2 low high hgt mid hnone =>
    obtain ⟨m, hm⟩ := Int.eq_ofNat_of_zero_le (by omega : 0 ≤ mid)
    rw [hm, tblAt_natCast, List.getElem?_eq_none_iff] at hnone
    omega
  | case3 low high hgt mid e hmid heq =>
    obtain ⟨m, hm⟩ := Int.eq_ofNat_of_zero_le (by omega : 0 ≤ mid)
    rw [hm, tblAt_natCast] at hmid
    refine ⟨m, by rw [hm], by omega, .hit e hmid heq⟩
  | case4 low high hgt mid e hmid hne' hmore ih =>
    obtain ⟨m, hm⟩ := Int.eq_ofNat_of_zero_le (by omega : 0 ≤ mid)
    rw [hm, tblAt_natCast] at hmid
    apply ih hlow (by omega) (by omega) hbelow
    intro j e' hj hmj
    exact hmore.trans_le (mhz_le hs hmid hj (by omega))
  | case5 low high hgt mid e hmid hne' hmore ih =>
    obtain ⟨m, hm⟩ := Int.eq_ofNat_of_zero_le (by omega : 0 ≤ mid)
    rw [hm, tblAt_natCast] at hmid
    have hless : e.mhz < freq := by omega
    apply ih (by omega) hhigh (by omega) _ habove
    intro j e' hj hmj
    exact (mhz_le hs hj hmid (by omega)).trans_lt hless

/-- The entry `e` is as near as any. -/
def Nearest (tbl : List sunxi_clk_factor_freq) (freq : Nat) (e : sunxi_clk_factor_freq) : Prop :=
  ∀ e' ∈ tbl, Nat.dist freq e.mhz ≤ Nat.dist freq e'.mhz

theorem delta_eq {x : Nat} (h : Nat.dist freq x < 2 ^ 31) : delta freq x = Nat.dist freq x := by
  unfold Nat.dist at h ⊢
  unfold delta toInt32
  split
  · rw [Int.bmod_eq_of_le] <;> omega
  · rw [Int.bmod_eq_of_le] <;> omega

theorem below_zero : Below tbl freq 0 := fun j _ _ hlt => absurd hlt (by omega)

theorem above_last : Above tbl freq (tbl.length - 1) := fun j e hj hlt => by
  have hlt' := (List.getElem?_eq_some_iff.1 hj).1
  omega

theorem nearest_of_hit (heq : e.mhz = freq) : Nearest tbl freq e := by
  intro x _
  rw [heq, Nat.dist_self]
  exact Nat.zero_le _

/-- Between two neighbours the nearer one is the nearest of all. -/
theorem nearest_of_between (hs : Sorted tbl) (hi : tbl[i]? = some e) (hi' : tbl[i + 1]? = some e')
    (hbelow : Below tbl freq (i + 1)) (habove : Above tbl freq i) :
    Nearest tbl freq (if Nat.dist freq e'.mhz < Nat.dist freq e.mhz then e' else e) := by
  have hlo := hbelow i e hi (by omega)
  have hhi := habove (i + 1) e' hi' (by omega)
  intro x hx
  obtain ⟨j, hj⟩ := List.mem_iff_getElem?.1 hx
  unfold Nat.dist
  rcases Nat.lt_or_ge i j with hij | hij
  · have hle := mhz_le hs hi' hj hij
    split <;> omega
  · have hle := mhz_le hs hj hi hij
    split <;> omega

/-- At either end of the table the entry there is the nearest. -/
theorem nearest_of_end (hs : Sorted tbl) (hi : tbl[i]? = some e)
    (hend : i + 1 = tbl.length ∧ e.mhz < freq ∨ i = 0 ∧ freq < e.mhz) : Nearest tbl freq e := by
  intro x hx
  obtain ⟨j, hj⟩ := List.mem_iff_getElem?.1 hx
  have hlt := (List.getElem?_eq_some_iff.1 hj).1
  unfold Nat.dist
  rcases hend with ⟨hlast, hless⟩ | ⟨rfl, hmore⟩
  · have hle := mhz_le hs hj hi (by omega)
    omega
  · have hle := mhz_le hs hi hj (Nat.zero_le j)
    omega

theorem freq_find_spec (hs : Sorted tbl) (hne : tbl ≠ []) (freq : Nat) :
    ∃ (i : Nat) (e : sunxi_clk_factor_freq),
      sunxi_clk_freq_find tbl tbl.length freq = some (i : Int) ∧ tbl[i]? = some e ∧
        Nearest tbl freq e := by
  obtain ⟨i, hsearch, hi, hends⟩ := freq_search_spec freq hs hne (le_refl 0) (by omega) (by omega)
    below_zero above_last
  have he := List.getElem?_eq_getElem hi
  generalize tbl[i] = e at he
  unfold sunxi_clk_freq_find
  simp only [hsearch]
  by_cases hlast : i + 1 = tbl.length
  · rw [if_neg (by omega)]
    refine ⟨i, e, rfl, he, ?_⟩
    cases hends with
    | hit e' he' heq =>
      rw [he] at he'
      cases he'
      exact nearest_of_hit heq
    | between hbelow habove => exact nearest_of_end hs he (.inl ⟨hlast, hbelow i e he (by omega)⟩)
    | first hi0 habove => exact nearest_of_end hs he (.inr ⟨hi0, habove i e he (by omega)⟩)
  · have he' := List.getElem?_eq_getElem (by omega : i + 1 < tbl.length)
    generalize tbl[i + 1] = e' at he'
    have hnext : tblAt tbl ((i : Int) + 1) = some e' := by
      rw [← he', ← tblAt_natCast]
      rfl
    rw [if_pos (by omega), tblAt_natCast, he, hnext]
    dsimp only
    have hnear : Nat.dist freq e.mhz < 2 ^ 31 ∧ Nat.dist freq e'.mhz < 2 ^ 31 ∧
        Nearest tbl freq (if Nat.dist freq e'.mhz < Nat.dist freq e.mhz then e' else e) := by
      have hmono := mhz_le hs he he' (Nat.le_succ i)
      have hlt := mhz_lt e
      have hlt' := mhz_lt e'
      cases hends with
      | hit e'' he'' heq =>
        rw [he] at he''
        cases he''
        rw [heq, Nat.dist_self, if_neg (Nat.not_lt_zero _)]
        refine ⟨by omega, ?_, nearest_of_hit heq⟩
        unfold Nat.dist
        omega
      | between hbelow habove =>
        have hlo := hbelow i e he (by omega)
        have hhi := habove (i + 1) e' he' (by omega)
        refine ⟨?_, ?_, nearest_of_between hs he he' hbelow habove⟩ <;> unfold Nat.dist <;> omega
      | first hi0 habove =>
        have hhi := habove i e he (by omega)
        have hnot : ¬ Nat.dist freq e'.mhz < Nat.dist freq e.mhz := by
          unfold Nat.dist
          omega
        rw [if_neg hnot]
        refine ⟨?_, ?_, nearest_of_end hs he (.inr ⟨hi0, hhi⟩)⟩ <;> unfold Nat.dist <;> omega
    obtain ⟨hd, hd', hnear⟩ := hnear
    rw [delta_eq hd, delta_eq hd']
    simp only [Int.ofNat_lt]
    by_cases hless : Nat.dist freq e'.mhz < Nat.dist freq e.mhz
    · rw [if_pos hless] at hnear ⊢
      exact ⟨i + 1, e', rfl, he', hnear⟩
    · rw [if_neg hless] at hnear ⊢
      exact ⟨i, e, rfl, he, hnear⟩

end Melis.Ccmu
