import Mathlib.Data.BitVec
import Melis.Ccmu.Factors
import Melis.Ccmu.DividerLaw

/-!
# A PLL runs with the factors of its entry

The entry that is found is the nearest one, its factors are read back from the register as they
were put in, and the rate is the one that `round_rate` answers. What stays in the register are the
bits that are neither in a field nor for the lock (`factors_spec`).
-/

namespace Melis.Ccmu

open Function

/-! ## Fields of one register -/

theorem GET_BITS_congr {shift width : Nat} {reg reg' : BitVec 32} (h : shift + width ≤ 32)
    (hbits : ∀ j, InField shift width j → reg.getLsbD j = reg'.getLsbD j) :
    GET_BITS shift width reg = GET_BITS shift width reg' := by
  apply BitVec.eq_of_getLsbD_eq
  intro j hj
  rw [getLsbD_GET_BITS h, getLsbD_GET_BITS h]
  by_cases hlt : j < width
  · rw [hbits (shift + j) ⟨by omega, by omega⟩]
  · simp only [hlt, decide_false, Bool.false_and]

def Write.In (w : Write) (j : Nat) : Prop := InField w.shift w.width j

/-- The field is in the register, and the value fits in the field. -/
structure Write.Fits (w : Write) : Prop where
  field : w.shift + w.width ≤ 32
  val : w.val.toNat < 2 ^ w.width

def Write.Apart (w w' : Write) : Prop := FieldsDisjoint w.shift w.width w'.shift w'.width

variable {ws : List Write} {w : Write} {reg : BitVec 32} {j : Nat}

theorem getLsbD_setFields (hfit : ∀ w ∈ ws, w.Fits) (hj : ∀ w ∈ ws, ¬ w.In j) :
    (setFields ws reg).getLsbD j = reg.getLsbD j := by
  induction ws generalizing reg with
  | nil => rfl
  | cons a ws ih =>
    have ha := hfit a List.mem_cons_self
    show (setFields ws (SET_BITS a.shift a.width reg a.val)).getLsbD j = _
    rw [ih (fun w hw => hfit w (List.mem_cons_of_mem a hw))
      (fun w hw => hj w (List.mem_cons_of_mem a hw)), getLsbD_set ha.field ha.val]
    exact if_neg (hj a List.mem_cons_self)

theorem GET_BITS_setFields (hfit : ∀ w ∈ ws, w.Fits) (hapart : ws.Pairwise Write.Apart)
    (hw : w ∈ ws) : GET_BITS w.shift w.width (setFields ws reg) = w.val := by
  induction ws generalizing reg with
  | nil => cases hw
  | cons a ws ih =>
    have ha := hfit a List.mem_cons_self
    have hfit' : ∀ w ∈ ws, w.Fits := fun w hw => hfit w (List.mem_cons_of_mem a hw)
    show GET_BITS w.shift w.width (setFields ws (SET_BITS a.shift a.width reg a.val)) = w.val
    rcases List.mem_cons.1 hw with rfl | hw
    · -- the later writes are to other fields
      have hlater : GET_BITS w.shift w.width (setFields ws (SET_BITS w.shift w.width reg w.val)) =
          GET_BITS w.shift w.width (SET_BITS w.shift w.width reg w.val) := by
        apply GET_BITS_congr ha.field
        intro j hj
        apply getLsbD_setFields hfit'
        exact fun w' hw' hj' => List.rel_of_pairwise_cons hapart hw' j ⟨hj, hj'⟩
      rw [hlater, GET_BITS_SET_BITS ha.field ha.val]
    · exact ih hfit' (List.Pairwise.of_cons hapart) hw

/-! ## The shape of a PLL -/

/-- The fields of the register. -/
def fields (config : sunxi_clk_factors_config) : List (Nat × Nat) :=
  (if config.sdmwidth ≠ 0 then [(config.sdmshift, config.sdmwidth)] else []) ++
  ((Factor.all.filter fun f => config.width f ≠ 0).map fun f =>
    (config.shift f, config.width f)) ++
  (if config.frac ≠ 0 then [(config.modeshift, 1), (config.outshift, 1)] else []) ++
  (if config.updshift ≠ 0 then [(config.updshift, 1)] else [])

def Configured (config : sunxi_clk_factors_config) (j : Nat) : Prop :=
  ∃ f ∈ fields config, InField f.1 f.2 j

/-- The two bits for the lock, where they are in the register of the factors. -/
def LockBit (factor : factor_init_data) (j : Nat) : Prop :=
  factor.pll_lock_ctrl_reg = factor.reg ∧
    (factor.lock_mode = .PLL_LOCK_NEW_MODE ∨ factor.lock_mode = .PLL_LOCK_OLD_MODE) ∧
    (j = 28 ∨ j = factor.lock_en_bit)

/-- The same factors, as far as the register has them. -/
structure Agree (config : sunxi_clk_factors_config) (v v' : clk_factors_value) : Prop where
  factor : ∀ f, config.width f ≠ 0 → v.factor f = v'.factor f
  frac : config.frac ≠ 0 → v.frac_mode = v'.frac_mode ∧ v.frac_freq = v'.frac_freq

/-- A PLL with a sorted table, whose fields and lock bits are apart in the register, and whose
rate is computed from factors that the register has. -/
structure Pll extends factor_init_data where
  table : List sunxi_clk_factor_freq
  max_freq : BitVec 32
  nonempty : table ≠ []
  sorted : Sorted table
  searches : get_factors = get_factors_pll config max_freq table
  fits : ∀ f ∈ fields config, f.1 + f.2 ≤ 32
  narrow : ∀ f, config.width f < 32
  apart : (fields config).Pairwise fun f f' => FieldsDisjoint f.1 f.2 f'.1 f'.2
  lock_en_lt : lock_en_bit < 32
  lock_apart : ∀ j, LockBit tofactor_init_data j → ¬ Configured config j
  reads : ∀ parent_rate v v', Agree config v v' → calc_rate parent_rate v = calc_rate parent_rate v'

section

variable {config : sunxi_clk_factors_config} {v : clk_factors_value}

theorem map_writes (config : sunxi_clk_factors_config) (v : clk_factors_value) :
    (writes config v).map (fun w => (w.shift, w.width)) = fields config := by
  unfold writes fields
  simp only [List.map_append, List.map_map]
  split <;> split <;> split <;> rfl

theorem mem_fields (hw : w ∈ writes config v) : (w.shift, w.width) ∈ fields config := by
  rw [← map_writes config v]
  exact List.mem_map_of_mem hw

theorem mem_writes_factor {f : Factor} (h : config.width f ≠ 0) :
    ⟨config.shift f, config.width f, (v.factor f).setWidth 32⟩ ∈ writes config v := by
  have hall : f ∈ Factor.all := by cases f <;> decide
  unfold writes
  simp only [List.mem_append, List.mem_map, List.mem_filter]
  exact .inl (.inl (.inr ⟨f, ⟨hall, by simpa using h⟩, rfl⟩))

theorem mem_writes_frac (h : config.frac ≠ 0) :
    ⟨config.modeshift, 1, v.frac_mode.setWidth 32⟩ ∈ writes config v ∧
      ⟨config.outshift, 1, v.frac_freq.setWidth 32⟩ ∈ writes config v := by
  unfold writes
  simp [h]

/-- The values fit in their fields. -/
structure ValueFits (config : sunxi_clk_factors_config) (v : clk_factors_value) : Prop where
  factor : ∀ f, (v.factor f).toNat < 2 ^ config.width f
  frac : config.frac ≠ 0 → v.frac_mode.toNat < 2 ∧ v.frac_freq.toNat < 2

theorem toNat_setWidth_le (x : BitVec 16) : (x.setWidth 32).toNat = x.toNat := by
  rw [BitVec.toNat_setWidth]
  omega

theorem writes_fit (hfits : ∀ f ∈ fields config, f.1 + f.2 ≤ 32) (hv : ValueFits config v) :
    ∀ w ∈ writes config v, w.Fits := by
  intro w hw
  refine ⟨hfits _ (mem_fields hw), ?_⟩
  unfold writes at hw
  simp only [List.mem_append, List.mem_map] at hw
  rcases hw with ((hw | ⟨f, -, rfl⟩) | hw) | hw
  · split at hw
    · cases List.mem_singleton.1 hw
      exact Nat.one_lt_two_pow (by assumption)
    · cases hw
  · rw [toNat_setWidth_le]
    exact hv.factor f
  · split at hw
    · have hfrac := hv.frac (by assumption)
      simp only [List.mem_cons, List.not_mem_nil, or_false] at hw
      rcases hw with rfl | rfl
      · rw [toNat_setWidth_le]
        exact hfrac.1
      · rw [toNat_setWidth_le]
        exact hfrac.2
    · cases hw
  · split at hw
    · cases List.mem_singleton.1 hw
      exact (by decide : (1 : BitVec 32).toNat < 2 ^ 1)
    · cases hw

theorem writes_apart (v : clk_factors_value)
    (hapart : (fields config).Pairwise fun f f' => FieldsDisjoint f.1 f.2 f'.1 f'.2) :
    (writes config v).Pairwise Write.Apart := by
  rw [← map_writes config v, List.pairwise_map] at hapart
  exact hapart

/-! ## Reading the factors back -/

theorem setWidth_setWidth_self (x : BitVec 16) : (x.setWidth 32).setWidth 16 = x := by
  apply BitVec.eq_of_toNat_eq
  rw [BitVec.toNat_setWidth, toNat_setWidth_le]
  exact Nat.mod_eq_of_lt x.isLt

theorem agree_readFactors (hfits : ∀ f ∈ fields config, f.1 + f.2 ≤ 32)
    (hapart : (fields config).Pairwise fun f f' => FieldsDisjoint f.1 f.2 f'.1 f'.2)
    (hv : ValueFits config v) (reg : BitVec 32) :
    Agree config (readFactors config (setFields (writes config v) reg)) v := by
  have hget : ∀ w ∈ writes config v,
      GET_BITS w.shift w.width (setFields (writes config v) reg) = w.val := fun w hw =>
    GET_BITS_setFields (writes_fit hfits hv) (writes_apart v hapart) hw
  constructor
  · intro f hf
    unfold readFactors
    simp only [if_pos hf]
    have hread := hget _ (mem_writes_factor hf)
    dsimp only at hread
    rw [hread, setWidth_setWidth_self]
  · intro hfrac
    have hmode := hget _ (mem_writes_frac hfrac).1
    have hfreq := hget _ (mem_writes_frac hfrac).2
    dsimp only at hmode hfreq
    unfold readFactors
    simp only [if_pos hfrac]
    rw [hmode, hfreq, setWidth_setWidth_self, setWidth_setWidth_self]
    exact ⟨rfl, rfl⟩

theorem toNat_fieldOf (factor : BitVec 32) (shift : Nat) {width : Nat} (h : width < 32) :
    (fieldOf factor shift width).toNat < 2 ^ width := by
  have hmask := toNat_turns h
  rw [BitVec.twoPow_eq] at hmask
  unfold fieldOf
  rw [BitVec.toNat_and]
  refine lt_of_le_of_lt Nat.and_le_right ?_
  rw [show (1#32 <<< width - 1#32).toNat = 2 ^ width - 1 from hmask]
  exact Nat.sub_lt (Nat.two_pow_pos width) one_pos

theorem toNat_setWidth_lt {x : BitVec 32} {b : Nat} (h : x.toNat < b) :
    (x.setWidth 16).toNat < b := by
  rw [BitVec.toNat_setWidth]
  exact (Nat.mod_le _ _).trans_lt h

theorem and_one_lt (x : BitVec 32) : (x &&& 1).toNat < 2 := by
  rw [BitVec.toNat_and]
  exact lt_of_le_of_lt Nat.and_le_right (by decide)

theorem entryFactors_fits (hnarrow : ∀ f, config.width f < 32) (before : clk_factors_value)
    (e : sunxi_clk_factor_freq) : ValueFits config (entryFactors config before e) := by
  constructor
  · intro f
    exact toNat_setWidth_lt (toNat_fieldOf e.factor (config.shift f) (hnarrow f))
  · intro hfrac
    unfold entryFactors
    simp only [if_pos hfrac]
    exact ⟨toNat_setWidth_lt (and_one_lt _), toNat_setWidth_lt (and_one_lt _)⟩

/-- What the factors were before does not matter for those that the register has. -/
theorem agree_entryFactors (before before' : clk_factors_value) (e : sunxi_clk_factor_freq) :
    Agree config (entryFactors config before e) (entryFactors config before' e) := by
  refine ⟨fun f _ => rfl, fun hfrac => ?_⟩
  unfold entryFactors
  simp only [if_pos hfrac, and_self]

end

/-! ## The lock bits -/

section

variable {factor : factor_init_data} {regs : Regs} {v : BitVec 32} {bit : Nat}

theorem getLsbD_setLockBit (hbit : bit < 32) (hv : v.toNat < 2)
    (h : ¬ (factor.pll_lock_ctrl_reg = factor.reg ∧ j = bit)) :
    (setLockBit factor bit v regs factor.reg).getLsbD j = (regs factor.reg).getLsbD j := by
  unfold setLockBit
  by_cases hreg : factor.reg = factor.pll_lock_ctrl_reg
  · rw [hreg, update_self, getLsbD_set (by omega) (by omega), if_neg]
    rintro ⟨hle, hlt⟩
    exact h ⟨hreg.symm, by omega⟩
  · rw [update_of_ne hreg]

theorem getLsbD_disable_plllock (hlt : factor.lock_en_bit < 32) (h : ¬ LockBit factor j) :
    (sunxi_clk_disable_plllock factor regs factor.reg).getLsbD j =
      (regs factor.reg).getLsbD j := by
  unfold sunxi_clk_disable_plllock LockBit at *
  cases hmode : factor.lock_mode <;> simp only [hmode] at h ⊢
  all_goals
    rw [getLsbD_setLockBit (by decide) (by decide), getLsbD_setLockBit hlt (by decide)]
    · exact fun hbit => h ⟨hbit.1, by decide, .inr hbit.2⟩
    · exact fun hbit => h ⟨hbit.1, by decide, .inl hbit.2⟩

theorem getLsbD_is_lock (hlt : factor.lock_en_bit < 32) (h : ¬ LockBit factor j) :
    ((sunxi_clk_is_lock factor regs).1 factor.reg).getLsbD j = (regs factor.reg).getLsbD j := by
  unfold sunxi_clk_is_lock
  cases hmode : factor.lock_mode with
  | PLL_LOCK_NEW_MODE =>
    have h28 : ¬ (factor.pll_lock_ctrl_reg = factor.reg ∧ j = 28) :=
      fun hbit => h ⟨hbit.1, .inl hmode, .inl hbit.2⟩
    have hen : ¬ (factor.pll_lock_ctrl_reg = factor.reg ∧ j = factor.lock_en_bit) :=
      fun hbit => h ⟨hbit.1, .inl hmode, .inr hbit.2⟩
    dsimp only
    rw [getLsbD_setLockBit (by decide) (by decide) h28, getLsbD_setLockBit hlt (by decide) hen,
      getLsbD_setLockBit hlt (by decide) hen, getLsbD_setLockBit (by decide) (by decide) h28]
  | _ => rfl

theorem getLsbD_set_rate (hlt : factor.lock_en_bit < 32) (h : ¬ LockBit factor j)
    {parent_rate rate : BitVec 32} {before val : clk_factors_value}
    (hget : factor.get_factors rate parent_rate before = some val) :
    ((sunxi_clk_factors_set_rate factor parent_rate before regs rate).1 factor.reg).getLsbD j =
      (setFields (writes factor.config val)
        (sunxi_clk_disable_plllock factor regs factor.reg)).getLsbD j := by
  unfold sunxi_clk_factors_set_rate
  simp only [hget]
  split
  · dsimp only
    rw [getLsbD_is_lock hlt h, update_self]
  · dsimp only
    rw [update_self]

end

theorem readFactors_congr {config : sunxi_clk_factors_config} {reg reg' : BitVec 32}
    (hfits : ∀ f ∈ fields config, f.1 + f.2 ≤ 32)
    (hbits : ∀ j, Configured config j → reg.getLsbD j = reg'.getLsbD j) :
    readFactors config reg = readFactors config reg' := by
  have hsame : ∀ f ∈ fields config, GET_BITS f.1 f.2 reg = GET_BITS f.1 f.2 reg' := fun f hf =>
    GET_BITS_congr (hfits f hf) fun j hj => hbits j ⟨f, hf, hj⟩
  have hfield : ∀ w ∈ writes config ⟨0, 0, 0⟩, (w.shift, w.width) ∈ fields config :=
    fun w hw => mem_fields hw
  unfold readFactors
  congr 1
  · funext f
    split
    · rw [hsame _ (hfield _ (mem_writes_factor (by assumption)))]
    · rfl
  · split
    · rw [hsame _ (hfield _ (mem_writes_frac (by assumption)).1)]
    · rfl
  · split
    · rw [hsame _ (hfield _ (mem_writes_frac (by assumption)).2)]
    · rfl

/-! ## The PLL -/

theorem com_ftr_sr_eq (pll : Pll) (before : clk_factors_value) (index : Nat) :
    ∃ (i : Nat) (e : sunxi_clk_factor_freq),
      sunxi_clk_freq_find pll.table pll.table.length index = some (i : Int) ∧
        pll.table[i]? = some e ∧ Nearest pll.table index e ∧
        sunxi_clk_com_ftr_sr pll.config before pll.table index pll.table.length =
          some (entryFactors pll.config before e) := by
  obtain ⟨i, e, hfind, he, hnear⟩ := freq_find_spec pll.sorted pll.nonempty index
  have hi := (List.getElem?_eq_some_iff.1 he).1
  refine ⟨i, e, hfind, he, hnear, ?_⟩
  unfold sunxi_clk_com_ftr_sr
  simp only [hfind]
  rw [if_neg (by omega), tblAt_natCast, he]
  rfl

/-- The rate in MHz, at most the highest of the PLL. -/
def Pll.index (pll : Pll) (rate : BitVec 32) : Nat :=
  nearest (if rate > pll.max_freq then pll.max_freq else rate).toNat 1000000

theorem get_factors_eq (pll : Pll) (rate parent_rate : BitVec 32) (before : clk_factors_value) :
    pll.get_factors rate parent_rate before =
      sunxi_clk_com_ftr_sr pll.config before pll.table (pll.index rate) pll.table.length := by
  rw [pll.searches, get_factors_pll, do_div_eq (by decide) (by decide), Option.bind_some]
  rfl

/-- The rate of an entry. -/
def Pll.rateOf (pll : Pll) (parent_rate : BitVec 32) (before : clk_factors_value)
    (e : sunxi_clk_factor_freq) : BitVec 32 :=
  pll.calc_rate parent_rate (entryFactors pll.config before e)

theorem recalc_set_rate (pll : Pll) (regs : Regs) (rate parent_rate : BitVec 32)
    (before : clk_factors_value) {e : sunxi_clk_factor_freq}
    (hget : pll.get_factors rate parent_rate before = some (entryFactors pll.config before e)) :
    sunxi_clk_factors_recalc_rate pll.tofactor_init_data parent_rate
      (sunxi_clk_factors_set_rate pll.tofactor_init_data parent_rate before regs rate).1 =
        pll.rateOf parent_rate before e := by
  have hv := entryFactors_fits pll.narrow before e
  unfold sunxi_clk_factors_recalc_rate
  rw [readFactors_congr pll.fits fun j hj =>
    getLsbD_set_rate pll.lock_en_lt (fun hlock => pll.lock_apart j hlock hj) hget]
  exact pll.reads parent_rate _ _ (agree_readFactors pll.fits pll.apart hv _)

/-- The entry that is found is the nearest to a frequency; a rate that is set is the one of its
entry, which `round_rate` answers, and only the fields and the lock bits are changed. -/
theorem factors_spec (pll : Pll) :
    (∀ (index : Nat) (before : clk_factors_value), ∃ (i : Nat) (e : sunxi_clk_factor_freq),
      sunxi_clk_freq_find pll.table pll.table.length index = some (i : Int) ∧
        pll.table[i]? = some e ∧ Nearest pll.table index e ∧
        sunxi_clk_com_ftr_sr pll.config before pll.table index pll.table.length =
          some (entryFactors pll.config before e)) ∧
    ∀ (regs : Regs) (rate parent_rate : BitVec 32) (before : clk_factors_value),
      ∃ e ∈ pll.table, Nearest pll.table (pll.index rate) e ∧
        (∀ before', pll.rateOf parent_rate before' e = pll.rateOf parent_rate before e) ∧
        sunxi_clk_factors_round_rate pll.tofactor_init_data parent_rate before rate =
          pll.rateOf parent_rate before e ∧
        let set := sunxi_clk_factors_set_rate pll.tofactor_init_data parent_rate before regs rate
        sunxi_clk_factors_recalc_rate pll.tofactor_init_data parent_rate set.1 =
          pll.rateOf parent_rate before e ∧
        ∀ j, ¬ Configured pll.config j → ¬ LockBit pll.tofactor_init_data j →
          (set.1 pll.reg).getLsbD j = (regs pll.reg).getLsbD j := by
  refine ⟨fun index before => com_ftr_sr_eq pll before index, ?_⟩
  intro regs rate parent_rate before
  obtain ⟨i, e, -, he, hnear, hsr⟩ := com_ftr_sr_eq pll before (pll.index rate)
  have hget := (get_factors_eq pll rate parent_rate before).trans hsr
  refine ⟨e, List.mem_of_getElem? he, hnear, ?_, ?_, recalc_set_rate pll regs rate parent_rate
    before hget, ?_⟩
  · intro before'
    exact pll.reads parent_rate _ _ (agree_entryFactors before' before e)
  · unfold sunxi_clk_factors_round_rate
    rw [hget]
    rfl
  · intro j hconf hlock
    rw [getLsbD_set_rate pll.lock_en_lt hlock hget, getLsbD_setFields,
      getLsbD_disable_plllock pll.lock_en_lt hlock]
    · exact writes_fit pll.fits (entryFactors_fits pll.narrow before e)
    · exact fun w hw hj => hconf ⟨(w.shift, w.width), mem_fields hw, hj⟩

/-! ## The lock is off -/

theorem getLsbD_clearLock {factor : factor_init_data} {regs : Regs}
    (hctrl : factor.pll_lock_ctrl_reg = factor.reg) (hlt : factor.lock_en_bit < 32) :
    (setLockBit factor 28 0 (setLockBit factor factor.lock_en_bit 0 regs)
      factor.reg).getLsbD factor.lock_en_bit = false := by
  have hself : ∀ (regs : Regs) bit, bit < 32 →
      (setLockBit factor bit 0 regs factor.reg).getLsbD bit = false := by
    intro regs bit hbit
    have hin : InField bit 1 bit := ⟨by omega, by omega⟩
    unfold setLockBit
    rw [hctrl, update_self, getLsbD_set (by omega) (by decide), if_pos hin]
    exact BitVec.getLsbD_zero
  by_cases h28 : factor.lock_en_bit = 28
  · rw [h28]
    exact hself _ 28 (by decide)
  · rw [getLsbD_setLockBit (by decide) (by decide) (fun h => h28 h.2)]
    exact hself regs _ hlt

/-- Where the lock is controlled in the register of the factors, its bit is off when a rate
is set. -/
theorem lock_en_off (pll : Pll) (hctrl : pll.pll_lock_ctrl_reg = pll.reg)
    (hmode : pll.lock_mode = .PLL_LOCK_NEW_MODE ∨ pll.lock_mode = .PLL_LOCK_OLD_MODE)
    (regs : Regs) (rate parent_rate : BitVec 32) (before : clk_factors_value) :
    ((sunxi_clk_factors_set_rate pll.tofactor_init_data parent_rate before regs rate).1
      pll.reg).getLsbD pll.lock_en_bit = false := by
  obtain ⟨i, e, -, -, -, hsr⟩ := com_ftr_sr_eq pll before (pll.index rate)
  have hget := (get_factors_eq pll rate parent_rate before).trans hsr
  have hdisable : (sunxi_clk_disable_plllock pll.tofactor_init_data regs pll.reg).getLsbD
      pll.lock_en_bit = false := by
    unfold sunxi_clk_disable_plllock
    rcases hmode with hm | hm <;> rw [hm] <;> exact getLsbD_clearLock hctrl pll.lock_en_lt
  have hwritten : (setFields (writes pll.config (entryFactors pll.config before e))
      (sunxi_clk_disable_plllock pll.tofactor_init_data regs pll.reg)).getLsbD
        pll.lock_en_bit = false := by
    rw [getLsbD_setFields (writes_fit pll.fits (entryFactors_fits pll.narrow before e)), hdisable]
    intro w hw hj
    exact pll.lock_apart _ ⟨hctrl, hmode, .inr rfl⟩ ⟨(w.shift, w.width), mem_fields hw, hj⟩
  unfold sunxi_clk_factors_set_rate
  simp only [hget]
  split
  · dsimp only
    unfold sunxi_clk_is_lock
    rcases hmode with hm | hm <;> simp only [hm]
    · exact getLsbD_clearLock hctrl pll.lock_en_lt
    · rw [update_self, hwritten]
  · dsimp only
    rw [update_self, hwritten]

/-! ## The PLLs of the chip -/

theorem calc_rate_by_reads {config : sunxi_clk_factors_config} {divisor : clk_factors_value → Nat}
    (hn : config.width .n ≠ 0) (hdiv : ∀ v v', Agree config v v' → divisor v = divisor v')
    (parent_rate : BitVec 32) (v v' : clk_factors_value) (h : Agree config v v') :
    calc_rate_by divisor parent_rate v = calc_rate_by divisor parent_rate v' := by
  unfold calc_rate_by
  rw [h.factor .n hn, hdiv v v' h]

/-- The rate of each PLL of the chip is computed from factors that its register has. -/
theorem sun8iw19_reads : ∀ c ∈ sun8iw19, ∀ parent_rate v v', Agree c.1 v v' →
    c.2 parent_rate v = c.2 parent_rate v' := by
  intro c hc
  unfold sun8iw19 at hc
  simp only [List.mem_cons, List.not_mem_nil, or_false] at hc
  rcases hc with rfl | rfl | rfl | rfl | rfl | rfl
  all_goals
    apply calc_rate_by_reads (by decide)
    intro v v' h
  · rw [h.factor .p (by decide)]
  · rw [h.factor .d1 (by decide), h.factor .d2 (by decide)]
  · rw [h.factor .d1 (by decide), h.factor .d2 (by decide)]
  · rw [h.factor .d1 (by decide), h.factor .d2 (by decide)]
  · rw [h.factor .d1 (by decide)]
  · rw [h.factor .d1 (by decide), h.factor .d2 (by decide)]

theorem fields_pll_cpu : fields config_pll_cpu = [(8, 8), (16, 2)] := by decide

theorem apart_pll_cpu :
    (fields config_pll_cpu).Pairwise fun f f' => FieldsDisjoint f.1 f.2 f'.1 f'.2 := by
  rw [fields_pll_cpu]
  refine List.pairwise_pair.2 fun j => ?_
  unfold InField
  dsimp only
  omega

theorem not_configured_pll_cpu (h : 28 ≤ j) : ¬ Configured config_pll_cpu j := by
  rintro ⟨f, hf, hin⟩
  rw [fields_pll_cpu] at hf
  unfold InField at hin
  simp only [List.mem_cons, List.not_mem_nil, or_false] at hf
  rcases hf with rfl | rfl <;> dsimp only at hin <;> omega

/-- The PLL of the CPU, with the first entries of its table. -/
def pll_cpu : Pll where
  reg := 0
  pll_lock_ctrl_reg := 0
  lock_en_bit := 29
  lock_mode := .PLL_LOCK_NEW_MODE
  config := config_pll_cpu
  get_factors := get_factors_pll config_pll_cpu 1200000000 [PLLCPU 11 2 72000000, PLLCPU 13 2 84000000]
  calc_rate := calc_rate_pll_cpu
  table := [PLLCPU 11 2 72000000, PLLCPU 13 2 84000000]
  max_freq := 1200000000
  nonempty := by decide
  sorted := by
    unfold Sorted
    decide
  searches := rfl
  fits := by decide
  narrow := by
    intro f
    cases f <;> decide
  apart := apart_pll_cpu
  lock_en_lt := by decide
  lock_apart := by
    rintro j ⟨-, -, hj⟩
    have hbits : j = 28 ∨ j = 29 := hj
    exact not_configured_pll_cpu (by omega)
  reads := sun8iw19_reads (config_pll_cpu, calc_rate_pll_cpu) (by simp [sun8iw19])

/-- Bit 29 of the register, which has the lock shown in bit 28, is in no field, and is cleared. -/
theorem lock_bit_cleared : ¬ Configured config_pll_cpu 29 ∧
    (0x20000000#32).getLsbD 29 = true ∧
    ((sunxi_clk_factors_set_rate pll_cpu.tofactor_init_data 24000000 ⟨0, 0, 0⟩
      (fun _ => 0x20000000#32) 84000000).1 0).getLsbD 29 = false :=
  ⟨not_configured_pll_cpu (by decide), by decide,
    lock_en_off pll_cpu rfl (.inl rfl) (fun _ => 0x20000000#32) 84000000 24000000 ⟨0, 0, 0⟩⟩

end Melis.Ccmu
