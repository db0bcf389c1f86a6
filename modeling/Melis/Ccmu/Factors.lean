import Melis.Ccmu.Divider
import Melis.Ccmu.FreqTable

/-!
# The factors of a PLL

From `clk_factors.c`: the factors of a PLL are taken from an entry of its table, put in the fields
of its register, and read back from there. Their functions for a chip are in `clk_sun8iw19.c`.
-/

namespace Melis.Ccmu

open Function

/-- `factorn`, `factork` and so on. -/
inductive Factor
  | n
  | k
  | m
  | p
  | d1
  | d2
deriving DecidableEq

def Factor.all : List Factor := [.n, .k, .m, .p, .d1, .d2]

structure clk_factors_value where
  factor : Factor → BitVec 16
  frac_mode : BitVec 16
  frac_freq : BitVec 16

/-- `shift` and `width` are `nshift`, `nwidth` and so on. -/
structure sunxi_clk_factors_config where
  shift : Factor → Nat
  width : Factor → Nat
  frac : Nat
  outshift : Nat
  modeshift : Nat
  enshift : Nat
  sdmshift : Nat
  sdmwidth : Nat
  sdmpat : Nat
  sdmval : BitVec 32
  updshift : Nat

inductive pll_lock_mode
  | PLL_LOCK_NEW_MODE
  | PLL_LOCK_OLD_MODE
  | PLL_LOCK_NONE_MODE
  | PLL_LOCK_MODE_MAX
deriving DecidableEq

/-- `get_factors` has the value that the factors had before, which is not set, as an argument. -/
structure factor_init_data where
  reg : Nat
  pll_lock_ctrl_reg : Nat
  lock_en_bit : Nat
  lock_mode : pll_lock_mode
  config : sunxi_clk_factors_config
  get_factors : BitVec 32 → BitVec 32 → clk_factors_value → Option clk_factors_value
  calc_rate : BitVec 32 → clk_factors_value → BitVec 32

inductive hal_clk_status
  | OK
  | UNINITIALIZED
  | LOCK_TIMEOUT
deriving DecidableEq

/-- `(factor >> shift) & ((1 << width) - 1)` -/
def fieldOf (factor : BitVec 32) (shift width : Nat) : BitVec 32 :=
  (factor >>> shift) &&& ((1#32 <<< width) - 1#32)

/-- The factors of an entry. -/
def entryFactors (config : sunxi_clk_factors_config) (before : clk_factors_value)
    (entry : sunxi_clk_factor_freq) : clk_factors_value where
  factor f := (fieldOf entry.factor (config.shift f) (config.width f)).setWidth 16
  frac_mode := if config.frac ≠ 0 then
    ((entry.factor >>> config.modeshift) &&& 1).setWidth 16 else before.frac_mode
  frac_freq := if config.frac ≠ 0 then
    ((entry.factor >>> config.outshift) &&& 1).setWidth 16 else before.frac_freq

def sunxi_clk_com_ftr_sr (f_config : sunxi_clk_factors_config) (before : clk_factors_value)
    (table : List sunxi_clk_factor_freq) (index tbl_count : Nat) : Option clk_factors_value :=
  match sunxi_clk_freq_find table tbl_count index with
  | none => none
  | some i =>
    if i ≥ tbl_count then none
    else (tblAt table i).map (entryFactors f_config before)

/-! ## Setting the factors -/

/-- A field of a register with what is put in. -/
structure Write where
  shift : Nat
  width : Nat
  val : BitVec 32

def setFields (ws : List Write) (reg : BitVec 32) : BitVec 32 :=
  ws.foldl (fun reg w => SET_BITS w.shift w.width reg w.val) reg

/-- The fields that `set_rate` writes, in its order. -/
def writes (config : sunxi_clk_factors_config) (v : clk_factors_value) : List Write :=
  (if config.sdmwidth ≠ 0 then [⟨config.sdmshift, config.sdmwidth, 1⟩] else []) ++
  ((Factor.all.filter fun f => config.width f ≠ 0).map fun f =>
    ⟨config.shift f, config.width f, (v.factor f).setWidth 32⟩) ++
  (if config.frac ≠ 0 then [⟨config.modeshift, 1, v.frac_mode.setWidth 32⟩,
    ⟨config.outshift, 1, v.frac_freq.setWidth 32⟩] else []) ++
  (if config.updshift ≠ 0 then [⟨config.updshift, 1, 1⟩] else [])

section

variable (factor : factor_init_data) (parent_rate : BitVec 32)

/-- One bit of the lock control register. -/
def setLockBit (bit : Nat) (v : BitVec 32) (regs : Regs) : Regs :=
  update regs factor.pll_lock_ctrl_reg
    (SET_BITS bit 1 (regs factor.pll_lock_ctrl_reg) v)

/-- What it returns is not used. -/
def sunxi_clk_disable_plllock (regs : Regs) : Regs :=
  match factor.lock_mode with
  | .PLL_LOCK_NEW_MODE | .PLL_LOCK_OLD_MODE =>
    setLockBit factor 28 0 (setLockBit factor factor.lock_en_bit 0 regs)
  | .PLL_LOCK_NONE_MODE | .PLL_LOCK_MODE_MAX => regs

/-- The loop that waits for the lock bit only reads, and a time-out is no failure. -/
def sunxi_clk_is_lock (regs : Regs) : Regs × Int :=
  match factor.lock_mode with
  | .PLL_LOCK_MODE_MAX => (regs, -1)
  | .PLL_LOCK_NEW_MODE =>
    let regs := setLockBit factor factor.lock_en_bit 1 (setLockBit factor 28 1 regs)
    (setLockBit factor 28 0 (setLockBit factor factor.lock_en_bit 0 regs), 0)
  | .PLL_LOCK_OLD_MODE | .PLL_LOCK_NONE_MODE => (regs, 0)

def sunxi_clk_factors_set_rate (before : clk_factors_value) (regs : Regs) (rate : BitVec 32) :
    Regs × hal_clk_status :=
  match factor.get_factors rate parent_rate before with
  | none => (regs, .UNINITIALIZED)
  | some factor_val =>
    let config := factor.config
    let regs := sunxi_clk_disable_plllock factor regs
    let reg := setFields (writes config factor_val) (regs factor.reg)
    let regs := if config.sdmwidth ≠ 0 then update regs config.sdmpat config.sdmval else regs
    let regs := update regs factor.reg reg
    if GET_BITS config.enshift 1 reg ≠ 0 then
      let (regs, ret) := sunxi_clk_is_lock factor regs
      (regs, if ret ≠ 0 then .LOCK_TIMEOUT else .OK)
    else (regs, .OK)

/-- The factors in the register; `0xffff` for those that it has not. -/
def readFactors (config : sunxi_clk_factors_config) (reg : BitVec 32) : clk_factors_value where
  factor f := if config.width f ≠ 0 then
    (GET_BITS (config.shift f) (config.width f) reg).setWidth 16 else 0xffff
  frac_mode := if config.frac ≠ 0 then (GET_BITS config.modeshift 1 reg).setWidth 16 else 0xffff
  frac_freq := if config.frac ≠ 0 then (GET_BITS config.outshift 1 reg).setWidth 16 else 0xffff

def sunxi_clk_factors_recalc_rate (regs : Regs) : BitVec 32 :=
  factor.calc_rate parent_rate (readFactors factor.config (regs factor.reg))

/-- What `get_factors` returns is not looked at: where it fails, the value is what it was. -/
def sunxi_clk_factors_round_rate (before : clk_factors_value) (rate : BitVec 32) : BitVec 32 :=
  factor.calc_rate parent_rate ((factor.get_factors rate parent_rate before).getD before)

end

/-! ## A chip -/

def SUNXI_CLK_FACTORS_CONFIG (nshift nwidth kshift kwidth mshift mwidth pshift pwidth d1shift d1width
    d2shift d2width frac outshift modeshift enshift sdmshift sdmwidth sdmpat : Nat)
    (sdmval : BitVec 32) : sunxi_clk_factors_config where
  shift
    | .n => nshift
    | .k => kshift
    | .m => mshift
    | .p => pshift
    | .d1 => d1shift
    | .d2 => d2shift
  width
    | .n => nwidth
    | .k => kwidth
    | .m => mwidth
    | .p => pwidth
    | .d1 => d1width
    | .d2 => d2width
  frac := frac
  outshift := outshift
  modeshift := modeshift
  enshift := enshift
  sdmshift := sdmshift
  sdmwidth := sdmwidth
  sdmpat := sdmpat
  sdmval := sdmval
  updshift := 0

def config_pll_cpu := SUNXI_CLK_FACTORS_CONFIG 8 8 0 0 0 0 16 2 0 0 0 0 0 0 0 31 0 0 0 0

def config_pll_ddr :=
  SUNXI_CLK_FACTORS_CONFIG 8 8 0 0 0 0 0 0 1 1 0 1 0 0 0 31 24 0 0x110 0xd1303333

def config_pll_periph0 := SUNXI_CLK_FACTORS_CONFIG 8 8 0 0 0 0 0 0 1 1 0 1 0 0 0 31 0 0 0 0

def config_pll_periph1 :=
  SUNXI_CLK_FACTORS_CONFIG 8 8 0 0 0 0 0 0 1 1 0 1 0 0 0 31 24 0 0x128 0xd1303333

def config_pll_video :=
  SUNXI_CLK_FACTORS_CONFIG 8 8 0 0 0 0 0 0 1 1 0 0 0 0 0 31 0 0 0x128 0xd1303333

def config_pll_csi :=
  SUNXI_CLK_FACTORS_CONFIG 8 8 0 0 0 0 0 0 1 1 0 1 0 0 0 31 0 0 0x1e0 0xc00121ff

/-- An entry of the table of `pll_cpu`. -/
def PLLCPU (n p freq : BitVec 32) : sunxi_clk_factor_freq where
  factor := fieldOf n 0 8 <<< 8 ||| fieldOf p 0 2 <<< 16
  freq := freq

/-- `get_factors_pll_cpu` and the like, with `FACTOR_SEARCH`: the rate is bounded and rounded
to MHz. -/
def get_factors_pll (config : sunxi_clk_factors_config) (max_freq : BitVec 32)
    (table : List sunxi_clk_factor_freq) (rate _parent_rate : BitVec 32)
    (before : clk_factors_value) : Option clk_factors_value :=
  (do_div (if rate > max_freq then max_freq else rate).toNat 1000000).bind fun index =>
    sunxi_clk_com_ftr_sr config before table index table.length

/-- The parent rate times n + 1, divided; a parent rate of `0` is 24 MHz. -/
def calc_rate_by (divisor : clk_factors_value → Nat) (parent_rate : BitVec 32)
    (v : clk_factors_value) : BitVec 32 :=
  let tmp_rate := if parent_rate = 0 then 24000000 else parent_rate.toNat
  BitVec.ofNat 32 ((do_div (tmp_rate * ((v.factor .n).toNat + 1)) (divisor v)).getD 0)

def calc_rate_pll_cpu := calc_rate_by fun v => 2 ^ (v.factor .p).toNat

def calc_rate_pll_ddr :=
  calc_rate_by fun v => ((v.factor .d1).toNat + 1) * ((v.factor .d2).toNat + 1)

def calc_rate_pll_csi := calc_rate_pll_ddr

def calc_rate_pll_periph0 :=
  calc_rate_by fun v => 2 * ((v.factor .d1).toNat + 1) * ((v.factor .d2).toNat + 1)

def calc_rate_pll_periph1 := calc_rate_pll_periph0

def calc_rate_pll_video := calc_rate_by fun v => 4 * ((v.factor .d1).toNat + 1)

/-- The PLLs with a table, each with the function for its rate. -/
def sun8iw19 : List (sunxi_clk_factors_config × (BitVec 32 → clk_factors_value → BitVec 32)) :=
  [(config_pll_cpu, calc_rate_pll_cpu), (config_pll_ddr, calc_rate_pll_ddr),
    (config_pll_periph0, calc_rate_pll_periph0), (config_pll_periph1, calc_rate_pll_periph1),
    (config_pll_video, calc_rate_pll_video), (config_pll_csi, calc_rate_pll_csi)]

end Melis.Ccmu
