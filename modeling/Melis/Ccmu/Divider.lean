import Melis.Ccmu.Periph

/-!
# The divider of a peripheral clock

From `clk_periph.c`: the divider of a peripheral clock is `(m + 1) << n`, with `m` and `n` in two
fields of a register. `none` is a division by zero or a shift by the width of the type or more.
-/

namespace Melis.Ccmu

open Function

/-- A register of `0` is none. -/
structure sunxi_clk_periph_div where
  reg : Nat
  mshift : Nat
  mwidth : Nat
  nshift : Nat
  nwidth : Nat

/-- Division to the nearest; half of the base is rounded down. -/
def nearest (n base : Nat) : Nat := n / base + if n % base > base / 2 then 1 else 0

def do_div (n base : Nat) : Option Nat :=
  let base := base % 2 ^ 32
  if base = 0 then none else some (nearest n base)

/-- `1 << k` of an `int`. -/
def intShl (k : Nat) : Option (BitVec 32) := if k < 32 then some (1#32 <<< k) else none

/-- `x - 1` in `w` bits. -/
def pred (w x : Nat) : Nat := (x + 2 ^ w - 1) % 2 ^ w

/-- The loop of `round_rate`, in 64 bits, and of `set_rate`, in 32, with what follows on it.
The result are the factors m and n; `turns` are the turns of the loop, `left` those not made. -/
def findFactors (w div_m turns : Nat) : Nat → Nat → Nat → Nat × Nat
  | 0, div, _ => (pred w (if div > div_m then div_m else div), turns - 1)
  | left + 1, div, i =>
    if div ≤ div_m then (pred w div, i)
    else
      let div := div / 2
      let i := i + 1
      if div = 0 then (0, i) else findFactors w div_m turns left div i

section

variable (divider : sunxi_clk_periph_div)

def sunxi_clk_periph_recalc_rate (regs : Regs) (parent_rate : BitVec 32) : Option (BitVec 32) :=
  if divider.reg = 0 then some parent_rate
  else do
    let reg := regs divider.reg
    let div_m := if divider.mwidth ≠ 0 then
      (GET_BITS divider.mshift divider.mwidth reg).toNat else 0
    let div_n := if divider.nwidth ≠ 0 then
      (GET_BITS divider.nshift divider.nwidth reg).toNat else 0
    let pow ← intShl div_n
    let clk_rate ← do_div parent_rate.toNat ((div_m + 1) * pow.toNat)
    some (BitVec.ofNat 32 clk_rate)

/-- The `div_n` of `round_rate`: nothing reads it, but it is computed. -/
def roundDivN (turns : BitVec 32) : Option (BitVec 32) :=
  if divider.nwidth ≠ 0 then intShl ((turns.signExtend 64).toNat - 1) else some 1

def sunxi_clk_periph_round_rate (rate prate : BitVec 32) : Option (BitVec 32) :=
  if rate = 0 then some 0
  else do
    let div ← do_div (prate + rate / 2 - 1).toNat rate.toNat
    if div = 0 then some prate
    else do
      let div_m ← intShl divider.mwidth
      let turns ← intShl divider.nwidth
      let _div_n ← roundDivN divider turns
      let f := findFactors 64 (div_m.signExtend 64).toNat turns.toNat turns.toNat div 0
      let pow ← intShl f.2
      let round_rate ← do_div prate.toNat ((f.1 + 1) * pow.toNat)
      some (BitVec.ofNat 32 round_rate)

/-- The factors that `sunxi_clk_periph_set_rate` computes. -/
def rateFactors (rate parent_rate : BitVec 32) : Option (Nat × Nat) := do
  let div ← do_div parent_rate.toNat rate.toNat
  if div = 0 then some (0, 0)
  else do
    let div_m ← intShl divider.mwidth
    let turns ← intShl divider.nwidth
    let div_n := (turns - 1).toNat
    if div_n < 32 then
      let most := (div_m <<< div_n).toNat
      let div := if div > most then most else div
      some (findFactors 32 div_m.toNat turns.toNat turns.toNat div 0)
    else none

def sunxi_clk_periph_set_rate (regs : Regs) (rate parent_rate : BitVec 32) : Option Regs := do
  let f ← rateFactors divider rate parent_rate
  if divider.reg = 0 then some regs
  else
    let reg := regs divider.reg
    let reg := if divider.mwidth ≠ 0 then
      SET_BITS divider.mshift divider.mwidth reg (BitVec.ofNat 32 f.1) else reg
    let reg := if divider.nwidth ≠ 0 then
      SET_BITS divider.nshift divider.nwidth reg (BitVec.ofNat 32 f.2) else reg
    some (update regs divider.reg reg)

end

end Melis.Ccmu
