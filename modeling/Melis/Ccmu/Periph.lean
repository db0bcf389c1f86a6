import Mathlib.Data.Int.NatAbs

/-!
# Peripheral clocks

The gates of a peripheral clock, from `clk_periph.c`. A clock has up to four gate
bits in registers of the CCU: its reset, its bus gate, its module gate and its DRAM
gate. Some of them may be shared with other clocks; then a common gate records its
users in a bit mask.
-/

namespace Melis.Ccmu

open Function

/-- The registers by their address. -/
abbrev Regs := Nat → BitVec 32

def SETMASK (width shift : Nat) : BitVec 32 :=
  (if width = 0 then 0 else BitVec.allOnes 32 >>> (32 - width)) <<< shift

def SET_BITS (shift width : Nat) (reg val : BitVec 32) : BitVec 32 :=
  (reg &&& ~~~SETMASK width shift) ||| (val <<< shift)

def GET_BITS (shift width : Nat) (reg : BitVec 32) : BitVec 32 :=
  (reg &&& SETMASK width shift) >>> shift

inductive GateKind
  | rst
  | bus
  | mod
  | mbus
deriving DecidableEq

/-- A register of `0` is none. -/
structure sunxi_clk_periph_gate where
  enable : Nat
  reset : Nat
  bus : Nat
  dram : Nat
  enb_shift : Nat
  rst_shift : Nat
  bus_shift : Nat
  ddr_shift : Nat

/-- The register of a gate and the bit in it. -/
def sunxi_clk_periph_gate.loc (gate : sunxi_clk_periph_gate) : GateKind → Nat × Nat
  | .rst => (gate.reset, gate.rst_shift)
  | .bus => (gate.bus, gate.bus_shift)
  | .mod => (gate.enable, gate.enb_shift)
  | .mbus => (gate.dram, gate.ddr_shift)

structure sunxi_clk_comgate where
  share : BitVec 8

/-- `BUS_GATE_SHARE` and so on. -/
def shareFlag : GateKind → BitVec 8
  | .bus => 0x01
  | .rst => 0x02
  | .mbus => 0x04
  | .mod => 0x08

/-- The clock has the common gate `com_gate`, one of `γ`, in which it is the user
`com_gate_off`. -/
structure sunxi_clk_periph (γ : Type) where
  gate : sunxi_clk_periph_gate
  com_gate : Option γ
  com_gate_off : Nat

/-- The clocks `ι` of a chip and their common gates `γ`. -/
structure Clocks (γ ι : Type) where
  com_gates : γ → sunxi_clk_comgate
  periph : ι → sunxi_clk_periph γ

/-- `val` are the users of the common gates. -/
structure Ccu (γ : Type) where
  regs : Regs
  val : γ → BitVec 16

section

variable {γ ι : Type} [DecidableEq γ] (T : Clocks γ ι) (s : Ccu γ) (i : ι)

/-- `IS_SHARE_BUS_GATE` and so on. -/
def IS_SHARE (k : GateKind) : Bool :=
  match (T.periph i).com_gate with
  | none => false
  | some g => (T.com_gates g).share &&& shareFlag k ≠ 0

/-- One gate, if it is there and is meant. -/
def setGate (gate : sunxi_clk_periph_gate) (meant : GateKind → Bool) (v : Bool) (regs : Regs)
    (k : GateKind) : Regs :=
  let (reg, shift) := gate.loc k
  if reg ≠ 0 ∧ meant k then
    update regs reg (SET_BITS shift 1 (regs reg) (if v then 1 else 0))
  else regs

def setGates (gate : sunxi_clk_periph_gate) (meant : GateKind → Bool) (v : Bool)
    (ks : List GateKind) (regs : Regs) : Regs :=
  ks.foldl (setGate gate meant v) regs

def enableOrder : List GateKind := [.rst, .bus, .mod, .mbus]

def disableOrder : List GateKind := [.mbus, .mod, .bus, .rst]

def sunxi_clk_periph_enable_shared (g : γ) : Ccu γ :=
  let periph := T.periph i
  let regs := if s.val g = 0 then
    setGates periph.gate (IS_SHARE T i) true enableOrder s.regs else s.regs
  { regs, val := update s.val g (s.val g ||| (1#16 <<< periph.com_gate_off)) }

def sunxi_clk_periph_enable_private : Ccu γ :=
  { s with
    regs := setGates (T.periph i).gate (fun k => !IS_SHARE T i k) true enableOrder s.regs }

def sunxi_clk_periph_enable : Ccu γ :=
  let s := match (T.periph i).com_gate with
    | none => s
    | some g => sunxi_clk_periph_enable_shared T s i g
  sunxi_clk_periph_enable_private T s i

def sunxi_clk_periph_disable_shared (g : γ) : Ccu γ :=
  let periph := T.periph i
  if s.val g = 0 then s
  else
    let val := s.val g &&& ~~~(1#16 <<< periph.com_gate_off)
    let regs := if val = 0 then
      setGates periph.gate (IS_SHARE T i) false disableOrder s.regs else s.regs
    { regs, val := update s.val g val }

def sunxi_clk_periph_disable_private : Ccu γ :=
  { s with
    regs := setGates (T.periph i).gate (fun k => !IS_SHARE T i k) false disableOrder s.regs }

def sunxi_clk_periph_disable : Ccu γ :=
  let s := sunxi_clk_periph_disable_private T s i
  match (T.periph i).com_gate with
  | none => s
  | some g => sunxi_clk_periph_disable_shared T s i g

end

/-! ## Bits -/

/-- The bit at `loc.2` of the register `loc.1`. -/
def bitAt (regs : Regs) (loc : Nat × Nat) : Bool := (regs loc.1).getLsbD loc.2

theorem getLsbD_SETMASK_one {shift j : Nat} (h : shift < 32) :
    (SETMASK 1 shift).getLsbD j = decide (j = shift) := by
  unfold SETMASK
  rw [if_neg (by decide), BitVec.getLsbD_shiftLeft, BitVec.getLsbD_ushiftRight,
    BitVec.getLsbD_allOnes]
  grind

theorem getLsbD_SET_BITS {shift j : Nat} (h : shift < 32) (reg : BitVec 32) (v : Bool) :
    (SET_BITS shift 1 reg (if v then 1 else 0)).getLsbD j =
      if j = shift then v else reg.getLsbD j := by
  unfold SET_BITS
  rw [BitVec.getLsbD_or, BitVec.getLsbD_and, BitVec.getLsbD_not, getLsbD_SETMASK_one h,
    BitVec.getLsbD_shiftLeft]
  cases v <;> grind

variable {gate : sunxi_clk_periph_gate} {meant : GateKind → Bool} {v : Bool}

theorem bitAt_setGate (h : ∀ k, (gate.loc k).2 < 32) (regs : Regs) (k : GateKind)
    (loc : Nat × Nat) : bitAt (setGate gate meant v regs k) loc =
      if (gate.loc k).1 ≠ 0 ∧ meant k = true ∧ gate.loc k = loc then v else bitAt regs loc := by
  have hk := h k
  unfold setGate
  dsimp only
  by_cases hset : (gate.loc k).1 ≠ 0 ∧ meant k = true
  · rw [if_pos hset]
    unfold bitAt
    by_cases hreg : loc.1 = (gate.loc k).1
    · rw [hreg, update_self, getLsbD_SET_BITS hk]
      have hloc : gate.loc k = loc ↔ loc.2 = (gate.loc k).2 :=
        ⟨fun hl => by rw [hl], fun hs => Prod.ext hreg.symm hs.symm⟩
      simp only [hset.1, hset.2, hloc, ne_eq, not_false_eq_true, true_and]
    · rw [update_of_ne hreg, if_neg fun hl => hreg (by rw [hl.2.2])]
  · rw [if_neg hset, if_neg fun hl => hset ⟨hl.1, hl.2.1⟩]

/-- The gates that are meant get the value, other bits stay. -/
theorem bitAt_setGates (h : ∀ k, (gate.loc k).2 < 32) (ks : List GateKind) (regs : Regs)
    (loc : Nat × Nat) : bitAt (setGates gate meant v ks regs) loc =
      if ∃ k ∈ ks, (gate.loc k).1 ≠ 0 ∧ meant k = true ∧ gate.loc k = loc then v
      else bitAt regs loc := by
  induction ks generalizing regs with
  | nil => rw [if_neg (by simp)]; rfl
  | cons k ks ih =>
    show bitAt (setGates gate meant v ks (setGate gate meant v regs k)) loc = _
    rw [ih, bitAt_setGate h]
    by_cases hk : (gate.loc k).1 ≠ 0 ∧ meant k = true ∧ gate.loc k = loc
    · have hcons : ∃ k' ∈ k :: ks, (gate.loc k').1 ≠ 0 ∧ meant k' = true ∧ gate.loc k' = loc :=
        ⟨k, List.mem_cons_self, hk⟩
      rw [if_pos hk, if_pos hcons, ite_self]
    · have hcons : (∃ k' ∈ k :: ks, (gate.loc k').1 ≠ 0 ∧ meant k' = true ∧ gate.loc k' = loc) ↔
          ∃ k' ∈ ks, (gate.loc k').1 ≠ 0 ∧ meant k' = true ∧ gate.loc k' = loc := by
        simp only [List.mem_cons, exists_eq_or_imp]
        exact or_iff_right hk
      rw [if_neg hk]
      simp only [hcons]

theorem mem_enableOrder (k : GateKind) : k ∈ enableOrder := by cases k <;> decide

theorem mem_disableOrder (k : GateKind) : k ∈ disableOrder := by cases k <;> decide

end Melis.Ccmu

namespace Melis.Ccmu

/-! ## The fields of a clock register

What `SET_BITS` and `GET_BITS` do to a field of any width: the field holds what was put in,
and the bits of other fields stay.
-/

/-- Bits `shift` to `shift + width - 1` of a register. -/
def InField (shift width j : Nat) : Prop := shift ≤ j ∧ j < shift + width

instance (shift width j : Nat) : Decidable (InField shift width j) := by
  unfold InField
  infer_instance

/-- No bit is in both fields. -/
def FieldsDisjoint (shift width shift' width' : Nat) : Prop :=
  ∀ j, ¬ (InField shift width j ∧ InField shift' width' j)

variable {shift width shift' width' : Nat} {reg val : BitVec 32}

theorem getLsbD_SETMASK (h : shift + width ≤ 32) (j : Nat) :
    (SETMASK width shift).getLsbD j = decide (InField shift width j) := by
  unfold SETMASK InField
  rw [BitVec.getLsbD_shiftLeft]
  by_cases hw : width = 0
  · simp only [hw, if_pos]
    grind
  · rw [if_neg hw, BitVec.getLsbD_ushiftRight, BitVec.getLsbD_allOnes]
    grind

theorem getLsbD_eq_false_of_lt {j : Nat} (hval : val.toNat < 2 ^ width) (hj : width ≤ j) :
    val.getLsbD j = false :=
  Nat.testBit_lt_two_pow (Nat.lt_of_lt_of_le hval (Nat.pow_le_pow_right (by decide) hj))

theorem getLsbD_set (h : shift + width ≤ 32) (hval : val.toNat < 2 ^ width) (j : Nat) :
    (SET_BITS shift width reg val).getLsbD j =
      if InField shift width j then val.getLsbD (j - shift) else reg.getLsbD j := by
  unfold SET_BITS
  rw [BitVec.getLsbD_or, BitVec.getLsbD_and, BitVec.getLsbD_not, getLsbD_SETMASK h,
    BitVec.getLsbD_shiftLeft]
  have hhigh := @getLsbD_eq_false_of_lt width val (j - shift) hval
  unfold InField
  grind

theorem getLsbD_GET_BITS (h : shift + width ≤ 32) (j : Nat) :
    (GET_BITS shift width reg).getLsbD j = (decide (j < width) && reg.getLsbD (shift + j)) := by
  unfold GET_BITS
  rw [BitVec.getLsbD_ushiftRight, BitVec.getLsbD_and, getLsbD_SETMASK h]
  unfold InField
  grind

/-- The field holds what was put in. -/
theorem GET_BITS_SET_BITS (h : shift + width ≤ 32) (hval : val.toNat < 2 ^ width) :
    GET_BITS shift width (SET_BITS shift width reg val) = val := by
  apply BitVec.eq_of_getLsbD_eq
  intro j hj
  rw [getLsbD_GET_BITS h, getLsbD_set h hval]
  have hhigh := @getLsbD_eq_false_of_lt width val j hval
  unfold InField
  grind

/-- Another field stays. -/
theorem GET_BITS_SET_BITS_of_disjoint (h : shift + width ≤ 32) (h' : shift' + width' ≤ 32)
    (hdis : FieldsDisjoint shift width shift' width') (hval : val.toNat < 2 ^ width) :
    GET_BITS shift' width' (SET_BITS shift width reg val) = GET_BITS shift' width' reg := by
  apply BitVec.eq_of_getLsbD_eq
  intro j hj
  rw [getLsbD_GET_BITS h', getLsbD_GET_BITS h', getLsbD_set h hval]
  by_cases hlt : j < width'
  · have hin : InField shift' width' (shift' + j) := ⟨by omega, by omega⟩
    rw [if_neg fun hin' => hdis _ ⟨hin', hin⟩]
  · simp only [hlt, decide_false, Bool.false_and]

end Melis.Ccmu
