import Melis.Lib.Run
import Melis.Ccmu.Sun8iw19

/-!
# Shared clock gates

The clocks that have one common gate `g` are its users. A gate bit they share is
on while one of them was enabled and not disabled since (`shared_gate`), whatever
calls come in between.
-/

namespace Melis.Ccmu

open Lib Function

variable {γ ι : Type}

/-- The clock `i` is enabled or disabled. -/
structure GateCall (ι : Type) where
  clk : ι
  enable : Bool

def gateCall [DecidableEq γ] (T : Clocks γ ι) (s : Ccu γ) (c : GateCall ι) : Ccu γ :=
  if c.enable then sunxi_clk_periph_enable T s c.clk else sunxi_clk_periph_disable T s c.clk

def gateCalls [DecidableEq γ] (T : Clocks γ ι) (s : Ccu γ) (cs : List (GateCall ι)) : Ccu γ :=
  cs.foldl (gateCall T) s

/-- The clock was enabled and not disabled since. -/
def Enabled [DecidableEq ι] (cs : List (GateCall ι)) : ι → Bool :=
  cs.foldl (fun e c => update e c.clk c.enable) fun _ => false

section

variable (T : Clocks γ ι) (g : γ)

def IsUser (i : ι) : Prop := (T.periph i).com_gate = some g

/-- The gates of this kind are shared by the users of `g`. -/
def IsShared (k : GateKind) : Prop := (T.com_gates g).share &&& shareFlag k ≠ 0

instance [DecidableEq γ] (i : ι) : Decidable (IsUser T g i) := inferInstanceAs (Decidable (_ = _))

instance (k : GateKind) : Decidable (IsShared T g k) := inferInstanceAs (Decidable (_ ≠ _))

/-- The users of `g` share the gates `loc`: each has them as its own gates of the shared
kinds, each has a place of its own in the mask, and no other gate of a clock is one of them. -/
structure Shares (loc : GateKind → Nat × Nat) : Prop where
  shift_lt : ∀ i k, ((T.periph i).gate.loc k).2 < 32
  off_lt : ∀ i, IsUser T g i → (T.periph i).com_gate_off < 16
  off_inj : ∀ i, IsUser T g i → ∀ j, IsUser T g j →
    (T.periph i).com_gate_off = (T.periph j).com_gate_off → i = j
  same : ∀ i, IsUser T g i → ∀ k, IsShared T g k → (T.periph i).gate.loc k = loc k
  apart : ∀ i k, ¬ (IsUser T g i ∧ IsShared T g k) → ∀ k', IsShared T g k' → (loc k').1 ≠ 0 →
    (T.periph i).gate.loc k ≠ loc k'

end

variable {T : Clocks γ ι} {g : γ} {loc : GateKind → Nat × Nat} {i j : ι} {k : GateKind} {s : Ccu γ}

/-- A gate bit that the users share. -/
def SharedBit (T : Clocks γ ι) (g : γ) (loc : GateKind → Nat × Nat) (b : Nat × Nat) : Prop :=
  ∃ k, IsShared T g k ∧ (loc k).1 ≠ 0 ∧ loc k = b

/-! ## The bits of a clock -/

theorem is_share_of_user (h : IsUser T g i) : IS_SHARE T i k = true ↔ IsShared T g k := by
  unfold IS_SHARE IsShared
  rw [h]
  exact decide_eq_true_iff

theorem bit_private (h : Shares T g loc) {b : Nat × Nat} (hb : SharedBit T g loc b) {v : Bool}
    {ks : List GateKind} (regs : Regs) :
    bitAt (setGates (T.periph i).gate (fun k => !IS_SHARE T i k) v ks regs) b = bitAt regs b := by
  obtain ⟨k', hk', hreg, rfl⟩ := hb
  rw [bitAt_setGates (h.shift_lt i), if_neg]
  rintro ⟨k, -, -, hpriv, heq⟩
  refine h.apart i k (fun hk => ?_) k' hk' hreg heq
  rw [(is_share_of_user hk.1).2 hk.2] at hpriv
  cases hpriv

/-- The gates of a clock that is no user are others. -/
theorem bit_other (h : Shares T g loc) {b : Nat × Nat} (hb : SharedBit T g loc b)
    (hi : ¬ IsUser T g i) {v : Bool} {meant : GateKind → Bool} {ks : List GateKind} (regs : Regs) :
    bitAt (setGates (T.periph i).gate meant v ks regs) b = bitAt regs b := by
  obtain ⟨k', hk', hreg, rfl⟩ := hb
  rw [bitAt_setGates (h.shift_lt i), if_neg]
  rintro ⟨k, -, -, -, heq⟩
  exact h.apart i k (fun hk => hi hk.1) k' hk' hreg heq

theorem bit_shared (h : Shares T g loc) {b : Nat × Nat} (hb : SharedBit T g loc b)
    (hi : IsUser T g i) {v : Bool} {ks : List GateKind} (hks : ∀ k, k ∈ ks) (regs : Regs) :
    bitAt (setGates (T.periph i).gate (IS_SHARE T i) v ks regs) b = v := by
  obtain ⟨k, hk, hreg, rfl⟩ := hb
  have hloc := h.same i hi k hk
  rw [bitAt_setGates (h.shift_lt i), if_pos]
  exact ⟨k, hks k, by rwa [hloc], (is_share_of_user hi).2 hk, hloc⟩

/-! ## The invariant -/

/-- The mask has the users that are enabled (`e`), and the shared bits are on while there
are any. With none they are off, or as at the start (`regs`) if no user ever was (`ever`). -/
structure GateInv (T : Clocks γ ι) (g : γ) (loc : GateKind → Nat × Nat) (regs : Regs) (e : ι → Bool)
    (ever : Prop) (s : Ccu γ) : Prop where
  mask : ∀ n, (s.val g).getLsbD n = true ↔
    ∃ i, IsUser T g i ∧ (T.periph i).com_gate_off = n ∧ e i = true
  some : (∃ i, IsUser T g i ∧ e i = true) → ever ∧
    ∀ b, SharedBit T g loc b → bitAt s.regs b = true
  none : (¬ ∃ i, IsUser T g i ∧ e i = true) → ∀ b, SharedBit T g loc b →
    (ever → bitAt s.regs b = false) ∧ (¬ ever → bitAt s.regs b = bitAt regs b)

variable {regs : Regs} {e : ι → Bool} {ever : Prop}

/-- A mask of the users that are enabled is empty just if none is. -/
theorem mask_eq_zero_iff {val : BitVec 16} (h : ∀ n, val.getLsbD n = true ↔
    ∃ i, IsUser T g i ∧ (T.periph i).com_gate_off = n ∧ e i = true) :
    val = 0 ↔ ¬ ∃ i, IsUser T g i ∧ e i = true := by
  constructor
  · rintro hz ⟨i, hi, hei⟩
    have hbit := (h (T.periph i).com_gate_off).2 ⟨i, hi, rfl, hei⟩
    rw [hz] at hbit
    simp at hbit
  · intro hno
    refine BitVec.eq_of_getLsbD_eq fun n hn => ?_
    have hbit : ¬ val.getLsbD n = true := by
      rw [h n]
      rintro ⟨i, hi, -, hei⟩
      exact hno ⟨i, hi, hei⟩
    simpa using hbit

theorem GateInv.val_eq_zero_iff (h : GateInv T g loc regs e ever s) :
    s.val g = 0 ↔ ¬ ∃ i, IsUser T g i ∧ e i = true := mask_eq_zero_iff h.mask

/-- The registers are arbitrary at the start, and no common gate has a user. -/
def Ccu.start (γ : Type) (regs : Regs) : Ccu γ := ⟨regs, fun _ => 0⟩

theorem gateInv_start (T : Clocks γ ι) (g : γ) (loc : GateKind → Nat × Nat) (regs : Regs) :
    GateInv T g loc regs (fun _ => false) False (Ccu.start γ regs) := by
  have hno : ¬ ∃ i, IsUser T g i ∧ (false : Bool) = true := by
    rintro ⟨i, -, hfalse⟩
    cases hfalse
  refine ⟨fun n => ?_, fun hex => absurd hex hno, fun _ b _ => ⟨False.elim, fun _ => rfl⟩⟩
  constructor
  · intro hbit
    simp [Ccu.start] at hbit
  · rintro ⟨i, -, -, hfalse⟩
    cases hfalse

section

variable [DecidableEq γ]

/-! ## One call -/

/-- A call for a clock that is no user. -/
theorem gateCall_other (h : Shares T g loc) (c : GateCall ι) (hi : ¬ IsUser T g c.clk) :
    (gateCall T s c).val g = s.val g ∧
      ∀ b, SharedBit T g loc b → bitAt (gateCall T s c).regs b = bitAt s.regs b := by
  have hne : ∀ g', (T.periph c.clk).com_gate = some g' → g ≠ g' := by
    rintro g' hg' rfl
    exact hi hg'
  unfold gateCall
  split
  · unfold sunxi_clk_periph_enable sunxi_clk_periph_enable_private
    cases hcom : (T.periph c.clk).com_gate with
    | none => exact ⟨rfl, fun b hb => bit_private h hb _⟩
    | some g' =>
      refine ⟨update_of_ne (hne g' hcom) _ _, fun b hb => ?_⟩
      refine (bit_private h hb _).trans ?_
      unfold sunxi_clk_periph_enable_shared
      dsimp only
      split
      · exact bit_other h hb hi _
      · rfl
  · unfold sunxi_clk_periph_disable sunxi_clk_periph_disable_private
    cases hcom : (T.periph c.clk).com_gate with
    | none => exact ⟨rfl, fun b hb => bit_private h hb _⟩
    | some g' =>
      dsimp only
      unfold sunxi_clk_periph_disable_shared
      dsimp only
      split
      · exact ⟨rfl, fun b hb => bit_private h hb _⟩
      · refine ⟨update_of_ne (hne g' hcom) _ _, fun b hb => ?_⟩
        dsimp only
        split
        · exact (bit_other h hb hi _).trans (bit_private h hb _)
        · exact bit_private h hb _

/-- The first user that is enabled turns the shared gates on. -/
theorem enable_user (h : Shares T g loc) (hi : IsUser T g i) :
    (sunxi_clk_periph_enable T s i).val g = s.val g ||| (1#16 <<< (T.periph i).com_gate_off) ∧
      ∀ b, SharedBit T g loc b → bitAt (sunxi_clk_periph_enable T s i).regs b =
        if s.val g = 0 then true else bitAt s.regs b := by
  have hcom : (T.periph i).com_gate = some g := hi
  unfold sunxi_clk_periph_enable sunxi_clk_periph_enable_private
  rw [hcom]
  refine ⟨update_self .., fun b hb => (bit_private h hb _).trans ?_⟩
  unfold sunxi_clk_periph_enable_shared
  dsimp only
  split
  · exact bit_shared h hb hi mem_enableOrder _
  · rfl

/-- The last user that is disabled turns them off. -/
theorem disable_user (h : Shares T g loc) (hi : IsUser T g i) :
    (sunxi_clk_periph_disable T s i).val g =
        s.val g &&& ~~~(1#16 <<< (T.periph i).com_gate_off) ∧
      ∀ b, SharedBit T g loc b → bitAt (sunxi_clk_periph_disable T s i).regs b =
        if s.val g ≠ 0 ∧ s.val g &&& ~~~(1#16 <<< (T.periph i).com_gate_off) = 0 then false
        else bitAt s.regs b := by
  have hcom : (T.periph i).com_gate = some g := hi
  unfold sunxi_clk_periph_disable sunxi_clk_periph_disable_private
  rw [hcom]
  dsimp only
  unfold sunxi_clk_periph_disable_shared
  dsimp only
  by_cases hz : s.val g = 0
  · rw [if_pos hz]
    refine ⟨by rw [hz]; exact BitVec.zero_and.symm, fun b hb => (bit_private h hb _).trans ?_⟩
    rw [if_neg fun hne => hne.1 hz]
  · rw [if_neg hz]
    refine ⟨update_self .., fun b hb => ?_⟩
    dsimp only
    by_cases hlast : s.val g &&& ~~~(1#16 <<< (T.periph i).com_gate_off) = 0
    · rw [if_pos hlast, if_pos ⟨hz, hlast⟩]
      exact bit_shared h hb hi mem_disableOrder _
    · rw [if_neg hlast, if_neg fun hl => hlast hl.2]
      exact bit_private h hb _

end

/-! ## A run of calls -/

variable [DecidableEq γ] [DecidableEq ι]

theorem gateInv_other (hs : Shares T g loc) (h : GateInv T g loc regs e ever s) (c : GateCall ι)
    (hi : ¬ IsUser T g c.clk) :
    GateInv T g loc regs (update e c.clk c.enable) ever (gateCall T s c) := by
  obtain ⟨hval, hbits⟩ := gateCall_other (s := s) hs c hi
  have he : ∀ j, IsUser T g j → update e c.clk c.enable j = e j := by
    intro j hj
    refine update_of_ne ?_ _ _
    rintro rfl
    exact hi hj
  have hsome : (∃ j, IsUser T g j ∧ update e c.clk c.enable j = true) ↔
      ∃ j, IsUser T g j ∧ e j = true :=
    exists_congr fun j => and_congr_right fun hj => by rw [he j hj]
  constructor
  · intro n
    rw [hval, h.mask n]
    exact exists_congr fun j => and_congr_right fun hj => by rw [he j hj]
  · intro hex
    obtain ⟨hever, hon⟩ := h.some (hsome.1 hex)
    exact ⟨hever, fun b hb => (hbits b hb).trans (hon b hb)⟩
  · intro hno b hb
    rw [hbits b hb]
    exact h.none (fun hex => hno (hsome.2 hex)) b hb

theorem gateInv_enable (hs : Shares T g loc) (h : GateInv T g loc regs e ever s)
    (hi : IsUser T g i) :
    GateInv T g loc regs (update e i true) True (sunxi_clk_periph_enable T s i) := by
  obtain ⟨hval, hbits⟩ := enable_user (s := s) hs hi
  have hoff := hs.off_lt i hi
  have hclk : ∃ j, IsUser T g j ∧ update e i true j = true := ⟨i, hi, update_self ..⟩
  constructor
  · intro n
    rw [hval, BitVec.getLsbD_or, Bool.or_eq_true, h.mask n]
    have hbit : (1#16 <<< (T.periph i).com_gate_off).getLsbD n = true ↔
        (T.periph i).com_gate_off = n := by
      rw [BitVec.getLsbD_shiftLeft]
      grind
    rw [hbit]
    constructor
    · rintro (⟨j, hj, hn, hej⟩ | hn)
      · refine ⟨j, hj, hn, ?_⟩
        by_cases hji : j = i
        · rw [hji, update_self]
        · rwa [update_of_ne hji]
      · exact ⟨i, hi, hn, update_self ..⟩
    · rintro ⟨j, hj, hn, hej⟩
      by_cases hji : j = i
      · exact .inr (hji ▸ hn)
      · rw [update_of_ne hji] at hej
        exact .inl ⟨j, hj, hn, hej⟩
  · refine fun _ => ⟨trivial, fun b hb => ?_⟩
    rw [hbits b hb]
    split
    · rfl
    · rename_i hne
      have hex := not_not.1 fun hno => hne (h.val_eq_zero_iff.2 hno)
      exact (h.some hex).2 b hb
  · exact fun hno => absurd hclk hno

theorem gateInv_disable (hs : Shares T g loc) (h : GateInv T g loc regs e ever s)
    (hi : IsUser T g i) :
    GateInv T g loc regs (update e i false) ever (sunxi_clk_periph_disable T s i) := by
  obtain ⟨hval, hbits⟩ := disable_user (s := s) hs hi
  have hoff := hs.off_lt i hi
  have hne : ∀ j, update e i false j = true → j ≠ i ∧ e j = true := by
    intro j hj
    have hji : j ≠ i := by
      rintro rfl
      rw [update_self] at hj
      cases hj
    rw [update_of_ne hji] at hj
    exact ⟨hji, hj⟩
  have hmask : ∀ n, ((sunxi_clk_periph_disable T s i).val g).getLsbD n = true ↔
      ∃ j, IsUser T g j ∧ (T.periph j).com_gate_off = n ∧ update e i false j = true := by
    intro n
    have hbit : (s.val g &&& ~~~(1#16 <<< (T.periph i).com_gate_off)).getLsbD n = true ↔
        (s.val g).getLsbD n = true ∧ (T.periph i).com_gate_off ≠ n := by
      have hn : (s.val g).getLsbD n = true → n < 16 := fun hn => BitVec.lt_of_getLsbD hn
      rw [BitVec.getLsbD_and, BitVec.getLsbD_not, BitVec.getLsbD_shiftLeft]
      grind
    rw [hval, hbit, h.mask n]
    constructor
    · rintro ⟨⟨j, hj, hn, hej⟩, hin⟩
      refine ⟨j, hj, hn, ?_⟩
      rw [update_of_ne]
      · exact hej
      · rintro rfl
        exact hin hn
    · rintro ⟨j, hj, hn, hej⟩
      obtain ⟨hji, hej⟩ := hne j hej
      exact ⟨⟨j, hj, hn, hej⟩, fun hin => hji (hs.off_inj j hj i hi (hn.trans hin.symm))⟩
  have hzero : s.val g &&& ~~~(1#16 <<< (T.periph i).com_gate_off) = 0 ↔
      ¬ ∃ j, IsUser T g j ∧ update e i false j = true := by
    rw [← hval]
    exact mask_eq_zero_iff hmask
  refine ⟨hmask, fun hex => ?_, fun hno b hb => ?_⟩
  · obtain ⟨j, hj, hej⟩ := hex
    have hold := h.some ⟨j, hj, (hne j hej).2⟩
    refine ⟨hold.1, fun b hb => ?_⟩
    rw [hbits b hb, if_neg fun hz => hzero.1 hz.2 ⟨j, hj, hej⟩]
    exact hold.2 b hb
  · rw [hbits b hb]
    by_cases hz : s.val g = 0
    · rw [if_neg fun hl => hl.1 hz]
      exact h.none (h.val_eq_zero_iff.1 hz) b hb
    · rw [if_pos ⟨hz, hzero.2 hno⟩]
      have hex := not_not.1 fun hno => hz (h.val_eq_zero_iff.2 hno)
      exact ⟨fun _ => rfl, fun hnever => absurd (h.some hex).1 hnever⟩

/-- What a call keeps. -/
theorem gateInv_call (hs : Shares T g loc) (h : GateInv T g loc regs e ever s) (c : GateCall ι) :
    GateInv T g loc regs (update e c.clk c.enable)
      (ever ∨ IsUser T g c.clk ∧ c.enable = true) (gateCall T s c) := by
  obtain ⟨i, enable⟩ := c
  by_cases hi : IsUser T g i
  · cases enable with
    | true => simpa [hi, gateCall] using gateInv_enable hs h hi
    | false => simpa [gateCall] using gateInv_disable hs h hi
  · simpa [hi] using gateInv_other hs h ⟨i, enable⟩ hi

theorem gateInv_calls (hs : Shares T g loc) (h : GateInv T g loc regs e ever s)
    (cs : List (GateCall ι)) :
    GateInv T g loc regs (cs.foldl (fun e c => update e c.clk c.enable) e)
      (ever ∨ ∃ c ∈ cs, IsUser T g c.clk ∧ c.enable = true) (gateCalls T s cs) := by
  induction cs generalizing s e ever with
  | nil => simpa [gateCalls] using h
  | cons c cs ih =>
    have hstep := ih (gateInv_call hs h c)
    simpa [gateCalls, or_assoc] using hstep

/-- The gates that the users of a common gate of the chip share. -/
def Sun8iw19.sharedLoc (g : Fin 3) : GateKind → Nat × Nat :=
  match g with
  | 0 => (config .codec_1x).gate.loc
  | 1 => (config .csi_top).gate.loc
  | 2 => (config .mipi_dphy0).gate.loc

theorem Sun8iw19.shares (g : Fin 3) : Shares clocks g (sharedLoc g) := by
  have hcheck : ∀ g, ∀ i ∈ PeriphClk.all, (∀ k ∈ enableOrder, ((config i).gate.loc k).2 < 32) ∧
      (IsUser clocks g i → (config i).com_gate_off < 16) ∧
      (IsUser clocks g i → ∀ k ∈ enableOrder, IsShared clocks g k →
        (config i).gate.loc k = sharedLoc g k) ∧
      ∀ k ∈ enableOrder, ¬ (IsUser clocks g i ∧ IsShared clocks g k) → ∀ k' ∈ enableOrder,
        IsShared clocks g k' → (sharedLoc g k').1 ≠ 0 →
          (config i).gate.loc k ≠ sharedLoc g k' := by decide +kernel
  have hinj : ∀ g, ∀ i ∈ PeriphClk.all, IsUser clocks g i → ∀ j ∈ PeriphClk.all,
      IsUser clocks g j → (config i).com_gate_off = (config j).com_gate_off → i = j := by
    decide +kernel
  have hall := fun i => hcheck g i (PeriphClk.mem_all i)
  exact
    { shift_lt := fun i k => (hall i).1 k (mem_enableOrder k)
      off_lt := fun i hi => (hall i).2.1 hi
      off_inj := fun i hi j hj => hinj g i (PeriphClk.mem_all i) hi j (PeriphClk.mem_all j) hj
      same := fun i hi k => (hall i).2.2.1 hi k (mem_enableOrder k)
      apart := fun i k hk k' =>
        (hall i).2.2.2 k (mem_enableOrder k) hk k' (mem_enableOrder k') }

/-- After any calls, a gate bit that the users of a common gate share is on if one of them is
enabled, and else off once one of them has been enabled, or if it was off at the start. -/
theorem shared_gate (hs : Shares T g loc) (regs : Regs) (cs : List (GateCall ι)) (hi : IsUser T g i)
    (hk : IsShared T g k) (hreg : ((T.periph i).gate.loc k).1 ≠ 0) :
    ((∃ j, IsUser T g j ∧ Enabled cs j = true) →
        bitAt (gateCalls T (Ccu.start γ regs) cs).regs ((T.periph i).gate.loc k) = true) ∧
      ((¬ ∃ j, IsUser T g j ∧ Enabled cs j = true) →
        (∃ c ∈ cs, IsUser T g c.clk ∧ c.enable = true) ∨
            bitAt regs ((T.periph i).gate.loc k) = false →
          bitAt (gateCalls T (Ccu.start γ regs) cs).regs ((T.periph i).gate.loc k) = false) := by
  have hinv := gateInv_calls hs (gateInv_start T g loc regs) cs
  have hloc := hs.same i hi k hk
  have hbit : SharedBit T g loc ((T.periph i).gate.loc k) := ⟨k, hk, by rwa [hloc] at hreg, hloc.symm⟩
  refine ⟨fun hex => (hinv.some hex).2 _ hbit, fun hno hstart => ?_⟩
  obtain ⟨hever, hnever⟩ := hinv.none hno _ hbit
  by_cases hex : ∃ c ∈ cs, IsUser T g c.clk ∧ c.enable = true
  · exact hever (.inr hex)
  · rw [hnever fun hor => hor.elim id hex]
    exact hstart.resolve_left hex

/-- The bus gate of the camera stays on for `csi_master0`. -/
theorem shared_gate_csi : bitAt (gateCalls Sun8iw19.clocks (Ccu.start (Fin 3) fun _ => 0)
    [⟨.csi_top, true⟩, ⟨.csi_master0, true⟩, ⟨.csi_top, false⟩]).regs
      ((Sun8iw19.clocks.periph .csi_top).gate.loc .bus) = true := by
  have heval : IsUser Sun8iw19.clocks 1 .csi_top ∧ IsShared Sun8iw19.clocks 1 .bus ∧
      ((Sun8iw19.clocks.periph .csi_top).gate.loc .bus).1 ≠ 0 ∧
      IsUser Sun8iw19.clocks 1 .csi_master0 ∧
      Enabled [⟨Sun8iw19.PeriphClk.csi_top, true⟩, ⟨.csi_master0, true⟩, ⟨.csi_top, false⟩]
        Sun8iw19.PeriphClk.csi_master0 = true := by
    decide +kernel
  obtain ⟨huser, hshared, hreg, hon⟩ := heval
  have hon : ∃ j, IsUser Sun8iw19.clocks 1 j ∧
      Enabled [⟨.csi_top, true⟩, ⟨.csi_master0, true⟩, ⟨.csi_top, false⟩] j = true :=
    ⟨.csi_master0, hon⟩
  exact (shared_gate (Sun8iw19.shares 1) (fun _ => 0) _ huser hshared hreg).1 hon

end Melis.Ccmu
