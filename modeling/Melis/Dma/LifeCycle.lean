import Melis.Dma.Chains

/-!
# The life cycle of a channel

What every call does with the invariant of the chains, and from it what holds of
all sequences of calls.
-/

namespace Melis.Dma

open Lib Function

variable {va_to_pa : Addr → UInt32} {s t : Dmac} {chains : ChanId → List Addr} {i : ChanId}
  {a : Addr} {as : List Addr}

/-- What a call does with the invariant. -/
abbrev Outcome (va_to_pa : Addr → UInt32) (s : Dmac) (c : Call) : Prop :=
  (dmac va_to_pa).Exact (fun s => ∃ chains, Inv s chains) Sound StepOk Unchained s c

/-! ## Handing out and freeing a channel -/

theorem Inv.request (h : Inv s chains) : Outcome va_to_pa s .request := by
  cases hfind : (List.finRange NR_MAX_CHAN).find? fun i => !(s.chan i).used with
  | none =>
    have heq : sunxi_dma_chan_request s = (none, s) := by
      rw [sunxi_dma_chan_request, hfind]
    refine .kept (fun i hi => ?_) s ?_ ⟨rfl, fun i hi => ?_⟩ ⟨chains, h⟩
    · rw [heq] at hi
      cases hi
    · show some (sunxi_dma_chan_request s).2 = some s
      rw [heq]
    · rw [heq] at hi
      cases hi
  | some i =>
    obtain ⟨s', heq, hmask, hlli, hchan⟩ : ∃ s', sunxi_dma_chan_request s = (some i, s') ∧
        s'.masked = s.masked ∧ s'.lli = s.lli ∧ s'.chan =
          update s.chan i { s.chan i with used := true, chan_count := i } := by
      rw [sunxi_dma_chan_request, hfind]
      exact ⟨_, rfl, rfl, rfl, rfl⟩
    have hnext : (dmac va_to_pa).next s .request = some s' := by
      show some (sunxi_dma_chan_request s).2 = some s'
      rw [heq]
    have hself : ∀ j, (sunxi_dma_chan_request s).1 = some j → j = i := fun j hj => by
      rw [heq] at hj
      exact (Option.some.inj hj).symm
    by_cases hcyc : (s.chan i).cyclic = false
    · refine .kept (fun j hj => ?_) s' hnext ⟨hmask, fun j hj => ?_⟩
        ⟨chains, h.touch hlli hchan rfl id (h.pos i) rfl⟩
      · rw [hself j hj]
        exact hcyc
      · rw [hself j hj, hchan, update_self]
        exact ⟨hcyc, h.pos i⟩
    · refine .lost (fun hc => hcyc (hc i (by rw [heq]))) fun t ht hok => ?_
      cases hnext.symm.trans ht
      have hbad := (hok.2 i (by rw [heq])).1
      rw [hchan, update_self] at hbad
      exact absurd hbad hcyc

theorem freeLoop_none {fuel : Nat} {li_adr : Option Addr}
    (h : freeLoop fuel li_adr s = some t) :
    t.chan = s.chan ∧ ∀ a, s.lli a = none → t.lli a = none := by
  induction fuel generalizing li_adr s with
  | zero =>
    cases li_adr with
    | none => cases h; exact ⟨rfl, fun _ => id⟩
    | some _ => cases h
  | succ fuel ih =>
    cases li_adr with
    | none => cases h; exact ⟨rfl, fun _ => id⟩
    | some p =>
      rw [freeLoop] at h
      obtain ⟨d, -, h⟩ := Option.bind_eq_some_iff.1 h
      obtain ⟨hchan, hnone⟩ := ih h
      refine ⟨hchan, fun a ha => hnone a ?_⟩
      by_cases hap : a = p
      · rw [hap]
        exact update_self ..
      · exact (update_of_ne hap _ _).trans ha

/-- The first descriptor of a chain that is freed. -/
theorem freeLoop_head {fuel : Nat} (h : freeLoop fuel (some a) s = some t) :
    t.lli a = none := by
  cases fuel with
  | zero => cases h
  | succ fuel =>
    rw [freeLoop] at h
    obtain ⟨d, -, h⟩ := Option.bind_eq_some_iff.1 h
    exact (freeLoop_none h).2 a (update_self ..)

theorem not_sound_of_dangling (hdesc : (s.chan i).desc = some a) (ha : s.lli a = none) :
    ¬ Sound s := by
  rintro ⟨chains, h⟩
  have hhead := (h.chain i).head_eq
  rw [hdesc] at hhead
  have hlive := h.live i a (List.mem_of_head? hhead.symm)
  rw [ha] at hlive
  exact Bool.false_ne_true hlive

theorem Inv.free (h : Inv s chains) : Outcome va_to_pa s (.free i) := by
  have hfree : (dmac va_to_pa).next s (.free i) = (sunxi_dma_chan_free i s).map (·.2) := rfl
  by_cases hused : (s.chan i).used = true
  · rw [sunxi_dma_chan_free, if_pos hused] at hfree
    cases hdesc : (s.chan i).desc with
    | none =>
      have hill : ∀ regs, sunxi_dma_free_ill i { s with masked := true, regs } =
          some { s with masked := true, regs } := fun regs => by
        unfold sunxi_dma_free_ill
        dsimp only
        rw [hdesc]
        rfl
      simp only [MELIS_CPU_CRITICAL_ENTER, hill, Option.bind_eq_bind, Option.bind_some] at hfree
      exact .kept (fun _ => hdesc) _ hfree ⟨rfl, trivial⟩
        ⟨chains, h.touch rfl rfl rfl id (h.pos i) rfl⟩
    | some d =>
      refine .lost (fun hc => ?_) fun t ht _ => ?_
      · rw [hc hused] at hdesc
        cases hdesc
      · rw [hfree] at ht
        obtain ⟨x, hx, rfl⟩ := Option.map_eq_some_iff.1 ht
        obtain ⟨u, hu, hx⟩ := Option.bind_eq_some_iff.1 hx
        cases hx
        unfold sunxi_dma_free_ill at hu
        simp only [MELIS_CPU_CRITICAL_ENTER, hdesc] at hu
        have hchan := (freeLoop_none hu).1
        have hhead := freeLoop_head hu
        refine not_sound_of_dangling (i := i) (a := d) ?_ hhead
        show (update u.chan i _ i).desc = _
        rw [update_self, hchan]
        exact hdesc
  · rw [sunxi_dma_chan_free, if_neg hused] at hfree
    exact .kept (fun hno => absurd hno hused) s hfree ⟨rfl, trivial⟩ ⟨chains, h⟩

/-! ## Calls that leave the chains alone -/

theorem Inv.config (h : Inv s chains) (config : SlaveConfig) :
    Outcome va_to_pa s (.config i config) :=
  .kept trivial _ rfl ⟨rfl, trivial⟩ ⟨chains, h.touch rfl rfl rfl id (h.pos i) rfl⟩

theorem clearCyclic_eq (chan : Chan) : clearCyclic chan = { chan with cyclic := false } := by
  unfold clearCyclic
  split
  · rfl
  · rename_i h
    rw [Bool.not_eq_true] at h
    rw [← h]

theorem Inv.stop (h : Inv s chains) : Outcome va_to_pa s (.stop i) :=
  .kept trivial _ rfl ⟨rfl, trivial⟩ ⟨chains, h.touch rfl
    (congrArg (update s.chan i) (clearCyclic_eq (s.chan i))) rfl
    (fun hno => absurd hno Bool.false_ne_true) (h.pos i) rfl⟩

theorem cleanLoop_eq {fuel : Nat} {prev : Option Addr} {l : List Addr}
    (hchain : Chain (next s) prev l) (hlive : ∀ a ∈ l, (s.lli a).isSome)
    (hfuel : l.length ≤ fuel) : cleanLoop s fuel prev = some () := by
  induction l generalizing prev fuel with
  | nil =>
    rw [chain_nil.1 hchain]
    cases fuel <;> rfl
  | cons a l ih =>
    obtain ⟨rfl, hchain⟩ := hchain
    obtain ⟨d, hd⟩ := Option.isSome_iff_exists.1 (hlive a List.mem_cons_self)
    obtain ⟨fuel, rfl⟩ := Nat.exists_eq_succ_of_ne_zero (Nat.ne_zero_of_lt hfuel)
    have hnext : next s a = d.vlln := by
      rw [next, hd]
      rfl
    rw [hnext] at hchain
    rw [cleanLoop, hd]
    exact ih hchain (fun b hb => hlive b (List.mem_cons_of_mem _ hb)) (Nat.le_of_succ_le_succ hfuel)

theorem Inv.start (h : Inv s chains) : Outcome va_to_pa s (.start i) := by
  have hstart : (dmac va_to_pa).next s (.start i) =
      (sunxi_dma_start_desc va_to_pa i s).map (·.2) := rfl
  have hclean : ∀ chan regs masked preempt_count,
      cleanLoop ⟨chan, s.lli, regs, masked, preempt_count⟩ (2 ^ 32) (s.chan i).desc = some () :=
    fun chan regs masked preempt_count => by
      have hnext : next ⟨chan, s.lli, regs, masked, preempt_count⟩ = next s := next_congr rfl
      refine cleanLoop_eq (l := chains i) ?_ (h.live i) (length_le_of_nodup (h.nodup i))
      rw [hnext]
      exact h.chain i
  simp only [sunxi_dma_start_desc, hal_spin_lock_irqsave, MELIS_CPU_CRITICAL_ENTER,
    rt_enter_critical, setChan, update_self, hclean] at hstart
  exact .kept trivial _ hstart ⟨rfl, trivial⟩ ⟨chains, h.touch rfl rfl rfl id (h.pos i) rfl⟩

theorem Inv.irq (h : Inv s chains) (status_l : UInt32) :
    Outcome va_to_pa s (.irq i status_l) := by
  have hirq : (dmac va_to_pa).next s (.irq i status_l) = sunxi_dma_irq_handle i status_l s := rfl
  simp only [sunxi_dma_irq_handle, hal_spin_lock_irqsave, MELIS_CPU_CRITICAL_ENTER,
    rt_enter_critical] at hirq
  cases hperiod : irqPeriod (s.chan i) status_l with
  | false =>
    rw [hperiod] at hirq
    refine .kept trivial _ hirq ⟨rfl, trivial⟩ ⟨chains, h.touch (i := i) (c := s.chan i) rfl ?_ rfl
      id (h.pos i) rfl⟩
    exact (update_eq_self i s.chan).symm
  | true =>
    have hcyclic : (s.chan i).cyclic = true := (Bool.and_eq_true_iff.1 hperiod).2
    obtain ⟨d, hd⟩ := Option.ne_none_iff_exists'.1 (h.cyclic i hcyclic)
    have hhead := (h.chain i).head_eq
    rw [hd] at hhead
    obtain ⟨lli, hlli⟩ := Option.isSome_iff_exists.1 (h.live i d (List.mem_of_head? hhead.symm))
    simp only [hperiod, hd, hlli, Option.bind_eq_bind, Option.bind_some] at hirq
    refine .kept trivial _ hirq ⟨rfl, trivial⟩ ⟨chains, h.touch rfl rfl rfl id ?_ rfl⟩
    -- no position is below a length of 0
    exact if_pos (by rw [h.len i]; exact UInt32.le_iff_toNat_le.2 (Nat.zero_le _))

/-! ## New chains -/

/-- A call that builds a chain `as`. -/
theorem Inv.built (h : Inv s chains) {c : Call} (hb : Built s i as t)
    (hnext : (dmac va_to_pa).next s c = some t) (hok : StepOk s c t)
    (hc : Unchained s c ↔ (as ≠ [] → (s.chan i).desc = none))
    (hcyclic : (t.chan i).cyclic = true → as = [] → (s.chan i).cyclic = true) :
    Outcome va_to_pa s c := by
  by_cases hdesc : as ≠ [] → (s.chan i).desc = none
  · refine .kept (hc.2 hdesc) t hnext hok ⟨_, hb.inv h hdesc fun hcyc => ?_⟩
    by_cases has : as = []
    · rw [hb.desc has]
      exact h.cyclic i (hcyclic hcyc has)
    · rw [(hb.chain has).head_eq, Ne, List.head?_eq_none_iff]
      exact has
  · refine .lost (fun hno => hdesc (hc.1 hno)) fun t' ht _ => ?_
    cases hnext.symm.trans ht
    obtain ⟨has, hdesc⟩ := Classical.not_imp.1 hdesc
    exact hb.not_sound h.toOwns has hdesc

/-- One descriptor is the new chain. -/
theorem Inv.one (h : Inv s chains) {c : Call} {l_item : Option Addr}
    (hlegal : ∀ a ∈ l_item, s.lli a = none)
    (hc : Unchained s c ↔ (l_item ≠ none → (s.chan i).desc = none))
    (hok : ∀ s', s'.masked = s.masked → StepOk s c s')
    (hnone : l_item = none → (dmac va_to_pa).next s c = some s)
    (hsome : ∀ a, l_item = some a → ∃ lli u, (dmac va_to_pa).next s c =
      some (hal_spin_unlock_irqrestore s.masked (sunxi_lli_list va_to_pa none a i u)) ∧
      u.lli = update s.lli a (some lli) ∧ u.chan = s.chan) : Outcome va_to_pa s c := by
  cases l_item with
  | none => exact .kept (hc.2 fun hno => absurd rfl hno) s (hnone rfl) (hok s rfl) ⟨chains, h⟩
  | some a =>
    obtain ⟨lli, u, hnext, hlli, hchan⟩ := hsome a rfl
    have hpush := (Built.refl s i).push va_to_pa lli (hlegal a rfl) List.not_mem_nil
      hlli hchan
    have hb : Built s i [a]
        (hal_spin_unlock_irqrestore s.masked (sunxi_lli_list va_to_pa none a i u)) :=
      hpush.congr rfl (fun _ => rfl) (fun _ _ => rfl) (fun _ _ => rfl) rfl rfl rfl
    refine h.built hb hnext (hok _ rfl) (hc.trans ?_) fun _ hno => absurd hno (List.cons_ne_nil _ _)
    exact ⟨fun hdesc _ => hdesc nofun, fun hdesc _ => hdesc (List.cons_ne_nil _ _)⟩

theorem Inv.memcpy (h : Inv s chains) {dest src len : UInt32} {l_item : Option Addr}
    (hlegal : Legal s (.memcpy i dest src len l_item)) :
    Outcome va_to_pa s (.memcpy i dest src len l_item) := by
  refine h.one hlegal Iff.rfl (fun _ hm => ⟨hm, trivial⟩) ?_ ?_
  · rintro rfl
    rfl
  · rintro a rfl
    exact ⟨_, putLli a _ (hal_spin_lock_irqsave (malloc a s)).2, rfl, update_idem _ _ _, rfl⟩

theorem Inv.device (h : Inv s chains) {dest src len : UInt32} {dir : Direction}
    {l_item : Option Addr} (hlegal : Legal s (.device i dest src len dir l_item)) :
    Outcome va_to_pa s (.device i dest src len dir l_item) := by
  refine h.one hlegal Iff.rfl (fun _ hm => ⟨hm, trivial⟩) ?_ ?_
  · rintro rfl
    rfl
  · rintro a rfl
    exact ⟨_, putLli a _ (hal_spin_lock_irqsave (malloc a s)).2, rfl, update_idem _ _ _, rfl⟩

section Cyclic

variable {buf_addr buf_len period_len : UInt32} {dir : Direction} {l_item : Nat → Option Addr}

theorem toNat_periods (hp : period_len ≠ 0) :
    (buf_len / period_len).toNat = 0 ↔ ¬ period_len ≤ buf_len := by
  have hpos : 0 < period_len.toNat := by
    refine Nat.pos_of_ne_zero fun hz => hp ?_
    rw [← UInt32.toNat_inj, hz]
    rfl
  rw [UInt32.toNat_div, Nat.div_eq_zero_iff_lt hpos, UInt32.le_iff_toNat_le, Nat.not_le]

/-- The last descriptor leads the hardware back to the first one. -/
theorem Built.setLli (hb : Built s i as t) (ha : a ∈ as) (x : UInt32) :
    Built s i as (setLli t a fun lli => { lli with p_lln := x }) := by
  refine hb.congr ?_ (fun b => isSome_setLli ..) (fun b hb' => ?_) (fun _ _ => rfl) rfl rfl rfl
  · rw [next_setLli]
    exact update_eq_self a (next t)
  · refine setLli_of_ne _ ?_ _
    rintro rfl
    exact hb' ha

theorem Inv.prepCyclic (h : Inv s chains)
    (hlegal : Legal s (.cyclic i buf_addr buf_len period_len dir l_item)) :
    Outcome va_to_pa s (.cyclic i buf_addr buf_len period_len dir l_item) := by
  have hcall : (dmac va_to_pa).next s (.cyclic i buf_addr buf_len period_len dir l_item) =
      (sunxi_prep_dma_cyclic va_to_pa i buf_addr buf_len period_len dir l_item s).map (·.2) := rfl
  rw [sunxi_prep_dma_cyclic] at hcall
  by_cases hp : period_len = 0
  · rw [if_pos hp] at hcall
    exact .lost (fun hc => hc.1.1 hp) fun t ht => by cases hcall.symm.trans ht
  rw [if_neg hp] at hcall
  simp only [MELIS_CPU_CRITICAL_ENTER] at hcall
  by_cases hper : period_len ≤ buf_len
  · have hstart : Built s i [] { s with masked := true } :=
      (Built.refl s i).congr rfl (fun _ => rfl) (fun _ _ => rfl) (fun _ _ => rfl) rfl rfl rfl
    obtain ⟨ok, as, t, hloop, hb, hnil, -, hcyc, hok⟩ := cyclicLoop_built va_to_pa
      buf_addr period_len dir
      (buf_len / period_len).toNat 0 (fun m hm => hlegal m (by omega)) hstart fun a ha => absurd ha List.not_mem_nil
    rw [toNat_periods hp] at hnil hok
    have hnil' : as = [] ↔ l_item 0 = none :=
      ⟨fun has => (hnil.1 has).2.resolve_left fun hno => hno hper, fun hno => hnil.2 ⟨rfl, .inr hno⟩⟩
    have hc : Unchained s (.cyclic i buf_addr buf_len period_len dir l_item) ↔
        (as ≠ [] → (s.chan i).desc = none) := by
      rw [Ne, hnil']
      exact ⟨And.right, fun hdesc => ⟨⟨hp, hper⟩, hdesc⟩⟩
    rw [List.getLast?_nil] at hloop
    rw [hloop] at hcall
    cases ok with
    | false =>
      have hnext : (dmac va_to_pa).next s (.cyclic i buf_addr buf_len period_len dir l_item) =
          some (hal_spin_unlock_irqrestore s.masked t) := hcall
      have hb' : Built s i as (hal_spin_unlock_irqrestore s.masked t) :=
        hb.congr rfl (fun _ => rfl) (fun _ _ => rfl) (fun _ _ => rfl) rfl rfl rfl
      exact h.built hb' hnext ⟨rfl, trivial⟩ hc fun hcyc' _ => hcyc.symm.trans hcyc'
    | true =>
      have has : as ≠ [] := fun hno => (hok rfl).elim (fun h => h hper) fun h => h (hnil'.1 hno)
      obtain ⟨p, hlast⟩ := Option.ne_none_iff_exists'.1 fun hno => has (List.getLast?_eq_none_iff.1 hno)
      rw [hlast] at hcall
      let u := setLli t p fun lli => { lli with p_lln := (t.chan i).desc.elim 0 va_to_pa }
      let v := setChan u i fun chan => { chan with cyclic := true }
      have hnext : (dmac va_to_pa).next s (.cyclic i buf_addr buf_len period_len dir l_item) =
          some (MELIS_CPU_CRITICAL_LEAVE s.masked v) := hcall
      have hself : v.chan i = { t.chan i with cyclic := true } := update_self ..
      have hb' : Built s i as (MELIS_CPU_CRITICAL_LEAVE s.masked v) := by
        refine (hb.setLli (List.mem_of_getLast? hlast) _).congr rfl (fun _ => rfl) (fun _ _ => rfl)
          (fun j hj => update_of_ne hj _ _) ?_ ?_ ?_
        · exact (congrArg Chan.desc hself :)
        · exact (congrArg Chan.periods_pos hself :)
        · exact (congrArg Chan.buf_len hself :)
      exact h.built hb' hnext ⟨rfl, trivial⟩ hc fun _ hno => absurd hno has
  · rw [(toNat_periods hp).2 hper] at hcall
    exact .lost (fun hc => hper hc.1.2) fun t ht => by cases hcall.symm.trans ht

end Cyclic

/-! ## All calls -/

theorem Inv.outcome (h : Inv s chains) {c : Call} (hlegal : Legal s c) : Outcome va_to_pa s c := by
  cases c with
  | request => exact h.request
  | free => exact h.free
  | config i config => exact h.config config
  | memcpy => exact h.memcpy hlegal
  | device => exact h.device hlegal
  | cyclic => exact h.prepCyclic hlegal
  | start => exact h.start
  | stop => exact h.stop
  | irq i status_l => exact h.irq status_l

theorem Inv.upholds_iff (h : Inv s chains) {cs : List Call}
    (hlegal : (dmac va_to_pa).Meets Legal s cs) :
    (dmac va_to_pa).Upholds Sound StepOk s cs ↔ (dmac va_to_pa).Meets Unchained s cs :=
  Machine.upholds_iff_meets (I := fun s => ∃ chains, Inv s chains)
    (fun _ ⟨_, h⟩ => ⟨_, h.toOwns⟩) (fun _ _ ⟨_, h⟩ hc => h.outcome hc) ⟨chains, h⟩ hlegal

/-- **The life cycle of a channel**: descriptors are neither lost nor used after they are freed,
all along the calls, just if no chain is replaced or freed. -/
theorem dmaLifeCycle_iff (va_to_pa : Addr → UInt32) {cs : List Call}
    (hlegal : (dmac va_to_pa).Meets Legal init cs) :
    (dmac va_to_pa).Upholds Sound StepOk init cs ↔ (dmac va_to_pa).Meets Unchained init cs :=
  inv_init.upholds_iff hlegal

/-- A channel is set up for a copy, started and stopped, and another is handed out. -/
theorem dmaLifeCycle_copy : (dmac id).Upholds Sound StepOk init
    [.request, .config 0 ⟨.DMA_MEM_TO_MEM, 0, 0, 4, 4, 16, 16, 0⟩, .memcpy 0 64 128 32 (some 4096),
      .start 0, .stop 0, .request, .cyclic 1 64 32 8 .DMA_MEM_TO_DEV fun k =>
        if k < 3 then some (UInt32.ofNat (8192 + 32 * k)) else none] :=
  (dmaLifeCycle_iff id (by decide +kernel)).2 (by decide +kernel)

/-- The descriptor is freed, and the channel still leads to it. -/
theorem free_dangling :
    (dmac id).Meets Legal init [.request, .memcpy 0 64 128 32 (some 4096), .free 0] ∧
      ¬ (dmac id).Upholds Sound StepOk init
        [.request, .memcpy 0 64 128 32 (some 4096), .free 0] := by
  have hlegal : (dmac id).Meets Legal init
      [.request, .memcpy 0 64 128 32 (some 4096), .free 0] := by decide +kernel
  refine ⟨hlegal, fun hup => ?_⟩
  have hchained := (inv_init.upholds_iff hlegal).1 hup
  revert hchained
  decide +kernel

end Melis.Dma
