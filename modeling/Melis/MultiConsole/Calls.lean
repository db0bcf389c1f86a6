import Melis.MultiConsole.Registry

/-!
# What each call keeps

`Legal` is what the callers promise: they pass consoles that are there, destroy
one only after its deinit, and give a task a console whose list is initialised.
`Safe` is what the registry needs besides: a console that is not up is
initialised again only when it has left the list and no task is on it, it is
destroyed only when it has left the list and no task has it, and output is
redirected only to a listed console.
-/

namespace Melis.MultiConsole

open Lib Function

variable {s s' : State} {T : Nat → List Nat} {l : List Nat} {c c' n t : Nat}

/-- `task_list` is zero, or `list_empty`. -/
def State.TaskListEmpty (s : State) (c : Nat) : Prop :=
  s.links.next (.taskList c) = none ∨ s.links.next (.taskList c) = some (.taskList c)

/-- What the callers promise. -/
def Legal (s : State) : Call → Prop
  | .init c _ => s.Live c
  | .taskCreate c _ _ _ _ => s.Live c
  | .deinit c _ => s.Live c
  | .taskDestory c _ => s.Live c
  | .destory c => s.Live c ∧ c ≠ cliUartConsole ∧ s.closed c = true
  | .setConsole task c _ => task < s.taskNum ∧ s.Live c ∧ s.Ready c
  | _ => True

/-- A console that is not up is neither listed nor has it a task. -/
def State.Down (s : State) (c : Nat) : Prop :=
  ∀ console ∈ s.consoles c, console.initFlag = false →
    s.registered c = false ∧ s.TaskListEmpty c

def Safe (s : State) : Call → Prop
  | .init c _ => s.Down c
  | .taskCreate c _ _ _ _ => s.Down c
  | .destory c => s.registered c = false ∧ ∀ task < s.taskNum, s.userData task ≠ some c
  | .redirectAll cur => ∀ c ∈ s.userData cur, s.registered c = true
  | _ => True

instance (s : State) (c : Nat) : Decidable (s.Live c) := inferInstanceAs (Decidable (_ = true))

instance (s : State) (c : Nat) : Decidable (s.Ready c) := inferInstanceAs (Decidable (_ ≠ none))

instance (s : State) (c : Nat) : Decidable (s.Down c) :=
  inferInstanceAs (Decidable (∀ console ∈ s.consoles c, console.initFlag = false →
    s.registered c = false ∧
      (s.links.next (.taskList c) = none ∨ s.links.next (.taskList c) = some (.taskList c))))

instance (s : State) : (i : Call) → Decidable (Legal s i)
  | .init c _ | .taskCreate c _ _ _ _ | .deinit c _ | .taskDestory c _ =>
    inferInstanceAs (Decidable (s.Live c))
  | .destory c => inferInstanceAs (Decidable (s.Live c ∧ c ≠ cliUartConsole ∧ s.closed c = true))
  | .setConsole task c _ =>
    inferInstanceAs (Decidable (task < s.taskNum ∧ s.Live c ∧ s.Ready c))
  | .create .. | .threadInit .. | .threadDelete _ | .redirectAll _ | .redirectStop => .isTrue trivial

instance (s : State) : (i : Call) → Decidable (Safe s i)
  | .init c _ | .taskCreate c _ _ _ _ => inferInstanceAs (Decidable (s.Down c))
  | .destory c => inferInstanceAs
    (Decidable (s.registered c = false ∧ ∀ task < s.taskNum, s.userData task ≠ some c))
  | .redirectAll cur => inferInstanceAs (Decidable (∀ c ∈ s.userData cur, s.registered c = true))
  | .create .. | .deinit .. | .taskDestory .. | .threadInit .. | .threadDelete _ | .setConsole .. |
    .redirectStop => .isTrue trivial

theorem inv_setClosed (h : Inv s) (c : Nat) (b : Bool) : Inv (s.setClosed c b) := by
  obtain ⟨l, T, ⟨h1, h2, h3⟩, ⟨g1, g2, g3, g4, g5, g6⟩, ⟨f1, f2, f3, f4, f5, f6, f7⟩⟩ := h
  exact ⟨l, T, ⟨h1, h2, h3⟩, ⟨g1, g2, g3, g4, g5, g6⟩, ⟨f1, f2, f3, f4, f5, f6, f7⟩⟩

/-! ## Init -/

/-- An empty task list is initialised. -/
theorem inv_initTaskList (h : Inv s) (hl : s.Live c) (hempty : s.TaskListEmpty c) :
    Inv { s with links := s.links.initListHead (.taskList c) } ∧
      State.Ready { s with links := s.links.initListHead (.taskList c) } c := by
  obtain ⟨l, T, hlist, hnodes, hf⟩ := h
  have hframe := Ring.frame_init s.links (.taskList c)
  have hself : (s.links.initListHead (.taskList c)).next (.taskList c) = some (.taskList c) :=
    update_self ..
  have hT : T c = [] := by
    by_contra hne
    obtain ⟨n, L, hcons⟩ := List.exists_cons_of_ne_nil hne
    obtain ⟨-, hr⟩ := hnodes.live c n (by rw [hcons]; exact List.mem_cons_self)
    have hring := hnodes.ring c hl hr
    rw [hcons] at hring
    rcases hempty with hnone | hnext
    · exact hr hnone
    · rw [Ring.next_eq hring.seg] at hnext
      cases hnext
  have hnext : ∀ c' ≠ c, (s.links.initListHead (.taskList c)).next (.taskList c') =
      s.links.next (.taskList c') := fun c' hne =>
    (hframe _ (by simpa using hne)).1
  have hready : ∀ c', s.Ready c' → (s.links.initListHead (.taskList c)).next (.taskList c') ≠ none := by
    intro c' hr
    by_cases hcc : c' = c
    · subst hcc
      rw [hself]
      exact nofun
    · rw [hnext c' hcc]
      exact hr
  refine ⟨⟨l, T, ?_, ?_, ?_⟩, ?_⟩
  · refine ⟨hlist.ring.frame hframe fun x hx hx' => ?_, hlist.registered, hlist.live⟩
    cases x <;> simp_all
  · refine ⟨fun c' hl' hr' => ?_, fun c' n hn => ?_, hnodes.node, hnodes.once, hnodes.kept,
      hnodes.unborn⟩
    · by_cases hcc : c' = c
      · subst hcc
        rw [hT]
        exact Ring.init s.links (.taskList c')
      · have hr : s.Ready c' := by
          unfold State.Ready at hr' ⊢
          rwa [hnext c' hcc] at hr'
        refine (hnodes.ring c' hl' hr).frame hframe fun x hx hx' => ?_
        cases x <;> simp_all
    · exact ⟨(hnodes.live c' n hn).1, hready c' (hnodes.live c' n hn).2⟩
  · refine ⟨hf.created, fun c' hle hr => ?_, fun c' console hc' hi => ?_, fun t c' ht => ?_,
      hf.newTask, hf.globalConsole, hf.uart⟩
    · have hne : c' ≠ c := fun hcc => absurd (hf.created c hl) (Nat.not_lt.2 (hcc ▸ hle))
      refine hf.fresh c' hle ?_
      unfold State.Ready at hr ⊢
      rwa [hnext c' hne] at hr
    · obtain ⟨hr, hreg⟩ := hf.up c' console hc' hi
      exact ⟨hready c' hr, hreg⟩
    · obtain ⟨hl', hr⟩ := hf.attached t c' ht
      exact ⟨hl', hready c' hr⟩
  · unfold State.Ready
    rw [hself]
    exact nofun

theorem inv_register (h : Inv s) (hl : s.Live c) (hc : s.registered c = false) :
    ∃ s', s.registerCliConsoleToList c = some s' ∧ Inv s' ∧ RegistryOnly s s' ∧
      s'.consoles = s.consoles ∧ s'.registered c = true := by
  obtain ⟨l, T, hlist, hnodes, hf⟩ := h
  obtain ⟨s', hreg, hlist', honly, heq⟩ := hlist.register hl hc
  have hmono : ∀ c', s.registered c' = true → s'.registered c' = true := by
    intro c' hc'
    rw [heq]
    by_cases hcc : c' = c
    · subst hcc
      exact update_self ..
    · exact (update_of_ne hcc ..).trans hc'
  have hconsoles : s'.consoles = s.consoles := by rw [heq]
  refine ⟨s', hreg, ⟨_, T, hlist', honly.nodes hnodes, ?_⟩, honly, hconsoles, ?_⟩
  · refine ⟨fun c' hc' => ?_, fun c' hle hr => ?_, fun c' console hc' hi => ?_, fun t c' ht => ?_,
      fun t ht => ?_, fun c' hg => ?_, (honly.live _).2 hf.uart⟩
    · rw [heq]
      exact hf.created c' ((honly.live c').1 hc')
    · rw [heq] at hle
      exact hf.fresh c' hle ((honly.ready c').1 hr)
    · rw [hconsoles] at hc'
      obtain ⟨hr, hreg'⟩ := hf.up c' console hc' hi
      exact ⟨(honly.ready c').2 hr, fun he => hmono c' (hreg' he)⟩
    · rw [honly.userData] at ht
      obtain ⟨hl', hr⟩ := hf.attached t c' ht
      exact ⟨(honly.live c').2 hl', (honly.ready c').2 hr⟩
    · rw [honly.userData]
      rw [heq] at ht
      exact hf.newTask t ht
    · rw [heq] at hg
      exact hmono c' (hf.globalConsole c' hg)
  · rw [heq]
    exact update_self ..

theorem inv_init (h : Inv s) (hl : s.Live c) (hdown : s.Down c) (hook : Int) :
    ∃ s', s.cliConsoleInit c hook = some s' ∧ Inv s' ∧ s'.Live c := by
  obtain ⟨console, hc⟩ := Option.isSome_iff_exists.1 hl
  unfold State.cliConsoleInit
  rw [hc, Option.bind_some]
  cases hi : console.initFlag with
  | true => exact ⟨s, if_pos rfl, h, hl⟩
  | false =>
    obtain ⟨hreg, hempty⟩ := hdown console hc hi
    obtain ⟨hinv, hready⟩ := inv_initTaskList h hl hempty
    obtain ⟨s', hregister, hinv', honly, hconsoles, hregistered⟩ := inv_register hinv hl hreg
    dsimp only
    rw [if_neg nofun, hregister, Option.map_some]
    have hl' : s'.Live c := (honly.live c).2 hl
    refine ⟨_, rfl, ?_⟩
    split
    · exact ⟨inv_setConsole _ hinv' hl' fun _ => ⟨(honly.ready c).2 hready, fun _ => hregistered⟩,
        (live_setConsole _ hl' c).2 hl'⟩
    · exact ⟨hinv', hl'⟩

/-! ## Deinit -/

theorem inv_globalConsole {v : Option Nat} (h : Inv s)
    (hv : ∀ c, v = some c → s.registered c = true) : Inv (s.setGlobalConsole v) := by
  obtain ⟨l, T, ⟨h1, h2, h3⟩, ⟨g1, g2, g3, g4, g5, g6⟩, ⟨f1, f2, f3, f4, f5, -, f7⟩⟩ := h
  exact ⟨l, T, ⟨h1, h2, h3⟩, ⟨g1, g2, g3, g4, g5, g6⟩, ⟨f1, f2, f3, f4, f5, hv, f7⟩⟩

theorem inv_clear (h : Inv s) (hl : s.Live c) (hr : s.Ready c) :
    ∃ s', s.cliConsoleClearTaskList c = some s' ∧ Inv s' ∧ TaskOnly s s' := by
  obtain ⟨l, T, hlist, hnodes, hf⟩ := h
  obtain ⟨s', hclear, hnodes', honly⟩ := hnodes.clear hl hr
  exact ⟨s', hclear, ⟨l, _, honly.listed hlist, hnodes', honly.flags hf⟩, honly⟩

/-- A console that is not up leaves the list. -/
theorem inv_remove {console : CliConsole} (h : Inv s) (hc : s.consoles c = some console)
    (hexit : console.exitFlag = true) (hglobal : s.globalConsole ≠ some c) :
    ∃ s', s.removeCliConsoleFromList c = some s' ∧ Inv s' ∧ RegistryOnly s s' ∧
      s'.consoles = s.consoles := by
  obtain ⟨l, T, hlist, hnodes, hf⟩ := h
  obtain ⟨s', l', hremove, hlist', honly, heq⟩ := hlist.remove hf c
  have hconsoles : s'.consoles = s.consoles := by rw [heq]
  have hother : ∀ c' ≠ c, s'.registered c' = s.registered c' := fun c' hne => by
    rw [heq]
    exact update_of_ne hne ..
  refine ⟨s', hremove, ⟨l', T, hlist', honly.nodes hnodes, ?_⟩, honly, hconsoles⟩
  refine ⟨fun c' hc' => ?_, fun c' hle hr => ?_, fun c' console' hc' hi => ?_, fun t c' ht => ?_,
    fun t ht => ?_, fun c' hg => ?_, (honly.live _).2 hf.uart⟩
  · rw [heq]
    exact hf.created c' ((honly.live c').1 hc')
  · rw [heq] at hle
    exact hf.fresh c' hle ((honly.ready c').1 hr)
  · rw [hconsoles] at hc'
    obtain ⟨hr, hreg⟩ := hf.up c' console' hc' hi
    refine ⟨(honly.ready c').2 hr, fun he => ?_⟩
    have hne : c' ≠ c := by
      rintro rfl
      obtain rfl : console = console' := Option.some.inj (hc.symm.trans hc')
      rw [hexit] at he
      cases he
    rw [hother c' hne]
    exact hreg he
  · rw [honly.userData] at ht
    obtain ⟨hl', hr⟩ := hf.attached t c' ht
    exact ⟨(honly.live c').2 hl', (honly.ready c').2 hr⟩
  · rw [honly.userData]
    rw [heq] at ht
    exact hf.newTask t ht
  · rw [heq] at hg
    have hne : c' ≠ c := by
      rintro rfl
      exact hglobal hg
    rw [hother c' hne]
    exact hf.globalConsole c' hg

theorem inv_deinit (h : Inv s) (hl : s.Live c) (hook : Int) :
    ∃ s', s.cliConsoleDeinit c hook = some s' ∧ Inv s' ∧ s'.Live c := by
  obtain ⟨console, hc⟩ := Option.isSome_iff_exists.1 hl
  obtain ⟨s₁, hs₁⟩ : ∃ s₁, s₁ = if s.globalConsole = some c then
      { s with globalConsole := none } else s := ⟨_, rfl⟩
  have hinv₁ : Inv s₁ ∧ s₁.consoles = s.consoles ∧ s₁.globalConsole ≠ some c := by
    rw [hs₁]
    split
    · exact ⟨inv_globalConsole h nofun, rfl, nofun⟩
    · exact ⟨h, rfl, ‹_›⟩
  obtain ⟨hinv₁, hsame, hglobal⟩ := hinv₁
  have hc₁ : s₁.consoles c = some console := by
    rw [hsame]
    exact hc
  have hl₁ : s₁.Live c := Option.isSome_iff_exists.2 ⟨_, hc₁⟩
  unfold State.cliConsoleDeinit
  dsimp only
  rw [← hs₁, hc₁, Option.bind_some]
  by_cases hi : console.initFlag = true
  · rw [if_pos hi]
    have hready : s₁.Ready c := by
      obtain ⟨-, -, -, -, hf⟩ := hinv₁
      exact (hf.up c console hc₁ hi).1
    have hl₂ := (live_setConsole { console with exitFlag := true } hl₁ c).2 hl₁
    obtain ⟨s₃, hclear, hinv₃, honly₃⟩ := inv_clear
      (inv_setConsole { console with exitFlag := true } hinv₁ hl₁
        fun _ => ⟨hready, nofun⟩) hl₂ hready
    have hc₃ : s₃.consoles c = some { console with exitFlag := true } := by
      rw [honly₃.consoles]
      exact setConsole_self
    obtain ⟨s₄, hremove, hinv₄, honly₄, hsame₄⟩ := inv_remove hinv₃ hc₃ rfl (by
      rw [honly₃.globalConsole]
      exact hglobal)
    have hl₄ : s₄.Live c := by
      unfold State.Live
      rw [hsame₄, hc₃]
      rfl
    rw [hclear, Option.bind_some, hremove, Option.map_some]
    refine ⟨_, rfl, ?_⟩
    split
    · exact ⟨inv_setConsole _ hinv₄ hl₄ nofun, (live_setConsole _ hl₄ c).2 hl₄⟩
    · exact ⟨hinv₄, hl₄⟩
  · exact ⟨s₁, if_neg hi, hinv₁, hl₁⟩

/-! ## Tasks -/

/-- The task has no node any more, on whatever list. -/
theorem nodes_leaveConsole (hnodes : Nodes T s) (hf : Flags s) (t : Nat) :
    ∃ s' T', s.leaveConsole t = some s' ∧ Nodes T' s' ∧ TaskOnly s s' ∧
      ∀ c, ∀ n ∈ T' c, s'.wrapers n ≠ some t := by
  unfold State.leaveConsole
  cases hu : s.userData t with
  | none =>
    refine ⟨s, T, rfl, hnodes, .refl s, fun c n hn hw => ?_⟩
    obtain ⟨-, -, t', ht', hc⟩ := hnodes.node c n hn
    obtain rfl : t' = t := Option.some.inj (ht'.symm.trans hw)
    rw [hu] at hc
    cases hc
  | some last =>
    obtain ⟨hl, hr⟩ := hf.attached t last hu
    obtain ⟨s', T', hremove, hnodes', honly, hno⟩ := hnodes.remove hl hr t
    refine ⟨s', T', hremove, hnodes', honly, fun c n hn hw => ?_⟩
    obtain ⟨-, -, t', ht', hc⟩ := hnodes'.node c n hn
    obtain rfl : t' = t := Option.some.inj (ht'.symm.trans hw)
    rw [honly.userData, hu] at hc
    obtain rfl : last = c := Option.some.inj hc
    exact hno n hn hw

/-- A task takes a console, or none. -/
theorem inv_cliTaskSetConsole (h : Inv s) {v : Option Nat} (ht : ∀ c, v = some c → t < s.taskNum)
    (hv : ∀ c, v = some c → s.Live c ∧ s.Ready c) (malloc : Bool) :
    ∃ s', s.cliTaskSetConsole t v malloc = some s' ∧ Inv s' := by
  obtain ⟨l, T, hlist, hnodes, hf⟩ := h
  obtain ⟨s₁, T₁, hs₁, hnodes₁, honly₁, hno₁⟩ := nodes_leaveConsole hnodes hf t
  have hf₁ := honly₁.flags hf
  have hflags : Flags { s₁ with userData := update s₁.userData t v } := by
    refine ⟨hf₁.created, hf₁.fresh, hf₁.up, fun t' c ht' => ?_, fun t' hle => ?_,
      hf₁.globalConsole, hf₁.uart⟩
    · change update s₁.userData t v t' = some c at ht'
      by_cases htt : t' = t
      · subst htt
        rw [update_self] at ht'
        exact ⟨(honly₁.live c).2 (hv c ht').1, (honly₁.ready c).2 (hv c ht').2⟩
      · rw [update_of_ne htt] at ht'
        exact hf₁.attached t' c ht'
    · change update s₁.userData t v t' = none
      by_cases htt : t' = t
      · subst htt
        rw [update_self]
        refine Option.eq_none_iff_forall_ne_some.2 fun c hc => ?_
        exact absurd (ht c hc) (Nat.not_lt.2 (honly₁.taskNum ▸ hle))
      · rw [update_of_ne htt]
        exact hf₁.newTask t' hle
  have hset := hnodes₁.setUserData hno₁ v
  have hlist₁ := honly₁.listed hlist
  have hlisted : Listed l { s₁ with userData := update s₁.userData t v } :=
    ⟨hlist₁.ring, hlist₁.registered, hlist₁.live⟩
  unfold State.cliTaskSetConsole
  rw [hs₁, Option.bind_some]
  cases v with
  | none => exact ⟨_, rfl, l, T₁, hlisted, hset, hflags⟩
  | some c =>
    obtain ⟨hl, hr⟩ := hv c rfl
    obtain ⟨s₂, T₂, hadd, hnodes₂, honly₂⟩ := hset.add (c := c) (t := t) ((honly₁.live c).2 hl)
      ((honly₁.ready c).2 hr) (update_self ..) (hno₁ c) malloc
    exact ⟨s₂, hadd, l, T₂, honly₂.listed hlisted, hnodes₂, honly₂.flags hflags⟩

theorem nodes_newTask (hnodes : Nodes T s) (hf : Flags s) (v : Option Nat) :
    Nodes T { s with userData := update s.userData s.taskNum v, taskNum := s.taskNum + 1 } := by
  have hset := hnodes.setUserData (t := s.taskNum) (fun c n hn hw => by
    obtain ⟨-, -, t, ht, hc⟩ := hnodes.node c n hn
    obtain rfl : t = s.taskNum := Option.some.inj (ht.symm.trans hw)
    rw [hf.newTask _ (Nat.le_refl _)] at hc
    cases hc) v
  exact ⟨hset.ring, hset.live, hset.node, hset.once, hset.kept, hset.unborn⟩

theorem flags_newTask (hf : Flags s) (cur : Nat) :
    Flags { s with
      userData := update s.userData s.taskNum (s.userData cur), taskNum := s.taskNum + 1 } := by
  refine ⟨hf.created, hf.fresh, hf.up, fun t c ht => ?_, fun t hle => ?_, hf.globalConsole, hf.uart⟩
  · change update s.userData s.taskNum (s.userData cur) t = some c at ht
    by_cases htt : t = s.taskNum
    · subst htt
      rw [update_self] at ht
      exact hf.attached cur c ht
    · rw [update_of_ne htt] at ht
      exact hf.attached t c ht
  · have hne : t ≠ s.taskNum := Nat.ne_of_gt hle
    exact (update_of_ne hne ..).trans (hf.newTask t (Nat.le_of_succ_le hle))

theorem inv_threadInit (h : Inv s) (cur : Nat) (malloc : Bool) :
    ∃ s', s.threadInit cur malloc = some s' ∧ Inv s' := by
  obtain ⟨l, T, hlist, hnodes, hf⟩ := h
  have hinv : Inv { s with
      userData := update s.userData s.taskNum (s.userData cur), taskNum := s.taskNum + 1 } := by
    refine ⟨l, T, ⟨hlist.ring, hlist.registered, hlist.live⟩, ?_, ?_⟩
    · exact nodes_newTask hnodes hf (s.userData cur)
    · exact flags_newTask hf cur
  have hcur : update s.userData s.taskNum (s.userData cur) cur = s.userData cur := by
    by_cases hc : cur = s.taskNum
    · rw [← hc, update_self]
    · rw [update_of_ne hc]
  unfold State.threadInit
  dsimp only
  rw [hcur]
  exact inv_cliTaskSetConsole (t := s.taskNum) hinv (fun _ _ => Nat.lt_succ_self _)
    (hf.attached cur) malloc

theorem inv_taskCreate (h : Inv s) (hl : s.Live c) (hdown : s.Down c) (hook : Int)
    (pthread : Bool) (cur : Nat) (malloc : Bool) :
    ∃ s', s.cliConsoleTaskCreate c hook pthread cur malloc = some s' ∧ Inv s' := by
  obtain ⟨s₁, hinit, hinv₁, hl₁⟩ := inv_init h hl hdown hook
  obtain ⟨console, hc₁⟩ := Option.isSome_iff_exists.1 hl₁
  have hinv₂ := inv_setConsole { console with alive := true } hinv₁ hl₁ fun hi => by
    obtain ⟨-, -, -, -, hf⟩ := hinv₁
    exact hf.up c console hc₁ hi
  unfold State.cliConsoleTaskCreate
  rw [hinit, Option.bind_some, hc₁, Option.bind_some]
  cases pthread with
  | false => exact ⟨_, rfl, hinv₂⟩
  | true => exact inv_threadInit hinv₂ cur malloc

theorem inv_taskDestory (h : Inv s) (hl : s.Live c) (hook : Int) :
    ∃ s', s.cliConsoleTaskDestory c hook = some s' ∧ Inv s' := by
  obtain ⟨console, hc⟩ := Option.isSome_iff_exists.1 hl
  have hinv₁ := inv_setConsole { console with exitFlag := true } h hl fun hi => by
    obtain ⟨-, -, -, -, hf⟩ := h
    exact ⟨(hf.up c console hc hi).1, nofun⟩
  obtain ⟨s₂, hdeinit, hinv₂, hl₂⟩ := inv_deinit hinv₁ ((live_setConsole _ hl c).2 hl) hook
  obtain ⟨console₂, hc₂⟩ := Option.isSome_iff_exists.1 hl₂
  unfold State.cliConsoleTaskDestory
  rw [hc, Option.bind_some, hdeinit, Option.bind_some, hc₂]
  refine ⟨_, rfl, inv_setConsole _ hinv₂ hl₂ fun hi => ?_⟩
  obtain ⟨-, -, -, -, hf⟩ := hinv₂
  exact hf.up c console₂ hc₂ hi

/-! ## Create and destroy -/

/-- A new console is not ready and has no task. -/
theorem inv_new (h : Inv s) {console : CliConsole} (hi : console.initFlag = false) :
    Inv { s.setConsole s.consoleNum console with consoleNum := s.consoleNum + 1 } := by
  obtain ⟨l, T, hlist, hnodes, hf⟩ := h
  have hnew : ¬ s.Ready s.consoleNum := hf.fresh _ (Nat.le_refl _)
  have hlive : ∀ c, s.Live c → (s.setConsole s.consoleNum console).Live c := by
    intro c hc
    have hne : c ≠ s.consoleNum := Nat.ne_of_lt (hf.created c hc)
    unfold State.Live
    rw [setConsole_of_ne hne]
    exact hc
  have hold : ∀ c, (s.setConsole s.consoleNum console).Live c → c ≠ s.consoleNum → s.Live c := by
    intro c hc hne
    unfold State.Live at hc
    rwa [setConsole_of_ne hne] at hc
  refine ⟨l, T, ⟨hlist.ring, hlist.registered, fun c hc => hlive c (hlist.live c hc)⟩, ?_, ?_⟩
  · refine ⟨fun c hl hr => hnodes.ring c (hold c hl ?_) hr, fun c n hn => ?_, hnodes.node,
      hnodes.once, hnodes.kept, hnodes.unborn⟩
    · rintro rfl
      exact hnew hr
    · exact ⟨hlive c (hnodes.live c n hn).1, (hnodes.live c n hn).2⟩
  · refine ⟨fun c hc => ?_, fun c hle => hf.fresh c (Nat.le_of_succ_le hle),
      fun c console' hc hi' => ?_, fun t c ht => ⟨hlive c (hf.attached t c ht).1,
        (hf.attached t c ht).2⟩, hf.newTask, hf.globalConsole, hlive _ hf.uart⟩
    · by_cases hcc : c = s.consoleNum
      · exact Nat.lt_succ_of_le (Nat.le_of_eq hcc)
      · exact Nat.lt_succ_of_lt (hf.created c (hold c hc hcc))
    · have hne : c ≠ s.consoleNum := by
        rintro rfl
        obtain rfl : console = console' := Option.some.inj (setConsole_self.symm.trans hc)
        rw [hi] at hi'
        cases hi'
      exact hf.up c console' ((setConsole_of_ne hne).symm.trans hc) hi'

theorem inv_create (h : Inv s) (devConsole : Option DeviceConsole) (name : List UInt8)
    (malloc : Bool) : Inv (s.cliConsoleCreate devConsole name malloc) := by
  cases devConsole with
  | none => exact h
  | some devConsole =>
    cases malloc with
    | false => exact h
    | true => exact inv_new h rfl

/-- A console that is out of use is freed. -/
theorem inv_destory (h : Inv s) (hl : s.Live c) (hne : c ≠ cliUartConsole)
    (hreg : s.registered c = false) (hout : ∀ task < s.taskNum, s.userData task ≠ some c) :
    ∃ s', s.cliConsoleDestory c = some s' ∧ Inv s' := by
  obtain ⟨l, T, hlist, hnodes, hf⟩ := h
  have htask : ∀ task, s.userData task ≠ some c := by
    intro task ht
    refine hout task ?_ ht
    by_contra hle
    rw [hf.newTask task (Nat.not_lt.1 hle)] at ht
    cases ht
  obtain ⟨console, hc⟩ := Option.isSome_iff_exists.1 hl
  have hlive : ∀ c' ≠ c, (update s.consoles c none c').isSome = (s.consoles c').isSome :=
    fun c' hne' => by rw [update_of_ne hne']
  have hold : ∀ c', (update s.consoles c none c').isSome = true → c' ≠ c := by
    rintro c' hc' rfl
    rw [update_self] at hc'
    cases hc'
  unfold State.cliConsoleDestory
  rw [hc]
  refine ⟨_, rfl, l, T, ⟨hlist.ring, hlist.registered, fun c' hc' => ?_⟩, ?_, ?_⟩
  · have hne' : c' ≠ c := by
      rintro rfl
      rw [(hlist.registered c').1 hc'] at hreg
      cases hreg
    exact (hlive c' hne').trans (hlist.live c' hc')
  · refine ⟨fun c' hl' hr => ?_, fun c' n hn => ?_, hnodes.node, hnodes.once, hnodes.kept,
      hnodes.unborn⟩
    · exact hnodes.ring c' ((hlive c' (hold c' hl')).symm.trans hl') hr
    · obtain ⟨hl', hr⟩ := hnodes.live c' n hn
      obtain ⟨-, -, t, -, ht⟩ := hnodes.node c' n hn
      have hne' : c' ≠ c := by
        rintro rfl
        exact htask t ht
      exact ⟨(hlive c' hne').trans hl', hr⟩
  · refine ⟨fun c' hl' => ?_, hf.fresh, fun c' console' hc' hi => ?_, fun t c' ht => ?_, hf.newTask,
      hf.globalConsole, (hlive _ (Ne.symm hne)).trans hf.uart⟩
    · exact hf.created c' ((hlive c' (hold c' hl')).symm.trans hl')
    · change update s.consoles c none c' = some console' at hc'
      have hne' : c' ≠ c := hold c' (Option.isSome_iff_exists.2 ⟨_, hc'⟩)
      rw [update_of_ne hne'] at hc'
      exact hf.up c' console' hc' hi
    · have hne' : c' ≠ c := by
        rintro rfl
        exact htask t ht
      exact ⟨(hlive c' hne').trans (hf.attached t c' ht).1, (hf.attached t c' ht).2⟩

/-! ## Every call -/

theorem inv_step (h : Inv s) {i : Call} (hlegal : Legal s i) (hsafe : Safe s i) :
    ∃ s', calls.next s i = some s' ∧ Inv s' := by
  cases i with
  | create devConsole name malloc => exact ⟨_, rfl, inv_create h devConsole name malloc⟩
  | init c hook =>
    obtain ⟨s', hs', hinv, -⟩ := inv_init (inv_setClosed h c false) hlegal hsafe hook
    exact ⟨s', hs', hinv⟩
  | taskCreate c hook pthread cur malloc =>
    exact inv_taskCreate (inv_setClosed h c false) hlegal hsafe hook pthread cur malloc
  | deinit c hook =>
    obtain ⟨s', hs', hinv, -⟩ := inv_deinit (inv_setClosed h c true) hlegal hook
    exact ⟨s', hs', hinv⟩
  | taskDestory c hook => exact inv_taskDestory (inv_setClosed h c true) hlegal hook
  | destory c => exact inv_destory h hlegal.1 hlegal.2.1 hsafe.1 hsafe.2
  | threadInit cur malloc => exact inv_threadInit h cur malloc
  | threadDelete task => exact inv_cliTaskSetConsole (t := task) (v := none) h nofun nofun true
  | setConsole task c malloc =>
    refine inv_cliTaskSetConsole (t := task) (v := some c) h (fun _ _ => hlegal.1) (fun c' hc' => ?_) malloc
    obtain rfl := Option.some.inj hc'
    exact hlegal.2
  | redirectAll cur => exact ⟨_, rfl, inv_globalConsole h hsafe⟩
  | redirectStop => exact ⟨_, rfl, inv_globalConsole h nofun⟩

end Melis.MultiConsole
