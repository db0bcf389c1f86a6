import Melis.MultiConsole.Tasks

/-!
# The list of consoles

`Listed l s` says that `l` are the consoles on the global list, that they are
those registered and not removed, and that none of them has been freed. With
`Nodes` and with what the flags of a console say of it, it is the invariant
`Inv` of the registry; each call keeps it, where the call does not put a
console on the list that is there or takes one away that is still in use.
-/

namespace Melis.MultiConsole

open Lib Function

variable {s s' : State} {T : Nat → List Nat} {l : List Nat} {c c' n t : Nat}

structure Listed (l : List Nat) (s : State) : Prop where
  ring : Ring s.links .gCliConsolelist (l.map .iList)
  registered : ∀ c, c ∈ l ↔ s.registered c = true
  live : ∀ c ∈ l, s.Live c

/-- What the flags and the pointers to consoles say. -/
structure Flags (s : State) : Prop where
  created : ∀ c, s.Live c → c < s.consoleNum
  fresh : ∀ c, s.consoleNum ≤ c → ¬ s.Ready c
  up : ∀ c console, s.consoles c = some console → console.initFlag = true →
    s.Ready c ∧ (console.exitFlag = false → s.registered c = true)
  attached : ∀ t c, s.userData t = some c → s.Live c ∧ s.Ready c
  newTask : ∀ t, s.taskNum ≤ t → s.userData t = none
  globalConsole : ∀ c, s.globalConsole = some c → s.registered c = true
  uart : s.Live cliUartConsole

def Inv (s : State) : Prop := ∃ l T, Listed l s ∧ Nodes T s ∧ Flags s

/-! ## What is left alone -/

namespace TaskOnly

variable (h : TaskOnly s s')

include h

theorem listed (hl : Listed l s) : Listed l s' where
  ring := by
    refine hl.ring.congr (fun x hx => (h.links x ?_).1) fun x hx => (h.links x ?_).2 <;>
    · rcases List.mem_cons.1 hx with rfl | hx
      · trivial
      · obtain ⟨c, -, rfl⟩ := List.mem_map.1 hx
        trivial
  registered c := by
    rw [h.registered]
    exact hl.registered c
  live c hc := (h.live c).2 (hl.live c hc)

theorem flags (hf : Flags s) : Flags s' where
  created c hc := by
    rw [h.consoleNum]
    exact hf.created c ((h.live c).1 hc)
  fresh c hc hr := hf.fresh c (h.consoleNum ▸ hc) ((h.ready c).1 hr)
  up c console hc hi := by
    rw [h.consoles] at hc
    rw [h.ready, h.registered]
    exact hf.up c console hc hi
  attached t c ht := by
    rw [h.userData] at ht
    rw [h.live, h.ready]
    exact hf.attached t c ht
  newTask t ht := by
    rw [h.userData]
    exact hf.newTask t (h.taskNum ▸ ht)
  globalConsole c hc := by
    rw [h.registered]
    exact hf.globalConsole c (h.globalConsole ▸ hc)
  uart := (h.live _).2 hf.uart

end TaskOnly

/-- What a function on the list of consoles leaves alone. -/
structure RegistryOnly (s s' : State) : Prop where
  wrapers : s'.wrapers = s.wrapers
  wraperNum : s'.wraperNum = s.wraperNum
  frees : s'.frees = s.frees
  userData : s'.userData = s.userData
  links : ∀ x : Cell, ¬ x.Registry → s'.links.next x = s.links.next x ∧
    s'.links.prev x = s.links.prev x
  live : ∀ c, s'.Live c ↔ s.Live c

namespace RegistryOnly

theorem ready (h : RegistryOnly s s') (c : Nat) : s'.Ready c ↔ s.Ready c := by
  unfold State.Ready
  rw [(h.links _ id).1]

theorem nodes (h : RegistryOnly s s') (hn : Nodes T s) : Nodes T s' where
  ring c hl hr := by
    refine (hn.ring c ((h.live c).1 hl) ((h.ready c).1 hr)).congr (fun x hx => (h.links x ?_).1)
      fun x hx => (h.links x ?_).2 <;>
    · rcases List.mem_cons.1 hx with rfl | hx
      · exact id
      · obtain ⟨n, -, rfl⟩ := List.mem_map.1 hx
        exact id
  live c n hc := by
    rw [h.live, h.ready]
    exact hn.live c n hc
  node c n hc := by
    rw [h.wraperNum, h.frees, h.wrapers, h.userData]
    exact hn.node c n hc
  once c := by
    rw [h.wrapers]
    exact hn.once c
  kept n hlt := by
    rw [h.frees, h.wrapers]
    exact hn.kept n (h.wraperNum ▸ hlt)
  unborn n hle := by
    rw [h.frees]
    exact hn.unborn n (h.wraperNum ▸ hle)

end RegistryOnly

@[simp] theorem setConsole_self {console : CliConsole} :
    (s.setConsole c console).consoles c = some console := update_self ..

theorem setConsole_of_ne {console : CliConsole} (h : c' ≠ c) :
    (s.setConsole c console).consoles c' = s.consoles c' := update_of_ne h ..

theorem live_setConsole (console : CliConsole) (hl : s.Live c) (c' : Nat) :
    (s.setConsole c console).Live c' ↔ s.Live c' := by
  unfold State.Live
  by_cases hcc : c' = c
  · subst hcc
    rw [setConsole_self]
    exact iff_of_true rfl hl
  · rw [setConsole_of_ne hcc]

theorem registryOnly_setConsole (console : CliConsole) (hl : s.Live c) :
    RegistryOnly s (s.setConsole c console) :=
  ⟨rfl, rfl, rfl, rfl, fun _ _ => ⟨rfl, rfl⟩, live_setConsole console hl⟩

/-- The flags of a console change. -/
theorem inv_setConsole (console : CliConsole) (h : Inv s) (hl : s.Live c)
    (hup : console.initFlag = true →
      s.Ready c ∧ (console.exitFlag = false → s.registered c = true)) :
    Inv (s.setConsole c console) := by
  obtain ⟨l, T, hlist, hnodes, hf⟩ := h
  have hlive := live_setConsole console hl
  refine ⟨l, T, ⟨hlist.ring, hlist.registered, fun c hc => (hlive c).2 (hlist.live c hc)⟩,
    (registryOnly_setConsole console hl).nodes hnodes, ?_⟩
  refine ⟨fun c hc => hf.created c ((hlive c).1 hc), hf.fresh, ?_, ?_, hf.newTask,
    hf.globalConsole, (hlive _).2 hf.uart⟩
  · intro c' console' hc' hi
    by_cases hcc : c' = c
    · subst hcc
      obtain rfl : console = console' := Option.some.inj (setConsole_self.symm.trans hc')
      exact hup hi
    · exact hf.up c' console' ((setConsole_of_ne hcc).symm.trans hc') hi
  · intro t c' ht
    exact ⟨(hlive c').2 (hf.attached t c' ht).1, (hf.attached t c' ht).2⟩

/-! ## The list -/

namespace Listed

variable (h : Listed l s)

include h

theorem nodup : l.Nodup := (List.nodup_cons.1 h.ring.nodup).2.of_map _

theorem length_lt (hf : Flags s) : (l.map Cell.iList).length < s.consoleNum + 1 := by
  have hsub : l ⊆ List.range s.consoleNum := fun c hc =>
    List.mem_range.2 (hf.created c (h.live c hc))
  have hle := (List.subperm_of_subset h.nodup hsub).length_le
  rw [List.length_range] at hle
  rw [List.length_map]
  exact Nat.lt_succ_of_le hle

/-- A console that is not on the list is put there. -/
theorem register (hlive : s.Live c) (hc : s.registered c = false) :
    ∃ s', s.registerCliConsoleToList c = some s' ∧ Listed (c :: l) s' ∧ RegistryOnly s s' ∧
      s' = { s with links := s'.links, registered := update s.registered c true } := by
  have hcl : c ∉ l := fun hmem => by simp [(h.registered c).1 hmem] at hc
  have hout : Cell.iList c ∉ Cell.gCliConsolelist :: l.map Cell.iList := by
    simpa using hcl
  have hinit : Ring (s.links.initListHead (.iList c)) .gCliConsolelist (l.map .iList) := by
    refine h.ring.frame (Ring.frame_init s.links (.iList c)) fun x hx hx' => ?_
    exact hout (List.mem_singleton.1 hx' ▸ hx)
  obtain ⟨L', hadd, hring, hframe⟩ := hinit.add hout
  unfold State.registerCliConsoleToList
  rw [hadd]
  refine ⟨_, rfl, ⟨hring, fun c' => ?_, fun c' hc' => ?_⟩, ⟨rfl, rfl, rfl, rfl, ?_, fun _ => Iff.rfl⟩,
    rfl⟩
  · dsimp only
    by_cases hcc : c' = c
    · subst hcc
      rw [update_self]
      exact iff_of_true List.mem_cons_self rfl
    · rw [update_of_ne hcc, ← h.registered c']
      simp [hcc]
  · rcases List.mem_cons.1 hc' with rfl | hc'
    · exact hlive
    · exact h.live c' hc'
  · intro x hx
    have hnot : x ∉ Cell.gCliConsolelist :: .iList c :: l.map .iList := by
      intro hmem
      cases x <;> simp_all [Cell.Registry]
    have hne : x ∉ [Cell.iList c] := by
      intro hmem
      cases x <;> simp_all [Cell.Registry]
    have hfirst := Ring.frame_init s.links (.iList c) x hne
    exact ⟨(hframe x hnot).1.trans hfirst.1, (hframe x hnot).2.trans hfirst.2⟩

/-- A console is taken from the list, if it is there. -/
theorem remove (hf : Flags s) (c : Nat) :
    ∃ s' l', s.removeCliConsoleFromList c = some s' ∧ Listed l' s' ∧ RegistryOnly s s' ∧
      s' = { s with links := s'.links, registered := update s.registered c false } := by
  have hfind := h.ring.search_eq (p := fun pos => some (decide (pos = .iList c)))
    (q := fun pos => decide (pos = .iList c)) (fun _ _ => rfl) (h.length_lt hf)
  unfold State.removeCliConsoleFromList State.searchConsoles
  rw [hfind, Option.bind_some]
  cases hfound : (l.map Cell.iList).find? fun pos => decide (pos = .iList c) with
  | none =>
    have hcl : c ∉ l := fun hmem =>
      List.find?_eq_none.1 hfound _ (List.mem_map_of_mem hmem) (decide_eq_true rfl)
    refine ⟨_, l, rfl, ⟨h.ring, fun c' => ?_, h.live⟩,
      ⟨rfl, rfl, rfl, rfl, fun _ _ => ⟨rfl, rfl⟩, fun _ => Iff.rfl⟩, rfl⟩
    dsimp only
    by_cases hcc : c' = c
    · subst hcc
      rw [update_self]
      exact iff_of_false hcl nofun
    · rw [update_of_ne hcc]
      exact h.registered c'
  | some pos =>
    obtain ⟨hpos, A, B, hsplit, -⟩ := List.find?_eq_some_iff_append.1 hfound
    obtain ⟨A', B', hl, rfl, hB⟩ := List.map_eq_append_iff.1 hsplit
    obtain ⟨c₀, B'', rfl, hc₀, rfl⟩ := List.map_eq_cons_iff.1 hB
    obtain rfl : pos = .iList c := of_decide_eq_true hpos
    obtain rfl : c₀ = c := Cell.iList.inj hc₀
    have hring := h.ring
    rw [hsplit] at hring
    obtain ⟨L', hdel, hring', hframe⟩ := hring.del
    have hnodup := h.nodup
    rw [hl] at hnodup
    have hc₀ : c₀ ∉ A' ++ B'' := (List.nodup_cons.1 (List.perm_middle.nodup_iff.1 hnodup)).1
    have hmem : ∀ c', c' ∈ l ↔ c' = c₀ ∨ c' ∈ A' ++ B'' := by
      intro c'
      rw [hl, List.perm_middle.mem_iff, List.mem_cons]
    dsimp only
    rw [hdel]
    refine ⟨_, A' ++ B'', rfl, ⟨?_, fun c' => ?_, fun c' hc' => h.live c' ((hmem c').2 (.inr hc'))⟩,
      ⟨rfl, rfl, rfl, rfl, fun x hx => hframe x ?_, fun _ => Iff.rfl⟩, rfl⟩
    · rw [List.map_append]
      exact hring'
    · dsimp only
      by_cases hcc : c' = c₀
      · subst hcc
        rw [update_self]
        exact iff_of_false hc₀ nofun
      · rw [update_of_ne hcc, ← h.registered c', hmem]
        exact (or_iff_right hcc).symm
    · intro hx'
      cases x <;> simp_all [Cell.Registry]

end Listed

end Melis.MultiConsole
