import Melis.MultiConsole.Calls

/-!
# The console registry

What the invariant says of the list, of the nodes and of what the lookups and
the reads and writes use, and that it holds all along a run of legal and safe
calls.
-/

namespace Melis.MultiConsole

open Lib Function

variable {s s' : State} {T : Nat → List Nat} {l : List Nat} {c n t : Nat}

/-- The bytes go to a listed console or to the default one, which is the serial port. -/
def Routed (s : State) : State.Via → Prop
  | .uart => True
  | .device c _ => s.registered c = true

structure Good (s : State) : Prop where
  /-- The list is well formed, and holds each console at most once and none that is freed: it holds
  those registered and not removed. -/
  list : ∃ l : List Nat, l.Nodup ∧ Ring s.links .gCliConsolelist (l.map .iList) ∧
    (∀ c, c ∈ l ↔ s.registered c = true) ∧ ∀ c ∈ l, s.Live c
  /-- A node has been freed once, or it has not and is on the list of a console. -/
  nodes : ∀ n < s.wraperNum, s.frees n = 1 ∨ s.frees n = 0 ∧ ∃ c l, s.Live c ∧
    Ring s.links (.taskList c) l ∧ .taskListNode n ∈ l
  lookup : ∀ name, ∃ found, s.lookupCliConsole name = some found ∧
    ∀ c ∈ found, s.registered c = true
  check : ∀ c, s.cliConsoleCheckIsInList (some c) = some (s.registered c)
  alive : ∃ l : List Nat, l.Nodup ∧ (∀ c, c ∈ l ↔ s.registered c = true) ∧
    s.getAliveConsoleNum = some ((l.filterMap s.consoles).countP (·.alive))
  read : ∀ console cur, ∃ via, s.cliConsoleRead console cur = some via ∧ Routed s via
  write : ∀ irq console cur, ∃ via, s.cliConsoleWrite irq console cur = some via ∧ Routed s via

/-! ## What the functions that read the list find -/

namespace Listed

variable (h : Listed l s) (hf : Flags s)

include h

theorem consoleAt_eq (hc : c ∈ l) : ∃ console, s.consoleAt (.iList c) = some console :=
  Option.isSome_iff_exists.1 (h.live c hc)

theorem mapM_consoleAt : (l.map Cell.iList).mapM s.consoleAt = some (l.filterMap s.consoles) := by
  have hall := h.live
  clear h
  induction l with
  | nil => rfl
  | cons c l ih =>
    obtain ⟨hc, hall⟩ := List.forall_mem_cons.1 hall
    obtain ⟨console, hc⟩ := Option.isSome_iff_exists.1 hc
    have hat : s.consoleAt (.iList c) = some console := hc
    rw [List.map_cons, List.mapM_cons, hat, ih hall, List.filterMap_cons, hc]
    rfl

include hf

theorem consoleCells_eq : s.consoleCells = some (l.map .iList) := h.ring.cells_eq (h.length_lt hf)

theorem check_eq (c : Nat) : s.cliConsoleCheckIsInList (some c) = some (s.registered c) := by
  unfold State.cliConsoleCheckIsInList
  dsimp only
  rw [h.consoleCells_eq hf, Option.map_some]
  refine congrArg some ?_
  rw [Bool.eq_iff_iff, decide_eq_true_iff, ← h.registered c]
  simp

theorem lookup_registered (name : List UInt8) :
    ∃ found, s.lookupCliConsole name = some found ∧ ∀ c ∈ found, s.registered c = true := by
  have hsearch := h.ring.search_eq
    (p := fun pos => (s.consoleAt pos).map fun tmp => decide (tmp.name = name))
    (q := fun pos => ((s.consoleAt pos).map fun tmp => decide (tmp.name = name)).getD false)
    (fun x hx => by
      obtain ⟨c, hc, rfl⟩ := List.mem_map.1 hx
      obtain ⟨console, hat⟩ := h.consoleAt_eq hc
      rw [hat]
      rfl) (h.length_lt hf)
  unfold State.lookupCliConsole State.searchConsoles
  rw [hsearch]
  refine ⟨_, rfl, fun c hc => ?_⟩
  obtain ⟨pos, hpos, hpc⟩ := Option.bind_eq_some_iff.1 (Option.mem_def.1 hc)
  obtain ⟨c', hc', rfl⟩ := List.mem_map.1 (List.mem_of_find?_eq_some hpos)
  obtain rfl : c' = c := Option.some.inj hpc
  exact (h.registered c').1 hc'

end Listed

theorem getDefaultConsole_eq (hf : Flags s) :
    s.getDefaultConsole = some none ∨ s.getDefaultConsole = some (some cliUartConsole) := by
  obtain ⟨console, hc⟩ := Option.isSome_iff_exists.1 hf.uart
  unfold State.getDefaultConsole
  rw [hc, Option.map_some]
  split
  · exact .inl rfl
  · exact .inr rfl

/-- The current console is the default one, or it is listed. -/
theorem getCurrentConsole_eq (hf : Flags s) (cur : Nat) :
    ∃ found, s.getCurrentConsole cur = some found ∧
      ∀ c ∈ found, c = cliUartConsole ∨ s.registered c = true := by
  have hdefault : ∃ found, s.getDefaultConsole = some found ∧
      ∀ c ∈ found, c = cliUartConsole ∨ s.registered c = true := by
    rcases getDefaultConsole_eq hf with hd | hd
    · exact ⟨none, hd, nofun⟩
    · exact ⟨_, hd, fun c hc => .inl (Option.some.inj hc).symm⟩
  unfold State.getCurrentConsole
  cases hg : s.globalConsole with
  | some g =>
    refine ⟨some g, rfl, fun c hc => ?_⟩
    obtain rfl : g = c := Option.some.inj hc
    exact .inr (hf.globalConsole g hg)
  | none =>
    dsimp only
    cases hu : s.userData cur with
    | none => exact hdefault
    | some c =>
      obtain ⟨console, hc⟩ := Option.isSome_iff_exists.1 (hf.attached cur c hu).1
      dsimp only
      rw [hc, Option.bind_some]
      split
      · rename_i hup
        refine ⟨some c, rfl, fun c' hc' => ?_⟩
        obtain rfl : c = c' := Option.some.inj hc'
        rw [Bool.and_eq_true, Bool.not_eq_true'] at hup
        exact .inr ((hf.up c console hc hup.2).2 hup.1)
      · exact hdefault

theorem useConsole_routed (hlist : Listed l s) (hook : DeviceConsole → Bool) {console : Option Nat}
    (h : ∀ c ∈ console, c = cliUartConsole ∨ s.registered c = true) :
    ∃ via, s.useConsole hook console = some via ∧ Routed s via := by
  cases console with
  | none => exact ⟨.uart, rfl, trivial⟩
  | some c =>
    rw [State.useConsole]
    split
    · exact ⟨.uart, rfl, trivial⟩
    · rename_i hne
      have hreg := (h c rfl).resolve_left hne
      obtain ⟨console, hc⟩ := Option.isSome_iff_exists.1 (hlist.live c ((hlist.registered c).2 hreg))
      rw [hc, Option.map_some]
      refine ⟨_, rfl, ?_⟩
      split
      · trivial
      · exact hreg

theorem route_routed (hlist : Listed l s) (hf : Flags s) (hook : DeviceConsole → Bool)
    (console : Option Nat) (cur : Nat) :
    ∃ via, s.route hook console cur = some via ∧ Routed s via := by
  obtain ⟨found, hcur, hfound⟩ := getCurrentConsole_eq hf cur
  have hlater : ∀ console : Option Nat,
      (∀ c ∈ console, c = cliUartConsole ∨ s.registered c = true) →
      ∃ via, ((if console = none then some found else some console).bind fun console =>
        s.useConsole hook console) = some via ∧ Routed s via := by
    intro console hall
    split
    · exact useConsole_routed hlist hook hfound
    · exact useConsole_routed hlist hook hall
  unfold State.route
  rw [hcur]
  cases console with
  | none => exact hlater found hfound
  | some c =>
    rw [hlist.check_eq hf, Option.bind_some]
    split
    · rename_i hreg
      refine hlater (some c) fun c' hc' => ?_
      obtain rfl : c = c' := Option.some.inj hc'
      exact .inr hreg
    · exact hlater found hfound

theorem Inv.good (h : Inv s) : Good s := by
  obtain ⟨l, T, hlist, hnodes, hf⟩ := h
  refine ⟨⟨l, hlist.nodup, hlist.ring, hlist.registered, hlist.live⟩, fun n hn => ?_,
    hlist.lookup_registered hf, hlist.check_eq hf, ⟨l, hlist.nodup, hlist.registered, ?_⟩,
    route_routed hlist hf _, fun irq console cur => ?_⟩
  · rcases hnodes.kept n hn with ⟨c, hc⟩ | ⟨hfree, -⟩
    · obtain ⟨hl, hr⟩ := hnodes.live c n hc
      exact .inr ⟨(hnodes.node c n hc).2.1, c, _, hl, hnodes.ring c hl hr, List.mem_map_of_mem hc⟩
    · exact .inl hfree
  · unfold State.getAliveConsoleNum
    rw [hlist.consoleCells_eq hf, Option.bind_some, hlist.mapM_consoleAt, Option.map_some]
  · unfold State.cliConsoleWrite
    split
    · exact ⟨.uart, rfl, trivial⟩
    · exact route_routed hlist hf _ console cur

/-! ## Runs -/

theorem start_consoles (h : c ≠ cliUartConsole) : start.consoles c = none := by
  change update (fun _ => none) cliUartConsole _ c = none
  exact update_of_ne h ..

theorem inv_start : Inv start := by
  have hnot : ∀ c, ¬ start.Ready c := fun c hr => hr rfl
  refine ⟨[], fun _ => [], ⟨⟨List.nodup_singleton _, rfl, rfl⟩, fun c => ?_, nofun⟩, ?_, ?_⟩
  · exact iff_of_false nofun nofun
  · exact ⟨fun c _ hr => absurd hr (hnot c), nofun, nofun, fun _ => List.nodup_nil, nofun,
      fun _ _ => rfl⟩
  · refine ⟨fun c hc => ?_, fun c _ => hnot c, fun c console hc hi => ?_, nofun, fun _ _ => rfl, nofun,
      rfl⟩
    · by_contra hlt
      have hne : c ≠ cliUartConsole := by
        rintro rfl
        exact hlt Nat.one_pos
      unfold State.Live at hc
      rw [start_consoles hne] at hc
      cases hc
    · by_cases hcc : c = cliUartConsole
      · subst hcc
        cases hc
        cases hi
      · cases (start_consoles hcc).symm.trans hc

/-- Along a run of legal and safe calls each call comes back and the registry stays good. -/
theorem registry_good {is : List Call}
    (h : calls.Meets (fun s i => Legal s i ∧ Safe s i) start is) :
    calls.Upholds Good (fun _ _ _ => True) start is := by
  refine Machine.upholds_of_inv (fun s hs => Inv.good hs) (fun s i hs hi => ?_) inv_start h
  obtain ⟨s', hnext, hinv⟩ := inv_step hs hi.1 hi.2
  exact ⟨s', hnext, trivial, hinv⟩

/-- The life of a console with a shell, and a second one with a failing init hook. -/
def telnetSession : List Call :=
  [.create (some uartConsole) [116] true, .taskCreate 1 1 true 0 true, .setConsole 1 1 true,
    .threadInit 1 true, .create (some uartConsole) [97] true, .init 2 0, .deinit 1 1,
    .threadDelete 2, .threadDelete 1, .destory 1]

theorem registry_good_telnet : calls.Upholds Good (fun _ _ _ => True) start telnetSession :=
  registry_good (by decide)

/-- An init hook fails and the console is initialised again. -/
def retriedInit : List Call := [.create (some uartConsole) [97] true, .init 1 0, .init 1 1]

/-- A console is destroyed after its deinit, while the task of its shell still has it. -/
def staleTask : List Call :=
  [.create (some uartConsole) [97] true, .taskCreate 1 1 true 0 true, .setConsole 1 1 true,
    .deinit 1 1, .destory 1]

theorem registry_broken :
    (calls.Meets Legal start retriedInit ∧
      ¬ calls.Upholds Good (fun _ _ _ => True) start retriedInit) ∧
    calls.Meets Legal start staleTask ∧
      ¬ calls.Upholds Good (fun _ _ _ => True) start staleTask := by
  refine ⟨⟨by decide, fun hup => ?_⟩, by decide, fun hup => ?_⟩
  · -- the node of the console has become its own successor
    obtain ⟨s', hrun, hgood⟩ := hup.run
    have hhead : (calls.run start retriedInit).map (fun s => s.links.next .gCliConsolelist) =
        some (some (.iList 1)) := by decide
    have hself : (calls.run start retriedInit).map (fun s => s.links.next (.iList 1)) =
        some (some (.iList 1)) := by decide
    rw [hrun] at hhead hself
    obtain ⟨l, -, hring, -⟩ := hgood.list
    exact hring.ne_self (Option.some.inj hhead) nofun (Option.some.inj hself)
  · -- a read by the task asks the freed console for its flags
    obtain ⟨s', hrun, hgood⟩ := hup.run
    have hread : (calls.run start staleTask).map (fun s => (s.cliConsoleRead none 1).isSome) =
        some false := by decide
    rw [hrun] at hread
    obtain ⟨via, hvia, -⟩ := hgood.read none 1
    rw [Option.map_some, hvia] at hread
    cases hread

end Melis.MultiConsole
