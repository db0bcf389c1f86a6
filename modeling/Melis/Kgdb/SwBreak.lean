import Melis.Kgdb.Tables

/-!
# Software breakpoints in memory

`Patched m m' t` says that `m'` is the memory `m` with the active entries of `t`
written over it, each with the bytes it replaces saved. The loop that activates
makes that of a memory (`activateSw_spec`), and the loop that deactivates takes it
back (`deactivateSw_spec`).
-/

namespace Melis.Kgdb

open Lib Function

variable {f : Faults} {m m' : Mem} {t t' : List (Bkpt Unit)} {e : Bkpt Unit} {i n : Nat}
  {addr : Addr} {insLen : BitVec 32} {fault save install : Option Nat}

/-! ## Probe writes -/

section

variable {α : Type} [DecidableEq α] {mem : α → UInt8} {dst : List α} {src : List UInt8}

theorem probeKernelWrite_ok (h : faultsIn fault dst.length = false) :
    probeKernelWrite fault mem dst src = (Memory.store mem dst src, none) := by
  cases fault with
  | none => rfl
  | some k =>
    have hk : ¬ k < dst.length := by simpa [faultsIn] using h
    simp [probeKernelWrite, hk]

theorem probeKernelWrite_fault (mem : α → UInt8) (src : List UInt8)
    (h : faultsIn fault dst.length = true) :
    (probeKernelWrite fault mem dst src).2 = some .fault := by
  cases fault with
  | none => cases h
  | some k =>
    have hk : k < dst.length := by simpa [faultsIn] using h
    simp [probeKernelWrite, hk]

/-- A write that faults at its first byte leaves the memory as it is. -/
theorem probeKernelWrite_zero (h : dst ≠ []) :
    probeKernelWrite (some 0) mem dst src = (mem, some .fault) := by
  have hpos : 0 < dst.length := List.length_pos_iff.2 h
  simp [probeKernelWrite, hpos, Memory.store]

end

/-! ## One breakpoint -/

@[simp] theorem length_span : (span addr n).length = n := by simp [span]

theorem instrSize_cases (addr : Addr) : instrSize addr = 2 ∨ instrSize addr = 4 := by
  unfold instrSize
  split
  · exact .inl rfl
  · exact .inr rfl

theorem span_nodup (h : n ≤ 4) : (span addr n).Nodup := by
  refine List.Nodup.map_on (fun a ha b hb heq => ?_) List.nodup_range
  rw [List.mem_range] at ha hb
  have hval : BitVec.ofNat 32 a = BitVec.ofNat 32 b := by simpa using heq
  have := congrArg BitVec.toNat hval
  simp only [BitVec.toNat_ofNat] at this
  omega

/-- The addresses that an entry replaces. -/
def Bkpt.cells {ρ : Type} (e : Bkpt ρ) : List Addr := span (fixedAddr e.bptAddr) (instrSize e.bptAddr)

theorem Bkpt.cells_nodup : e.cells.Nodup :=
  span_nodup (by rcases instrSize_cases e.bptAddr with h | h <;> omega)

theorem Bkpt.length_cells : e.cells.length = instrSize e.bptAddr := length_span

/-- The breakpoint instruction, as long as the one it replaces. -/
def brkInstr (addr : Addr) : List UInt8 := gdbBptInstr.take (instrSize addr)

theorem length_brkInstr : (brkInstr addr).length = instrSize addr := by
  unfold brkInstr
  rcases instrSize_cases addr with h | h <;> rw [h] <;> rfl

/-- One of the two writes of an install faults. -/
def refuses (save install : Option Nat) (n : Nat) : Bool := faultsIn save n || faultsIn install n

/-- The install leaves no bytes of the breakpoint behind if it faults. -/
def cleanInstall (save install : Option Nat) (n : Nat) : Bool :=
  faultsIn save n || install == some 0 || !faultsIn install n

theorem bytesWritten_le : bytesWritten fault n ≤ n := by
  cases fault with
  | none => exact Nat.le_refl n
  | some k => exact Nat.min_le_right k n

/-- A breakpoint of the right length and an install that is clean. -/
theorem armArchSetSwBreakpoint_cases (m : Mem) (saved : Nat → UInt8)
    (hlen : installSize addr insLen = instrSize addr)
    (hclean : cleanInstall save install (instrSize addr) = true) :
    (refuses save install (instrSize addr) = true ∧ ∃ saved',
      armArchSetSwBreakpoint save install m addr insLen saved = (m, saved', some .fault)) ∨
    refuses save install (instrSize addr) = false ∧ ∃ saved',
      armArchSetSwBreakpoint save install m addr insLen saved =
        (Memory.store m (span (fixedAddr addr) (instrSize addr)) (brkInstr addr), saved', none) ∧
      Memory.load saved' (List.range (instrSize addr)) =
        Memory.load m (span (fixedAddr addr) (instrSize addr)) := by
  have hfour : instrSize addr ≤ breakInstrSize := by
    rcases instrSize_cases addr with h | h <;> rw [h] <;> decide
  have hnot : ¬ breakInstrSize < bytesWritten save (instrSize addr) :=
    Nat.not_lt.2 (bytesWritten_le.trans hfour)
  have hne : span (fixedAddr addr) (instrSize addr) ≠ [] := fun h => by
    have := congrArg List.length h
    rw [length_span, List.length_nil] at this
    rcases instrSize_cases addr with h' | h' <;> omega
  have hbrk : ∀ mem : Mem, Memory.store mem (span (fixedAddr addr) (instrSize addr)) gdbBptInstr =
      Memory.store mem (span (fixedAddr addr) (instrSize addr)) (brkInstr addr) := fun mem => by
    rw [← Memory.store_take, length_span]
    rfl
  unfold armArchSetSwBreakpoint
  simp only [hlen, if_neg hnot]
  cases hsave : faultsIn save (instrSize addr) with
  | true =>
    refine .inl ⟨by simp [refuses, hsave], ?_⟩
    have hsave' : faultsIn save (List.range (instrSize addr)).length = true := by
      rwa [List.length_range]
    have herr := probeKernelWrite_fault saved
      (Memory.load m (span (fixedAddr addr) (instrSize addr))) hsave'
    match hp : probeKernelWrite save saved (List.range (instrSize addr))
      (Memory.load m (span (fixedAddr addr) (instrSize addr))) with
    | (saved', some err) =>
      rw [hp] at herr
      obtain rfl := Option.some.inj herr
      exact ⟨saved', rfl⟩
    | (saved', none) =>
      rw [hp] at herr
      cases herr
  | false =>
    rw [probeKernelWrite_ok (by rw [List.length_range]; exact hsave)]
    dsimp only
    have hinst : install = some 0 ∨ faultsIn install (instrSize addr) = false := by
      simpa [cleanInstall, hsave] using hclean
    rcases hinst with rfl | hinst
    · refine .inl ⟨?_, _, by rw [probeKernelWrite_zero hne]⟩
      rcases instrSize_cases addr with h | h <;> simp [refuses, faultsIn, h]
    · refine .inr ⟨by simp [refuses, hsave, hinst], _, by rw [probeKernelWrite_ok (by rwa [length_span]), hbrk], ?_⟩
      exact Memory.load_store List.nodup_range (by simp [Memory.load])

theorem armArchRemoveSwBreakpoint_ok {bundle : Nat → UInt8}
    (h : faultsIn fault (instrSize addr) = false) :
    armArchRemoveSwBreakpoint fault m addr bundle =
      (Memory.store m (span (fixedAddr addr) (instrSize addr))
        (Memory.load bundle (List.range (instrSize addr))), none) :=
  probeKernelWrite_ok (by rwa [length_span])

/-! ## The active entries -/

structure Patched (m m' : Mem) (t : List (Bkpt Unit)) : Prop where
  written : ∀ e ∈ t, e.state = .active → Memory.load m' e.cells = brkInstr e.bptAddr
  saved : ∀ e ∈ t, e.state = .active →
    Memory.load e.savedInstr (List.range (instrSize e.bptAddr)) = Memory.load m e.cells
  other : ∀ x, (∀ e ∈ t, e.state = .active → x ∉ e.cells) → m' x = m x

/-- The two entries replace different bytes. -/
def Bkpt.Clear (d e : Bkpt Unit) : Prop := ∀ x ∈ d.cells, x ∉ e.cells

instance {d : Bkpt Unit} : Decidable (d.Clear e) := List.decidableBAll (fun x => x ∉ e.cells) d.cells

def Apart (t : List (Bkpt Unit)) : Prop :=
  t.Pairwise fun d e => d.state = .active → e.state = .active → d.Clear e

def refusesSw (f : Faults) (i : Nat) (e : Bkpt Unit) : Bool :=
  refuses (f.save i) (f.install i) (instrSize e.bptAddr)

/-- The entries that are set have the length of the instruction that is put back, replace
different bytes, and an install that faults is clean and has none after it. -/
structure Installable (f : Faults) (i : Nat) (t : List (Bkpt Unit)) : Prop where
  clean : ∀ p ∈ t.zipIdx i, p.1.state = .set →
    installSize p.1.bptAddr p.1.bptLen = instrSize p.1.bptAddr ∧
      cleanInstall (f.save p.2) (f.install p.2) (instrSize p.1.bptAddr) = true
  apart : (t.zipIdx i).Pairwise fun p q => p.1.state = .set → q.1.state = .set →
    p.1.Clear q.1 ∧ refusesSw f p.2 p.1 = false

instance : Decidable (Installable f i t) :=
  decidable_of_iff
    ((∀ p ∈ t.zipIdx i, p.1.state = .set →
        installSize p.1.bptAddr p.1.bptLen = instrSize p.1.bptAddr ∧
          cleanInstall (f.save p.2) (f.install p.2) (instrSize p.1.bptAddr) = true) ∧
      (t.zipIdx i).Pairwise fun p q => p.1.state = .set → q.1.state = .set →
        p.1.Clear q.1 ∧ refusesSw f p.2 p.1 = false)
    ⟨fun h => ⟨h.1, h.2⟩, fun h => ⟨h.clean, h.apart⟩⟩

theorem Installable.tail (h : Installable f i (e :: t)) : Installable f (i + 1) t := by
  obtain ⟨hclean, hapart⟩ := h
  rw [List.zipIdx_cons] at hclean hapart
  exact ⟨fun p hp => hclean p (List.mem_cons_of_mem _ hp), (List.pairwise_cons.1 hapart).2⟩

theorem exists_mem_zipIdx {α : Type} {l : List α} {a : α} (h : a ∈ l) (i : Nat) :
    ∃ k, (a, k) ∈ l.zipIdx i := by
  obtain ⟨j, hj⟩ := List.mem_iff_getElem?.1 h
  exact ⟨i + j, List.mem_zipIdx_iff_le_and_getElem?_sub.2 ⟨Nat.le_add_right i j, by simpa using hj⟩⟩

/-- What the first entry of an installable table has with the others. -/
theorem Installable.head (h : Installable f i (e :: t)) (he : e.state = .set) :
    (installSize e.bptAddr e.bptLen = instrSize e.bptAddr ∧
      cleanInstall (f.save i) (f.install i) (instrSize e.bptAddr) = true) ∧
    ∀ d ∈ t, d.state = .set → e.Clear d ∧ refusesSw f i e = false := by
  obtain ⟨hclean, hapart⟩ := h
  rw [List.zipIdx_cons] at hclean hapart
  refine ⟨hclean (e, i) List.mem_cons_self he, fun d hd hset => ?_⟩
  obtain ⟨k, hk⟩ := exists_mem_zipIdx hd (i + 1)
  exact (List.pairwise_cons.1 hapart).1 (d, k) hk he hset

/-- What the loop over the entries that are set leaves. -/
structure Activated (f : Faults) (m : Mem) (i : Nat) (t : List (Bkpt Unit)) (m' : Mem)
    (t' : List (Bkpt Unit)) (err : Option Error) : Prop where
  patched : Patched m m' t'
  apart : Apart t'
  entries_eq : entries t' = entries t
  error : err ≠ some .overrun
  refused : ∀ p ∈ t'.zipIdx i, p.1.state = .set → refusesSw f p.2 p.1 = true
  wasSet : ∀ e' ∈ t', e'.state = .active → ∃ e ∈ t, e.state = .set ∧ e.bptAddr = e'.bptAddr

theorem patched_idle (h : Idle t) : Patched m m t :=
  ⟨fun e he hact => absurd hact (h e he), fun e he hact => absurd hact (h e he), fun _ _ => rfl⟩

theorem apart_idle (h : Idle t) : Apart t :=
  List.Pairwise.imp_of_mem (fun hd _ _ hact => absurd hact (h _ hd)) (List.pairwise_of_forall
    (R := fun _ _ => True) fun _ _ => trivial)

theorem cells_eq_of_bptAddr_eq {d e : Bkpt Unit} (h : d.bptAddr = e.bptAddr) : d.cells = e.cells := by
  rw [Bkpt.cells, Bkpt.cells, h]

theorem Patched.cons {a : Bkpt Unit} {m₁ : Mem} (ha : a.state = .active)
    (hm₁ : m₁ = Memory.store m a.cells (brkInstr a.bptAddr))
    (hsaved : Memory.load a.savedInstr (List.range (instrSize a.bptAddr)) = Memory.load m a.cells)
    (hout : ∀ d ∈ t, d.state = .active → a.Clear d) (h : Patched m₁ m' t) :
    Patched m m' (a :: t) := by
  have hlen : a.cells.length = (brkInstr a.bptAddr).length := by
    rw [Bkpt.length_cells, length_brkInstr]
  constructor
  · intro d hd hact
    rcases List.mem_cons.1 hd with rfl | hd
    · have hkeep : Memory.load m' d.cells = Memory.load m₁ d.cells :=
        Memory.load_congr fun x hx => h.other x fun b hb hbact => hout b hb hbact x hx
      rw [hkeep, hm₁, Memory.load_store d.cells_nodup hlen]
    · exact h.written d hd hact
  · intro d hd hact
    rcases List.mem_cons.1 hd with rfl | hd
    · exact hsaved
    · rw [h.saved d hd hact, hm₁]
      exact Memory.load_store_of_disjoint fun x hx hx' => hout d hd hact x hx hx'
  · intro x hx
    have hhead : x ∉ a.cells := hx a List.mem_cons_self ha
    rw [h.other x fun d hd => hx d (List.mem_cons_of_mem _ hd), hm₁, Memory.store_of_notMem hhead]

theorem activateSw_spec (hidle : Idle t) (h : Installable f i t) :
    Activated f m i t (sweep Stub.isSet (Stub.activateSw f) m i t).1
      (sweep Stub.isSet (Stub.activateSw f) m i t).2.1
      (sweep Stub.isSet (Stub.activateSw f) m i t).2.2 := by
  refine sweep_rec
    (R := fun m i t m' t' err => Idle t → Installable f i t → Activated f m i t m' t' err)
    ?nil ?skip ?done ?stop m i t hidle h
  case nil =>
    intro m i hidle _
    exact ⟨patched_idle hidle, .nil, rfl, by rintro ⟨⟩, by simp, by simp⟩
  case skip =>
    intro m i a as m' as' err hset ih hidle h
    have hstate : a.state ≠ .set := isSet_eq_false_iff.1 hset
    have hact : a.state ≠ .active := hidle a List.mem_cons_self
    have hdead : a.isLive = false := by simp [Bkpt.isLive, hstate, hact]
    obtain ⟨hpatched, hapart, hentries, herr, hrefused, hwas⟩ :=
      ih (fun e he => hidle e (List.mem_cons_of_mem _ he)) h.tail
    refine ⟨⟨?_, ?_, ?_⟩, ?_, ?_, herr, ?_, ?_⟩
    · exact List.forall_mem_cons.2 ⟨fun ha => absurd ha hact, hpatched.written⟩
    · exact List.forall_mem_cons.2 ⟨fun ha => absurd ha hact, hpatched.saved⟩
    · exact fun x hx => hpatched.other x fun e he => hx e (List.mem_cons_of_mem _ he)
    · exact List.pairwise_cons.2 ⟨fun _ _ ha => absurd ha hact, hapart⟩
    · rw [entries_cons_dead hdead, entries_cons_dead hdead, hentries]
    · rw [List.zipIdx_cons]
      exact List.forall_mem_cons.2 ⟨fun ha => absurd ha hstate, hrefused⟩
    · refine List.forall_mem_cons.2 ⟨fun ha => absurd ha hact, fun e' he' hact' => ?_⟩
      obtain ⟨e, he, hse⟩ := hwas e' he' hact'
      exact ⟨e, List.mem_cons_of_mem _ he, hse⟩
  case done =>
    intro m i a as m₁ a' m' as' err hset hf ih hidle h
    have hstate : a.state = .set := isSet_iff.1 hset
    obtain ⟨⟨hlen, hclean⟩, hothers⟩ := h.head hstate
    unfold Stub.activateSw at hf
    rcases armArchSetSwBreakpoint_cases m a.savedInstr hlen hclean with
      ⟨-, saved', harm⟩ | ⟨-, saved', harm, hsaved⟩
    · rw [harm] at hf
      cases hf
    · rw [harm] at hf
      simp only [Prod.mk.injEq, and_true] at hf
      obtain ⟨hm₁, rfl⟩ := hf
      obtain ⟨hpatched, hapart, hentries, herr, hrefused, hwas⟩ :=
        ih (fun e he => hidle e (List.mem_cons_of_mem _ he)) h.tail
      have hout : ∀ d ∈ as', d.state = .active → a.Clear d := by
        intro d hd hact x hx
        obtain ⟨e, he, hse, haddr⟩ := hwas d hd hact
        rw [← cells_eq_of_bptAddr_eq haddr]
        exact (hothers e he hse).1 x hx
      refine ⟨hpatched.cons rfl hm₁.symm hsaved hout, ?_, ?_, herr, ?_, ?_⟩
      · exact List.pairwise_cons.2 ⟨fun d hd _ hact => hout d hd hact, hapart⟩
      · rw [entries_cons_live (isLive_of_active rfl), entries_cons_live (isLive_of_set hstate),
          hentries]
      · rw [List.zipIdx_cons]
        exact List.forall_mem_cons.2 ⟨by rintro ⟨⟩, hrefused⟩
      · refine List.forall_mem_cons.2 ⟨fun _ => ⟨a, List.mem_cons_self, hstate, rfl⟩, ?_⟩
        intro e' he' hact'
        obtain ⟨e, he, hse⟩ := hwas e' he' hact'
        exact ⟨e, List.mem_cons_of_mem _ he, hse⟩
  case stop =>
    intro m i a as m' a' err hset hf hidle h
    have hstate : a.state = .set := isSet_iff.1 hset
    obtain ⟨⟨hlen, hclean⟩, hothers⟩ := h.head hstate
    unfold Stub.activateSw at hf
    rcases armArchSetSwBreakpoint_cases m a.savedInstr hlen hclean with
      ⟨hrefuses, saved', harm⟩ | ⟨-, saved', harm, -⟩
    · rw [harm] at hf
      simp only [Prod.mk.injEq, Option.some.injEq] at hf
      obtain ⟨rfl, rfl, rfl⟩ := hf
      -- the entries after it are not set, so none is left behind
      have hnone : ∀ d ∈ as, d.state ≠ .set := fun d hd hset => by
        have := (hothers d hd hset).2
        rw [refusesSw, hrefuses] at this
        cases this
      have hidle' : Idle ({ a with savedInstr := saved' } :: as) :=
        List.forall_mem_cons.2 ⟨hidle a List.mem_cons_self, fun e he =>
          hidle e (List.mem_cons_of_mem _ he)⟩
      refine ⟨patched_idle hidle', apart_idle hidle', ?_, by rintro ⟨⟩, ?_, ?_⟩
      · rw [entries_cons_live (isLive_of_set hstate),
          entries_cons_live (e := { a with savedInstr := saved' }) (isLive_of_set hstate)]
      · rw [List.zipIdx_cons]
        refine List.forall_mem_cons.2 ⟨fun _ => hrefuses, fun p hp hset => ?_⟩
        exact absurd hset (hnone p.1 (List.fst_mem_of_mem_zipIdx hp))
      · exact fun e' he' hact => absurd hact (hidle' e' he')
    · rw [harm] at hf
      cases hf

/-! ## Taking them back -/

/-- No byte that is put back faults. -/
def Restorable (f : Faults) (i : Nat) (t : List (Bkpt Unit)) : Prop :=
  ∀ p ∈ t.zipIdx i, p.1.state = .active → faultsIn (f.restore p.2) (instrSize p.1.bptAddr) = false

instance : Decidable (Restorable f i t) :=
  inferInstanceAs (Decidable (∀ p ∈ t.zipIdx i, p.1.state = .active →
    faultsIn (f.restore p.2) (instrSize p.1.bptAddr) = false))

/-- What an entry is after a stop. -/
def Bkpt.deactivated {ρ : Type} (e : Bkpt ρ) : Bkpt ρ :=
  bif Stub.isActive e then { e with state := .set } else e

theorem Bkpt.deactivated_of_ne {ρ : Type} {e : Bkpt ρ} (h : e.state ≠ .active) :
    e.deactivated = e := by rw [Bkpt.deactivated, isActive_eq_false h, cond_false]

theorem Bkpt.deactivated_of_active {ρ : Type} {e : Bkpt ρ} (h : e.state = .active) :
    e.deactivated = { e with state := .set } := by
  rw [Bkpt.deactivated, isActive_iff.2 h, cond_true]

theorem entries_map_deactivated {ρ : Type} {t : List (Bkpt ρ)} :
    entries (t.map Bkpt.deactivated) = entries t := by
  refine entries_map fun e _ => ?_
  by_cases h : e.state = .active
  · rw [Bkpt.deactivated_of_active h]
    exact ⟨(isLive_of_set rfl).trans (isLive_of_active h).symm, rfl, rfl⟩
  · rw [Bkpt.deactivated_of_ne h]
    exact ⟨rfl, rfl, rfl⟩

theorem idle_map_deactivated {ρ : Type} {t : List (Bkpt ρ)} : Idle (t.map Bkpt.deactivated) := by
  intro e he
  obtain ⟨d, -, rfl⟩ := List.mem_map.1 he
  by_cases h : d.state = .active
  · rw [Bkpt.deactivated_of_active h]
    exact nofun
  · rwa [Bkpt.deactivated_of_ne h]

theorem Patched.restore (ha : e.state = .active) (h : Patched m m' (e :: t)) (hapart : Apart (e :: t)) :
    Patched m (Memory.store m' e.cells (Memory.load e.savedInstr (List.range (instrSize e.bptAddr)))) t := by
  have hout := (List.pairwise_cons.1 hapart).1
  constructor
  · intro d hd hact
    rw [Memory.load_store_of_disjoint fun x hx hx' => hout d hd ha hact x hx hx']
    exact h.written d (List.mem_cons_of_mem _ hd) hact
  · exact fun d hd hact => h.saved d (List.mem_cons_of_mem _ hd) hact
  · intro x hx
    rw [h.saved e List.mem_cons_self ha]
    by_cases hmem : x ∈ e.cells
    · exact Memory.store_load_of_mem hmem
    · rw [Memory.store_of_notMem hmem]
      exact h.other x (List.forall_mem_cons.2 ⟨fun _ => hmem, hx⟩)

theorem deactivateSw_spec (hpatched : Patched m m' t) (hapart : Apart t) (h : Restorable f i t) :
    sweep Stub.isActive (Stub.deactivateSw f) m' i t = (m, t.map Bkpt.deactivated, none) := by
  induction t generalizing m' i with
  | nil =>
    have hm : m' = m := funext fun x => hpatched.other x nofun
    rw [hm]
    rfl
  | cons e t ih =>
    rw [Restorable, List.zipIdx_cons] at h
    obtain ⟨hhead, htail⟩ := List.forall_mem_cons.1 h
    by_cases ha : e.state = .active
    · have hf : Stub.deactivateSw f m' i e = (Memory.store m' e.cells
          (Memory.load e.savedInstr (List.range (instrSize e.bptAddr))), { e with state := .set },
            none) := by
        rw [Stub.deactivateSw, armArchRemoveSwBreakpoint_ok (hhead ha)]
        rfl
      rw [sweep_done (isActive_iff.2 ha) hf,
        ih (hpatched.restore ha hapart) (List.pairwise_cons.1 hapart).2 htail, List.map_cons,
        Bkpt.deactivated_of_active ha]
    · have hrest : Patched m m' t :=
        ⟨fun d hd => hpatched.written d (List.mem_cons_of_mem _ hd),
          fun d hd => hpatched.saved d (List.mem_cons_of_mem _ hd),
          fun x hx => hpatched.other x (List.forall_mem_cons.2 ⟨fun ha' => absurd ha' ha, hx⟩)⟩
      rw [sweep_skip (isActive_eq_false ha), ih hrest (List.pairwise_cons.1 hapart).2 htail,
        List.map_cons, Bkpt.deactivated_of_ne ha]

end Melis.Kgdb
