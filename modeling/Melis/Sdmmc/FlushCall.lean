import Mathlib.Data.List.Perm.Subperm
import Melis.Lib.Run
import Melis.Sdmmc.Routines

/-!
# A call of flush_cache_entry_list

One call over a list of entries, with the answer of the device to each vector
it writes. `writes` keeps the vectors and the blocks the device took of each,
so that the flags the call clears and the result it gives can be held against
what is on the device.
-/

namespace Melis.Sdmmc

open Lib

variable {α : Type}

/-- The vector the next step hands to `write_vector_block`. -/
def FlushList.vector (c : Cache α) : FlushList → List Ent
  | walk ents last iov (e :: _) false =>
    if writebackBlocksMax < ents.length ∨ 0 < (c.ent e).ref ∨ (c.ent e).dirty = false then []
    else if (c.key e).dev = 0 ∨ c.disordered last e = true ∨ c.runOk iov = false then []
    else
      match iov.getLast? with
      | none => []
      | some prev => if c.key e = (c.key prev).add 1 then [] else iov
  | walk _ _ iov _ _ => if c.runOk iov then iov else []
  | clear .. => []

/-- A call: `pc` is where it is, or how it ended. -/
structure FlushCall (α : Type) where
  cache : Cache α
  pc : Res FlushList Bool
  writes : List (List Ent × Nat)

/-- A vector written, and how much of it the device took. -/
def Io.log (io : Io) (iov : List Ent) : List (List Ent × Nat) :=
  if iov = [] then [] else [(iov, io.count iov.length)]

namespace FlushCall

/-- The call for `ents` in the state `c`. -/
def start (c : Cache α) (ents : List Ent) : FlushCall α := ⟨c, .wait (flushCacheEntryList ents), []⟩

def next (s : FlushCall α) (io : Io) : Option (FlushCall α) :=
  match s.pc with
  | .wait f =>
    some ⟨(f.step s.cache io).1, (f.step s.cache io).2, s.writes ++ io.log (f.vector s.cache)⟩
  | _ => none

abbrev machine (α : Type) : Machine (FlushCall α) Io := ⟨next⟩

/-- The entries handed to the device. -/
def vectors (s : FlushCall α) : List Ent := s.writes.flatMap fun w => w.1

/-- The entries the device took. -/
def sent (s : FlushCall α) : List Ent := s.writes.flatMap fun w => w.1.take w.2

/-- Every vector the call wrote was taken whole. -/
def AllTaken (s : FlushCall α) : Prop := ∀ w ∈ s.writes, w.2 = w.1.length

instance (s : FlushCall α) : Decidable s.AllTaken := inferInstanceAs (Decidable (∀ w ∈ _, _))

/-- The call has ended. -/
def Ended (s : FlushCall α) : Prop := ∀ f, s.pc ≠ .wait f

end FlushCall

/-- A dirty entry that nobody holds. -/
def Cache.Due (c : Cache α) (e : Ent) : Prop := (c.ent e).dirty = true ∧ (c.ent e).ref = 0

instance (c : Cache α) (e : Ent) : Decidable (c.Due e) := inferInstanceAs (Decidable (_ ∧ _))

/-- What the log of a call that began in `c` says is what happened: the blocks
taken went to the device, with the data the entries had and have. -/
structure FlushCall.Logged (c : Cache α) (s : FlushCall α) : Prop where
  data : ∀ e, (s.cache.ent e).data = (c.ent e).data
  key : ∀ e, s.cache.key e = c.key e
  disk : s.cache.disk = s.writes.foldl (fun d w =>
    (w.1.head?.map fun e =>
      Cache.diskWrite d (c.key e) ((w.1.take w.2).map fun x => (c.ent x).data)).getD d) c.disk

/-- A flag was cleared only for an entry that the device took, and success was
reported only if it took every dirty entry of `ents` that nobody held. -/
structure FlushCall.Sound (c : Cache α) (ents : List Ent) (s : FlushCall α) : Prop where
  cleared : ∀ e, (c.ent e).dirty = true → (s.cache.ent e).dirty = false → e ∈ s.sent
  success : s.pc = .ret true → ∀ e ∈ ents, c.Due e → e ∈ s.sent

/-! ## What a step does -/

theorem Io.count_le (io : Io) (n : Nat) : io.count n ≤ n := by
  cases io with
  | ok => exact le_rfl
  | stops m => exact min_le_right m n

namespace Cache

variable (c : Cache α) (io : Io) (iov : List Ent)

theorem writeVectorBlock_fst :
    (c.writeVectorBlock io iov).1 = { c with disk := (c.writeVectorBlock io iov).1.disk } := by
  cases iov <;> rfl

theorem writeVectorBlock_snd (hne : iov ≠ []) :
    (c.writeVectorBlock io iov).2 = (io.count iov.length == iov.length) := by
  cases iov with
  | nil => exact absurd rfl hne
  | cons e es => rfl

@[simp] theorem runOk_single (e : Ent) : c.runOk [e] = true := by
  simp [runOk]

end Cache

namespace Io

variable (io : Io) (iov : List Ent) (ws : List (List Ent × Nat))

/-- The device takes less than the whole vector. -/
def short : Bool := io.count iov.length != iov.length

theorem flatMap_log :
    (ws ++ io.log iov).flatMap Prod.fst = ws.flatMap Prod.fst ++ iov := by
  by_cases h : iov = [] <;> simp [log, h]

theorem forall_log :
    (∀ w ∈ ws ++ io.log iov, w.2 = w.1.length) ↔
      (∀ w ∈ ws, w.2 = w.1.length) ∧ io.short iov = false := by
  by_cases h : iov = []
  · subst h
    simp [log, short, Nat.le_zero.1 (io.count_le 0)]
  · simp only [log, if_neg h, List.forall_mem_append, List.forall_mem_singleton, short, bne_eq_false_iff_eq]

end Io

namespace FlushList

/-- What a step does: the vector it writes, the state after it, and how the call goes on. -/
inductive Does (c : Cache α) (io : Io) :
    FlushList → List Ent → Cache α → Res FlushList Bool → Prop
  | skip (ents last iov e rest) (h : ¬ c.Due e) :
    Does c io (walk ents last iov (e :: rest) false) [] c (.wait (walk ents (some e) iov rest false))
  | collect (ents last iov e rest) (h : c.Due e) :
    Does c io (walk ents last iov (e :: rest) false) [] c
      (.wait (walk ents (some e) (iov ++ [e]) rest false))
  | write (ents last iov e rest) (h : c.Due e) (hne : iov ≠ []) :
    Does c io (walk ents last iov (e :: rest) false) iov (c.writeVectorBlock io iov).1
      (.wait (walk ents (some e) [e] rest (io.short iov)))
  | assert (ents last iov rest) :
    Does c io (walk ents last iov rest false) [] c .fault
  | refuse (ents last iov rest err) (h : err = false ∨ c.runOk iov = false) :
    Does c io (walk ents last iov rest err) [] c (.ret false)
  | empty (ents last rest err) (h : rest = [] ∨ err = true) :
    Does c io (walk ents last [] rest err) [] c (.wait (clear ents err))
  | last (ents last iov rest err) (hne : iov ≠ []) (h : rest = [] ∨ err = true) :
    Does c io (walk ents last iov rest err) iov (c.writeVectorBlock io iov).1
      (.wait (clear ents (io.short iov)))
  | clear (ents err) :
    Does c io (clear ents err) []
      (c.modify ents fun x => if x.ref = 0 then { x with dirty := false } else x) (.ret (!err))

variable {c : Cache α} {io : Io}

/-- The end of the list, or of the loop after a failed write. -/
theorem does_tail {ents iov rest : List Ent} {last : Option Ent} {err : Bool}
    (h : rest = [] ∨ err = true) :
    Does c io (walk ents last iov rest err) (if c.runOk iov then iov else [])
      (if iov = [] then (c, Res.wait (clear ents err))
        else c.flushRun io iov fun err => clear ents err).1
      (if iov = [] then (c, Res.wait (clear ents err))
        else c.flushRun io iov fun err => clear ents err).2 := by
  by_cases hiov : iov = []
  · subst hiov
    simpa using Does.empty ents last rest err h
  · cases hok : c.runOk iov with
    | true =>
      simp only [hiov, if_false, if_true, Cache.flushRun, hok, c.writeVectorBlock_snd io iov hiov]
      exact .last ents last iov rest err hiov h
    | false =>
      simp only [hiov, if_false, Cache.flushRun, hok, Bool.false_eq_true]
      exact .refuse ents last iov rest err (.inr hok)

theorem does (f : FlushList) : Does c io f (f.vector c) (f.step c io).1 (f.step c io).2 := by
  cases f with
  | clear ents err => exact .clear ents err
  | walk ents last iov rest err =>
    cases rest with
    | nil => cases err <;> exact does_tail (.inl rfl)
    | cons e rest =>
      cases err with
      | true => exact does_tail (.inr rfl)
      | false =>
        simp only [step, vector]
        by_cases hmax : writebackBlocksMax < ents.length
        · simpa [hmax] using Does.refuse ents last iov (e :: rest) false (.inl rfl)
        by_cases hskip : 0 < (c.ent e).ref ∨ (c.ent e).dirty = false
        · have hdue : ¬ c.Due e := by
            rintro ⟨hd, hr⟩
            rcases hskip with h | h
            · exact absurd h (by omega)
            · rw [hd] at h; cases h
          simpa [hmax, hskip] using Does.skip ents last iov e rest hdue
        have hdue : c.Due e := by
          rw [not_or, not_lt, Nat.le_zero, Bool.not_eq_false] at hskip
          exact ⟨hskip.2, hskip.1⟩
        by_cases hdev : (c.key e).dev = 0
        · simpa [hmax, hskip, hdev] using Does.assert ents last iov (e :: rest)
        by_cases hdis : c.disordered last e = true
        · simpa [hmax, hskip, hdev, hdis] using Does.refuse ents last iov (e :: rest) false (.inl rfl)
        cases hprev : iov.getLast? with
        | none =>
          obtain rfl := List.getLast?_eq_none_iff.1 hprev
          simpa [hmax, hskip, hdev, hdis] using Does.collect ents last [] e rest hdue
        | some prev =>
          have hne : iov ≠ [] := by
            rintro rfl
            cases hprev
          by_cases hnext : c.key e = (c.key prev).add 1
          · have hdev' : ((c.key prev).add 1).dev ≠ 0 := hnext ▸ hdev
            simpa [hmax, hskip, hdev', hdis, hnext] using Does.collect ents last iov e rest hdue
          cases hok : c.runOk iov with
          | false =>
            simpa [hmax, hskip, hdev, hdis, hnext, Cache.flushRun, hok] using
              Does.refuse ents last iov (e :: rest) false (.inl rfl)
          | true =>
            simpa [hmax, hskip, hdev, hdis, hnext, Cache.flushRun, hok, Io.short, bne,
              c.writeVectorBlock_snd io iov hne] using Does.write ents last iov e rest hdue hne

variable {f : FlushList} {iov : List Ent} {c' : Cache α} {r : Res FlushList Bool}

theorem Does.disk (h : Does c io f iov c' r) : c'.disk = (c.writeVectorBlock io iov).1.disk := by
  cases h <;> rfl

theorem Does.entry (h : Does c io f iov c' r) (e : Ent) :
    (c'.ent e).data = (c.ent e).data ∧ (c'.ent e).key = (c.ent e).key := by
  cases h with
  | skip | collect | assert | refuse | empty => exact ⟨rfl, rfl⟩
  | write | last =>
    rw [Cache.writeVectorBlock_fst]
    exact ⟨rfl, rfl⟩
  | clear ents err =>
    by_cases he : e ∈ ents ∧ (c.ent e).ref = 0
    · simp [Cache.modify, he]
    · rw [not_and_or] at he
      rcases he with he | he <;> simp [Cache.modify, he]

/-- The steps a call has left at most. -/
def left : Res FlushList Bool → Nat
  | .wait (.walk _ _ _ rest err) => (if err then 0 else rest.length) + 2
  | .wait (.clear ..) => 1
  | _ => 0

theorem Does.left_lt (h : Does c io f iov c' r) : left r < left (.wait f) := by
  cases h with
  | skip | collect => simp [left]
  | write ents last iov e rest => cases io.short iov <;> simp [left]
  | assert | refuse | empty | last | clear => simp [left]

end FlushList

/-! ## The call -/

namespace FlushCall

/-- Where a call for `ents` that began in `c` can be, with `d` on the device
and the vectors `ws` written. Up to its end the entries are as they were. -/
inductive Reached (c : Cache α) (ents : List Ent) : FlushCall α → Prop
  | walk (d ws last iov rest) (htaken : ∀ w ∈ ws, w.2 = w.1.length)
    (hsub : List.Sublist ((ws.flatMap Prod.fst) ++ iov ++ rest) ents)
    (hdue : ∀ e ∈ ws.flatMap Prod.fst ++ iov, c.Due e)
    (hall : ∀ e ∈ ents, c.Due e → e ∈ ws.flatMap Prod.fst ++ iov ++ rest) :
    Reached c ents ⟨{ c with disk := d }, .wait (.walk ents last iov rest false), ws⟩
  | broken (d ws last e rest) (hshort : ¬ ∀ w ∈ ws, w.2 = w.1.length)
    (hsub : List.Sublist (ws.flatMap Prod.fst ++ [e]) ents)
    (hdue : ∀ x ∈ ws.flatMap Prod.fst ++ [e], c.Due x) :
    Reached c ents ⟨{ c with disk := d }, .wait (.walk ents last [e] rest true), ws⟩
  | clear (d ws err) (hsub : List.Sublist (ws.flatMap Prod.fst) ents)
    (hdue : ∀ e ∈ ws.flatMap Prod.fst, c.Due e)
    (hall : (∀ w ∈ ws, w.2 = w.1.length) → ∀ e ∈ ents, c.Due e → e ∈ ws.flatMap Prod.fst) :
    Reached c ents ⟨{ c with disk := d }, .wait (.clear ents err), ws⟩
  | quit (d ws r) (htaken : ∀ w ∈ ws, w.2 = w.1.length) (hr : r = .fault ∨ r = .ret false) :
    Reached c ents ⟨{ c with disk := d }, r, ws⟩
  | done (d ws ok) (hsub : List.Sublist (ws.flatMap Prod.fst) ents)
    (hdue : ∀ e ∈ ws.flatMap Prod.fst, c.Due e)
    (hall : (∀ w ∈ ws, w.2 = w.1.length) → ∀ e ∈ ents, c.Due e → e ∈ ws.flatMap Prod.fst) :
    Reached c ents ⟨{ c.modify ents (fun x => if x.ref = 0 then { x with dirty := false } else x)
      with disk := d }, .ret ok, ws⟩

variable {c : Cache α} {ents : List Ent} {s s' : FlushCall α} {io : Io}

theorem reached_start : Reached c ents (start c ents) :=
  .walk c.disk [] none [] ents (by simp) (by simp) (by simp) fun e he _ => by simpa using he

/-- A step, with the vector it writes. -/
theorem next_does (hs : s.next io = some s') :
    ∃ f iov, s.pc = .wait f ∧ f.Does s.cache io iov s'.cache s'.pc ∧
      s'.writes = s.writes ++ io.log iov := by
  obtain ⟨c, pc, ws⟩ := s
  cases pc with
  | wait f =>
    cases hs
    exact ⟨f, f.vector c, rfl, f.does, rfl⟩
  | ret r => cases hs
  | fault => cases hs

theorem Reached.next (h : Reached c ents s) (hs : s.next io = some s') : Reached c ents s' := by
  obtain ⟨f, iov, hpc, hdoes, hws⟩ := next_does hs
  obtain ⟨c', pc', ws'⟩ := s'
  simp only at hdoes hws
  subst hws
  cases h with
  | walk d ws last iov rest htaken hsub hdue hall =>
    cases hpc
    cases hdoes with
    | skip _ _ _ e rest hno =>
      rw [Io.log, if_pos rfl, List.append_nil]
      refine .walk d ws (some e) iov rest htaken ?_ hdue ?_
      · exact (List.Sublist.append_left (List.sublist_cons_self e rest) _).trans hsub
      · intro x hx hxdue
        have hne : x ≠ e := fun h => hno (h ▸ hxdue)
        simpa [hne] using hall x hx hxdue
    | collect _ _ _ e rest he =>
      rw [Io.log, if_pos rfl, List.append_nil]
      refine .walk d ws (some e) (iov ++ [e]) rest htaken ?_ ?_ ?_
      · simpa using hsub
      · rw [← List.append_assoc]
        exact List.forall_mem_append.2 ⟨hdue, List.forall_mem_singleton.2 he⟩
      · simpa using hall
    | write _ _ _ e rest he hne =>
      rw [Cache.writeVectorBlock_fst]
      cases hshort : io.short iov with
      | false =>
        refine .walk _ (ws ++ io.log iov) (some e) [e] rest ((io.forall_log iov ws).2 ⟨htaken, hshort⟩) ?_ ?_ ?_
        · simpa [io.flatMap_log] using hsub
        · rw [io.flatMap_log]
          exact List.forall_mem_append.2 ⟨hdue, List.forall_mem_singleton.2 he⟩
        · simpa [io.flatMap_log] using hall
      | true =>
        refine .broken _ (ws ++ io.log iov) (some e) e rest (fun h => ?_) ?_ ?_
        · rw [io.forall_log, hshort] at h
          cases h.2
        · rw [io.flatMap_log]
          refine .trans ?_ hsub
          simp
        · rw [io.flatMap_log]
          exact List.forall_mem_append.2 ⟨hdue, List.forall_mem_singleton.2 he⟩
    | assert =>
      exact .quit d _ .fault (by simpa [Io.log] using htaken) (.inl rfl)
    | refuse => exact .quit d _ _ (by simpa [Io.log] using htaken) (.inr rfl)
    | empty _ _ rest _ h =>
      obtain rfl : rest = [] := h.resolve_right Bool.false_ne_true
      simp only [List.append_nil] at hsub hdue hall
      rw [Io.log, if_pos rfl, List.append_nil]
      exact .clear d ws false hsub hdue fun _ => hall
    | last _ _ _ rest _ hne h =>
      obtain rfl : rest = [] := h.resolve_right Bool.false_ne_true
      rw [List.append_nil] at hsub hall
      rw [Cache.writeVectorBlock_fst]
      rw [← io.flatMap_log] at hsub hdue hall
      exact .clear _ _ _ hsub hdue fun _ => hall
  | broken d ws last e rest hshort hsub hdue =>
    cases hpc
    cases hdoes with
    | refuse _ _ _ _ _ h =>
      rw [Cache.runOk_single] at h
      rcases h with h | h <;> cases h
    | last _ _ _ _ _ hne h =>
      rw [Cache.writeVectorBlock_fst]
      rw [← io.flatMap_log] at hsub hdue
      refine .clear _ _ _ hsub hdue fun htaken => ?_
      exact absurd ((io.forall_log [e] ws).1 htaken).1 hshort
  | clear d ws err hsub hdue hall =>
    cases hpc
    cases hdoes
    rw [Io.log, if_pos rfl, List.append_nil]
    exact .done d ws _ hsub hdue hall
  | quit d ws r htaken hr => 
    rcases hr with rfl | rfl <;> cases hpc
  | done d ws ok hsub hdue hall => cases hpc

theorem reached_run {ios : List Io} (hr : (machine α).run (start c ents) ios = some s) :
    Reached c ents s :=
  Machine.run_keeps (fun _ _ _ h hs => h.next hs) reached_start hr

/-- A step only changes the flags, and the log says what went to the device. -/
theorem Logged.next (h : s.Logged c) (hs : s.next io = some s') : s'.Logged c := by
  obtain ⟨f, iov, -, hdoes, hws⟩ := next_does hs
  refine ⟨fun e => (hdoes.entry e).1.trans (h.data e), fun e => (hdoes.entry e).2.trans (h.key e), ?_⟩
  rw [hdoes.disk, hws, List.foldl_append, ← h.disk]
  cases iov with
  | nil => rfl
  | cons e es =>
    simp only [Cache.writeVectorBlock, Io.log, h.key, h.data]
    rfl

theorem logged_run {ios : List Io} (hr : (machine α).run (start c ents) ios = some s) :
    s.Logged c :=
  Machine.run_keeps (fun _ _ _ h hs => h.next hs) ⟨fun _ => rfl, fun _ => rfl, rfl⟩ hr

/-! ## Its end -/

theorem writes_le {ios : List Io} (hr : (machine α).run (start c ents) ios = some s) :
    ∀ w ∈ s.writes, w.2 ≤ w.1.length := by
  refine Machine.run_keeps (I := fun s => ∀ w ∈ s.writes, w.2 ≤ w.1.length)
    (fun s io s' h hs => ?_) (by simp [start]) hr
  obtain ⟨f, iov, -, -, hws⟩ := next_does hs
  rw [hws]
  refine List.forall_mem_append.2 ⟨h, ?_⟩
  unfold Io.log
  split
  · simp
  · exact List.forall_mem_singleton.2 (io.count_le _)

/-- Where every vector was taken, the entries the device took are those handed to it. -/
theorem sent_of_allTaken (h : s.AllTaken) : s.sent = s.vectors := by
  unfold sent vectors
  exact List.flatMap_congr fun w hw => by rw [h w hw, List.take_length]

theorem length_sent_le {ws : List (List Ent × Nat)} :
    (ws.flatMap fun w => w.1.take w.2).length ≤ (ws.flatMap Prod.fst).length := by
  induction ws with
  | nil => exact le_rfl
  | cons w ws ih =>
    simp only [List.flatMap_cons, List.length_append, List.length_take]
    omega

theorem length_sent_lt {ws : List (List Ent × Nat)} (hle : ∀ w ∈ ws, w.2 ≤ w.1.length)
    (h : ¬ ∀ w ∈ ws, w.2 = w.1.length) :
    (ws.flatMap fun w => w.1.take w.2).length < (ws.flatMap Prod.fst).length := by
  induction ws with
  | nil => exact absurd (List.forall_mem_nil _) h
  | cons w ws ih =>
    rw [List.forall_mem_cons] at h hle
    simp only [List.flatMap_cons, List.length_append, List.length_take]
    by_cases hw : w.2 = w.1.length
    · have := ih hle.2 fun hws => h ⟨hw, hws⟩
      omega
    · have : (ws.flatMap fun w => w.1.take w.2).length ≤ _ := length_sent_le
      omega

theorem exists_not_sent (hnd : s.vectors.Nodup) (hle : ∀ w ∈ s.writes, w.2 ≤ w.1.length)
    (h : ¬ s.AllTaken) : ∃ e ∈ s.vectors, e ∉ s.sent := by
  by_contra hall
  push Not at hall
  have hlen := (List.Nodup.subperm hnd hall).length_le
  exact absurd (length_sent_lt hle h) (not_lt.2 hlen)

theorem Reached.sound (h : Reached c ents s) (ht : s.AllTaken) : s.Sound c ents := by
  have hsent := sent_of_allTaken ht
  cases h with
  | walk | broken | clear =>
    exact ⟨fun e hd hclear => absurd (hd.symm.trans hclear) (by decide), fun h => nomatch h⟩
  | quit d ws r htaken hr =>
    refine ⟨fun e hd hclear => absurd (hd.symm.trans hclear) (by decide), fun h => ?_⟩
    rcases hr with rfl | rfl <;> cases h
  | done d ws ok hsub hdue hall =>
    have hdone : ∀ e ∈ ents, c.Due e → e ∈ ws.flatMap Prod.fst := hall ht
    rw [FlushCall.vectors] at hsent
    refine ⟨fun e hd hclear => ?_, fun _ e he hedue => ?_⟩
    · have hmem : e ∈ ents ∧ (c.ent e).ref = 0 := by
        by_contra hno
        rw [not_and_or] at hno
        have hkept : ((c.modify ents fun x => if x.ref = 0 then { x with dirty := false } else x).ent
            e) = c.ent e := by
          rcases hno with hno | hno <;> simp [Cache.modify, hno]
        rw [hkept, hd] at hclear
        cases hclear
      rw [hsent]
      exact hdone e hmem.1 ⟨hd, hmem.2⟩
    · rw [hsent]
      exact hdone e he hedue

theorem Reached.allTaken (h : Reached c ents s) (hle : ∀ w ∈ s.writes, w.2 ≤ w.1.length)
    (hnd : ents.Nodup) (hend : s.Ended) (hs : s.Sound c ents) : s.AllTaken := by
  cases h with
  | walk | broken | clear => exact absurd rfl (hend _)
  | quit d ws r htaken hr => exact htaken
  | done d ws ok hsub hdue hall =>
    by_contra hshort
    have hnd' : (ws.flatMap Prod.fst).Nodup := List.Nodup.sublist hsub hnd
    obtain ⟨e, he, hno⟩ := exists_not_sent (by exact hnd') hle hshort
    have hclear : ((c.modify ents fun x => if x.ref = 0 then { x with dirty := false } else x).ent
        e).dirty = false := by
      simp [Cache.modify, hsub.subset he, (hdue e he).2]
    exact hno (hs.cleared e (hdue e he).1 hclear)

theorem left_run {ios : List Io} (hr : (machine α).run s ios = some s') :
    ios.length ≤ FlushList.left s.pc := by
  induction ios generalizing s with
  | nil => exact Nat.zero_le _
  | cons io ios ih =>
    obtain ⟨t, hs, hr⟩ := Machine.run_cons_eq_some.1 hr
    obtain ⟨f, iov, hpc, hdoes, -⟩ := next_does hs
    have hlt := hdoes.left_lt
    have hle := ih hr
    rw [hpc, List.length_cons]
    omega

end FlushCall

/-- **flush_cache_entry_list**: a call ends, and its log says what went to the device. Where
the device takes every vector whole, a flag is cleared only for an entry whose data was
written, and success is reported only if all that was due was written; where it does not, and
no entry is twice in the list, the call breaks this. -/
theorem flushCacheEntryList_sound_iff {c : Cache α} {ents : List Ent} {ios : List Io}
    {s : FlushCall α} (hr : (FlushCall.machine α).run (.start c ents) ios = some s) :
    ios.length ≤ ents.length + 2 ∧ s.Logged c ∧ (s.AllTaken → s.Sound c ents) ∧
      (ents.Nodup → s.Ended → s.Sound c ents → s.AllTaken) := by
  have hreach := FlushCall.reached_run hr
  refine ⟨FlushCall.left_run hr, FlushCall.logged_run hr, fun ht => hreach.sound ht,
    fun hnd hend hs => ?_⟩
  exact hreach.allTaken (FlushCall.writes_le hr) hnd hend hs

/-! ## Two dirty blocks -/

/-- Two dirty entries, of the blocks 1 and 3 of a device. -/
def twoDirty : Cache Nat where
  ent
    | .heap 0 => ⟨⟨1, 1⟩, true, true, 0, 11⟩
    | .heap 1 => ⟨⟨1, 3⟩, true, true, 0, 13⟩
    | _ => ⟨⟨0, -1⟩, false, false, 0, 0⟩
  listReady := [.heap 0, .heap 1]
  listLockdown := []
  hashTable := none
  lock := none
  cacheHeapSize := 2
  heap := some 2
  freeEnts := 0
  freeEntsList := []
  disk := fun _ => 0
  hist := []

/-- Block 1 is not written, block 3 is: the call reports success, and the flag of block 1 is
cleared. -/
theorem flushCacheEntryList_loses : ∃ s,
    (FlushCall.machine Nat).run (.start twoDirty [.heap 0, .heap 1]) [.ok, .stops 0, .ok, .ok] =
      some s ∧ s.pc = .ret true ∧ twoDirty.Due (.heap 0) ∧ (s.cache.ent (.heap 0)).dirty = false ∧
      .heap 0 ∉ s.sent ∧ ¬ s.Sound twoDirty [.heap 0, .heap 1] := by
  have hno : ∀ s : FlushCall Nat, s.pc = .ret true → .heap 0 ∉ s.sent →
      ¬ s.Sound twoDirty [.heap 0, .heap 1] := fun s hpc hs h =>
    hs (h.success hpc (.heap 0) (by decide) (by decide))
  refine ⟨_, rfl, rfl, by decide, rfl, by decide, hno _ rfl (by decide)⟩

/-- With both blocks written. -/
theorem flushCacheEntryList_sound_two : ∃ s,
    (FlushCall.machine Nat).run (.start twoDirty [.heap 0, .heap 1]) [.ok, .ok, .ok, .ok] =
      some s ∧ s.AllTaken ∧ s.Sound twoDirty [.heap 0, .heap 1] := by
  have hrun : ∀ s, (FlushCall.machine Nat).run (.start twoDirty [.heap 0, .heap 1])
      [.ok, .ok, .ok, .ok] = some s → s.AllTaken → s.Sound twoDirty [.heap 0, .heap 1] :=
    fun _ hr => (flushCacheEntryList_sound_iff hr).2.2.1
  exact ⟨_, rfl, by decide, hrun _ rfl (by decide)⟩

end Melis.Sdmmc
