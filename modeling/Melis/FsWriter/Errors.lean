import Melis.FsWriter.FsCacheRing
import Melis.FsWriter.SimpleCache
import Melis.Lib.C
import Melis.Lib.Response

/-!
# What a writer tells its caller of a stream that fails

All three writers as one machine. The direct writer returns what the stream
returned. The other two drop it: after a write of theirs has failed a call
returns an error only if it is refused for a reason of its own
(`errors_reported_iff`).
-/

namespace Melis.FsWriter

open Lib

variable {σ β : Type}

/-- `FSWRITEMODE`. -/
inductive FsWriteMode where
  | cacheThread
  | simpleCache
  | direct
deriving DecidableEq

/-- An `FsWriter`; of one that is destroyed the stream is left. -/
inductive Writer (σ β : Type) where
  | cacheThread (s : State σ β)
  | simpleCache (c : SimpleCache σ β)
  | direct (s : Stream σ β)
  | destroyed (s : Stream σ β)

def createFsWriter (mode : FsWriteMode) (pStream : Stream σ β) (pCache : Nat → β)
    (nCacheSize : Nat) : Option (Writer σ β) :=
  match mode with
  | .cacheThread => some (.cacheThread (initFsCacheThreadContext pStream pCache nCacheSize))
  | .simpleCache => (initFsSimpleCache pStream (i32 nCacheSize)).map .simpleCache
  | .direct => some (.direct pStream)

namespace Writer

/-- The stream under the writer. -/
def stream : Writer σ β → Stream σ β
  | cacheThread s => s.ctx.stream
  | simpleCache c => c.stream
  | direct s => s
  | destroyed s => s

/-- A call of a writer without a thread is one step. -/
def next (S : StreamOps σ β) : Writer σ β → Input β → Option (Writer σ β)
  | cacheThread s, i => (FsWriter.next S s i).map cacheThread
  | simpleCache c, .call x => some (simpleCache (c.call S x))
  | simpleCache c, .destroy => some (destroyed (c.deinitFsSimpleCache S))
  | direct s, .call x => some (direct (directCall S s x))
  | direct s, .destroy => some (destroyed s)
  | _, _ => none

end Writer

abbrev fsWriter (S : StreamOps σ β) : Machine (Writer σ β) (Input β) := ⟨Writer.next S⟩

/-- The stream did not take all of a write. -/
def Event.Failed : Event β → Prop
  | streamWrite buf n => n ≠ buf.length
  | ret .. => False

/-- A write, a seek or a flush returned an error. -/
def Event.Reports : Event β → Prop
  | ret (.write buf) r => r ≠ buf.length
  | ret (.seek ..) r => r < 0
  | ret .flush r => r < 0
  | _ => False

/-- Every failure is followed by a report. -/
abbrev Reported (w : Writer σ β) : Prop := Answered Event.Failed Event.Reports w.stream.events

/-- A write to the stream fails in the step. -/
def Fails (S : StreamOps σ β) (w : Writer σ β) (i : Input β) : Prop :=
  ∃ w', w.next S i = some w' ∧
    ∃ es, w'.stream.events = es ++ w.stream.events ∧ ∃ e ∈ es, e.Failed

/-- The call of a cached writer is refused whatever became of earlier writes: a
write of nothing, where the cache has no thread, or a seek that the stream refuses. -/
def Refuses (S : StreamOps σ β) : Writer σ β → Input β → Prop
  | .simpleCache _, .call (.write []) => True
  | .simpleCache c, .call (.seek nOffset fromWhere) =>
    (S.seek (c.fsSimpleCacheFlush S).stream.st nOffset fromWhere).2 < 0
  | .cacheThread s, .client =>
    match s.client with
    | .after (.seek nOffset fromWhere) _ => (S.seek s.ctx.stream.st nOffset fromWhere).2 < 0
    | _ => False
  | _, _ => False

/-! ## The events of a step -/

section

variable {S : StreamOps σ β} {w w' : Writer σ β} {i : Input β} {s s' s'' : Stream σ β}
  {c : SimpleCache σ β} {x : Call β} {r : Int} {es : List (Event β)} {buf left : List β}

theorem fails_iff (hn : w.next S i = some w')
    (hev : w'.stream.events = es ++ w.stream.events) : Fails S w i ↔ ∃ e ∈ es, e.Failed := by
  constructor
  · rintro ⟨v, hv, fs, hfs, h⟩
    obtain rfl : w' = v := Option.some.inj (hn.symm.trans hv)
    obtain rfl : es = fs := List.append_cancel_right (hev.symm.trans hfs)
    exact h
  · intro h
    exact ⟨w', hn, es, hev, h⟩

/-- The stream was written to, and nothing else. -/
def Writes (s s' : Stream σ β) : Prop :=
  ∃ ws, s'.events = ws ++ s.events ∧ ∀ e ∈ ws, ¬ e.Reports

theorem Writes.refl (s : Stream σ β) : Writes s s := ⟨[], rfl, nofun⟩

theorem Writes.trans (h : Writes s s') (h' : Writes s' s'') : Writes s s'' := by
  obtain ⟨ws, he, hws⟩ := h
  obtain ⟨ws', he', hws'⟩ := h'
  refine ⟨ws' ++ ws, by rw [he', he, List.append_assoc], fun e hm => ?_⟩
  rcases List.mem_append.1 hm with hm | hm
  · exact hws' e hm
  · exact hws e hm

theorem fileWriter_writes (S : StreamOps σ β) (s : Stream σ β) (buf : List β) :
    Writes s (fileWriter S s buf).1 := by
  rcases fileWriter_events S s buf with ⟨-, he⟩ | ⟨-, he⟩
  · rw [he]
    exact .refl s
  · refine ⟨[_], he, fun e hm => ?_⟩
    rw [List.mem_singleton.1 hm]
    exact id

/-- A step that writes to the stream only reports nothing. -/
theorem logs_writes (hn : w.next S i = some w') (h : Writes w.stream w'.stream)
    (hD : ¬ Refuses S w i) :
    ∃ fs, Machine.Logs Event.Failed Event.Reports (Fails S w i) (Refuses S w i)
      w.stream.events w'.stream.events fs := by
  obtain ⟨ws, he, hws⟩ := h
  refine ⟨ws, he, ?_, ?_⟩
  · rw [fails_iff hn he]
    constructor
    · rintro ha ⟨e, hm, hf⟩
      obtain ⟨as, bs, rfl⟩ := List.append_of_mem hm
      obtain ⟨g, hg, hr⟩ := ha as e bs rfl hf
      exact absurd hr (hws g (List.mem_append_left _ hg))
    · rintro h post e pre rfl hf
      exact absurd (h ⟨e, by simp, hf⟩) hD
  · exact iff_of_false (fun ⟨g, hg, hr⟩ => hws g hg hr) hD

/-- A step that ends a call reports an error exactly if the call is refused. -/
theorem logs_ret (hn : w.next S i = some w') (h : Writes w.stream s)
    (hw : w'.stream = s.ret x r) (hD : (Event.ret x r).Reports ↔ Refuses S w i) :
    ∃ fs, Machine.Logs Event.Failed Event.Reports (Fails S w i) (Refuses S w i)
      w.stream.events w'.stream.events fs := by
  obtain ⟨ws, he, hws⟩ := h
  have hev : w'.stream.events = (.ret x r :: ws) ++ w.stream.events := by
    rw [hw, Stream.ret, he, List.cons_append]
  refine ⟨.ret x r :: ws, hev, ?_, ?_⟩
  · rw [fails_iff hn hev, answered_cons _ hws id, hD]
    simp [Event.Failed]
  · rw [← hD]
    constructor
    · rintro ⟨g, hm, hr⟩
      rcases List.mem_cons.1 hm with rfl | hm
      · exact hr
      · exact absurd hr (hws g hm)
    · intro hr
      exact ⟨_, List.mem_cons_self, hr⟩

/-! ## The simple cache -/

theorem writeLeft_writes (hsize : 0 < c.cacheSize) (hc : c.cache.length < c.cacheSize) :
    Writes c.stream (c.writeLeft S left).stream ∧
      (c.writeLeft S left).cache.length < (c.writeLeft S left).cacheSize := by
  have hrest : (left.drop (left.length / c.cacheSize * c.cacheSize)).length < c.cacheSize := by
    have := Nat.lt_div_mul_add hsize (a := left.length)
    rw [List.length_drop]
    omega
  unfold SimpleCache.writeLeft
  dsimp only
  split
  · split
    · exact ⟨fileWriter_writes S _ _, hrest⟩
    · exact ⟨.refl _, hrest⟩
  · split
    · exact ⟨fileWriter_writes S _ _, hc⟩
    · exact ⟨.refl _, hc⟩

/-- A write is refused only if it is one of nothing. -/
theorem fsSimpleCacheWrite_writes (hc : c.cache.length < c.cacheSize) :
    Writes c.stream (c.fsSimpleCacheWrite S buf).1.stream ∧
      (c.fsSimpleCacheWrite S buf).1.cache.length < (c.fsSimpleCacheWrite S buf).1.cacheSize ∧
      ((c.fsSimpleCacheWrite S buf).2 ≠ buf.length ↔ buf = []) := by
  have hsize : 0 < c.cacheSize := by omega
  unfold SimpleCache.fsSimpleCacheWrite
  by_cases hbuf : buf = []
  · rw [if_pos hbuf]
    refine ⟨.refl _, hc, iff_of_true ?_ hbuf⟩
    rw [hbuf]
    exact nofun
  rw [if_neg hbuf, if_neg (by omega)]
  have hok : ((buf.length : Int) ≠ buf.length ↔ buf = []) := iff_of_false (fun h => h rfl) hbuf
  split
  · split
    · dsimp only
      split
      · exact ⟨fileWriter_writes S _ _, hsize, hok⟩
      · rename_i hle hne
        refine ⟨.refl _, ?_, hok⟩
        rw [List.length_append] at hne ⊢
        dsimp only
        omega
    · dsimp only
      obtain ⟨hw, hv⟩ := @writeLeft_writes _ _ S
        { c.toStream S (c.cache ++ buf.take (c.cacheSize - c.cache.length)) with cache := [] }
        (buf.drop (c.cacheSize - c.cache.length)) hsize hsize
      exact ⟨(fileWriter_writes S _ _).trans hw, hv, hok⟩
  · obtain ⟨hw, hv⟩ := @writeLeft_writes _ _ S c buf hsize hc
    exact ⟨hw, hv, hok⟩

theorem fsSimpleCacheFlush_writes (hc : c.cache.length < c.cacheSize) :
    Writes c.stream (c.fsSimpleCacheFlush S).stream ∧
      (c.fsSimpleCacheFlush S).cache.length < (c.fsSimpleCacheFlush S).cacheSize := by
  unfold SimpleCache.fsSimpleCacheFlush
  split
  · exact ⟨fileWriter_writes S _ _, Nat.zero_lt_of_lt hc⟩
  · exact ⟨.refl _, hc⟩

theorem fsSimpleCache_writes (x : Call β) (hc : c.cache.length < c.cacheSize) :
    Writes c.stream (c.fsSimpleCache S x).1.stream ∧
      (c.fsSimpleCache S x).1.cache.length < (c.fsSimpleCache S x).1.cacheSize ∧
      ((Event.ret x (c.fsSimpleCache S x).2).Reports ↔
        Refuses S (.simpleCache c) (.call x)) := by
  obtain ⟨hw, hv⟩ := @fsSimpleCacheFlush_writes _ _ S _ hc
  cases x with
  | write buf =>
    obtain ⟨hw, hv, hr⟩ := @fsSimpleCacheWrite_writes _ _ S _ buf hc
    refine ⟨hw, hv, hr.trans ?_⟩
    cases buf with
    | nil => exact iff_of_true rfl trivial
    | cons b bs => exact iff_of_false nofun id
  | seek nOffset fromWhere => exact ⟨hw, hv, Iff.rfl⟩
  | tell => exact ⟨hw, hv, Iff.rfl⟩
  | truncate nLength => exact ⟨hw, hv, Iff.rfl⟩
  | flush => exact ⟨hw, hv, iff_of_false (by exact (by decide : ¬ (0 : Int) < 0)) id⟩

/-! ## Whole runs -/

/-- What every step of a writer keeps, if it is not the direct one. -/
def Kept : Writer σ β → Prop
  | .cacheThread s => Inv s
  | .simpleCache c => c.cache.length < c.cacheSize
  | .direct _ => False
  | .destroyed _ => True

theorem refuses_after {s : State σ β} (hc : s.client = .after x r) :
    Refuses S (.cacheThread s) .client ↔ ∃ nOffset fromWhere,
      x = .seek nOffset fromWhere ∧ (S.seek s.ctx.stream.st nOffset fromWhere).2 < 0 := by
  simp only [Refuses, hc]
  cases x <;> simp

theorem not_refuses {s : State σ β} (hc : ∀ x r, s.client ≠ .after x r) :
    ¬ Refuses S (.cacheThread s) .client := by
  simp only [Refuses]
  split
  · rename_i he
    exact absurd he (hc _ _)
  · exact id

theorem cacheThread_logs {s s' : State σ β} (h : Inv s) (hs : next S s i = some s') :
    ∃ fs, Machine.Logs Event.Failed Event.Reports (Fails S (.cacheThread s) i)
      (Refuses S (.cacheThread s) i) s.ctx.stream.events s'.ctx.stream.events fs := by
  have hn : (Writer.cacheThread s).next S i = some (.cacheThread s') := by
    rw [Writer.next, hs]
    rfl
  have hsame : s'.ctx.stream = s.ctx.stream → Writes s.ctx.stream s'.ctx.stream := by
    intro he
    rw [he]
    exact .refl _
  cases i with
  | client =>
    rcases clientStep_stream hs with ⟨hne, he⟩ | ⟨buf, freeSize, hc, he⟩ | ⟨c, r, hc, rfl⟩
    · exact logs_writes hn (hsame he) (not_refuses hne)
    · refine logs_ret hn (.refl _) he (iff_of_false (fun hr => hr rfl) (not_refuses ?_))
      intro x r he
      rw [hc] at he
      cases he
    · obtain ⟨lag, used, hd⟩ := h.data
      have hin := hd.client
      rw [hc] at hin
      obtain ⟨rfl, -, -⟩ := hin
      have hR := @refuses_after _ _ S _ _ _ hc
      cases c with
      | write buf =>
        refine absurd ?_ (h.told.call buf)
        rw [hc]
        rfl
      | seek nOffset fromWhere =>
        refine logs_ret (s := (s.ctx.stream.seek S nOffset fromWhere).1) hn ⟨[], rfl, nofun⟩ rfl ?_
        rw [hR]
        constructor
        · intro hr
          exact ⟨nOffset, fromWhere, rfl, hr⟩
        · rintro ⟨_, _, ⟨⟩, hr⟩
          exact hr
      | tell =>
        refine logs_ret (s := (s.ctx.stream.tell S).1) hn ⟨[], rfl, nofun⟩ rfl ?_
        exact iff_of_false id (by simp [hR])
      | truncate nLength =>
        refine logs_ret (s := (s.ctx.stream.truncate S nLength).1) hn ⟨[], rfl, nofun⟩ rfl ?_
        exact iff_of_false id (by simp [hR])
      | flush =>
        refine logs_ret hn (.refl _) rfl ?_
        exact iff_of_false (by exact (by decide : ¬ (0 : Int) < 0)) (by simp [hR])
  | thread =>
    refine logs_writes hn ?_ id
    rcases threadStep_stream hs with ⟨he, -⟩ | ⟨buf, he, -⟩
    · exact hsame he
    · change Writes s.ctx.stream s'.ctx.stream
      rw [he]
      exact fileWriter_writes S _ buf
  | call c =>
    obtain ⟨-, ⟨rfl, rfl⟩ | ⟨buf, -, -, rfl⟩ | ⟨-, rfl⟩⟩ := call_cases hs
    · exact logs_ret hn (.refl _) rfl (iff_of_false (fun hr => hr rfl) id)
    · exact logs_writes hn (.refl _) id
    · exact logs_writes hn (.refl _) id
  | destroy =>
    obtain ⟨-, rfl⟩ := destroy_cases hs
    exact logs_writes hn (.refl _) id
  | wake =>
    obtain ⟨buf, -, rfl⟩ := wake_cases hs
    exact logs_writes hn (.refl _) id

theorem kept_logs (h : Kept w) (hs : w.next S i = some w') :
    Kept w' ∧ ∃ fs, Machine.Logs Event.Failed Event.Reports (Fails S w i) (Refuses S w i)
      w.stream.events w'.stream.events fs := by
  cases w with
  | direct s => exact h.elim
  | destroyed s => cases i <;> cases hs
  | cacheThread s =>
    obtain ⟨s', hs', rfl⟩ := Option.map_eq_some_iff.1 hs
    exact ⟨Inv.next h hs', cacheThread_logs h hs'⟩
  | simpleCache c =>
    cases i with
    | call x =>
      obtain ⟨hw, hv, hr⟩ := @fsSimpleCache_writes _ _ S _ x h
      cases hs
      exact ⟨hv, logs_ret rfl hw rfl hr⟩
    | destroy =>
      obtain ⟨hw, -⟩ := @fsSimpleCacheFlush_writes _ _ S _ h
      cases hs
      exact ⟨trivial, logs_writes rfl hw id⟩
    | _ => cases hs

/-- The direct writer returns what the stream returned. -/
theorem directCall_answered (S : StreamOps σ β) (s : Stream σ β) (x : Call β) :
    ∃ es, (directCall S s x).events = es ++ s.events ∧
      Answered Event.Failed Event.Reports es := by
  have halone : ∀ r, Answered Event.Failed Event.Reports [.ret x r] := fun r =>
    (answered_cons _ nofun id).2 nofun
  cases x with
  | write buf =>
    rcases fileWriter_events S s buf with ⟨-, he⟩ | ⟨hne, he⟩
    · refine ⟨[_], ?_, halone (fileWriter S s buf).2⟩
      rw [directCall, fsDirectWrite, he]
      rfl
    · refine ⟨[.ret (.write buf) (S.write s.st buf).2, .streamWrite buf (S.write s.st buf).2], ?_,
        ?_⟩
      · rw [directCall, fsDirectWrite, fileWriter_result hne, Stream.ret, he]
        rfl
      · rw [answered_cons _ (by simp [Event.Reports]) id]
        simp [Event.Failed, Event.Reports]
  | _ => exact ⟨[_], rfl, halone _⟩

/-- A direct writer, or what is left of it, has reported every failure. -/
def Direct : Writer σ β → Prop
  | .direct s => Answered Event.Failed Event.Reports s.events
  | .destroyed s => Answered Event.Failed Event.Reports s.events
  | _ => False

theorem Direct.next (h : Direct w) (hs : w.next S i = some w') : Direct w' := by
  cases w with
  | direct s =>
    cases i with
    | call x =>
      obtain ⟨es, he, hes⟩ := directCall_answered S s x
      cases hs
      change Answered _ _ _
      rw [he]
      exact answered_append.2 ⟨hes, .inl h⟩
    | destroy =>
      cases hs
      exact h
    | _ => cases hs
  | destroyed s => cases i <;> cases hs
  | _ => exact h.elim

/-- **Errors of the stream**: every failure is reported to the caller of a
writer, in the call it happens in or after it, exactly if the writer is the
direct one or a call is refused for a reason of its own. -/
theorem errors_reported_iff {mode : FsWriteMode} {st : σ} {callback : Bool} {cache : Nat → β}
    {nCacheSize : Nat} {is : List (Input β)}
    (hc : createFsWriter mode (.opened st callback) cache nCacheSize = some w)
    (hr : (fsWriter S).run w is = some w') :
    Reported w' ↔ mode = .direct ∨ (fsWriter S).LeadsTo (Fails S) (Refuses S) w is := by
  have hkept : Kept w → w.stream.events = [] →
      (Reported w' ↔ (fsWriter S).LeadsTo (Fails S) (Refuses S) w is) := by
    intro hk hnone
    have h : Answered Event.Failed Event.Reports w'.stream.events ↔ _ :=
      Machine.answered_iff (I := Kept) (C := Fails S) (D := Refuses S)
        (fun _ _ _ hk hs => kept_logs hk hs) hk hr
    rw [Reported, h, hnone]
    exact and_iff_left (.inl answered_nil)
  cases mode with
  | direct =>
    cases hc
    have h0 : Direct (.direct (.opened st callback) : Writer σ β) := answered_nil
    have hd : Direct w' := Machine.run_keeps (I := Direct) (fun _ _ _ h hs => h.next hs) h0 hr
    refine iff_of_true ?_ (.inl rfl)
    cases w' with
    | direct s => exact hd
    | destroyed s => exact hd
    | _ => exact hd.elim
  | cacheThread =>
    cases hc
    rw [hkept ⟨init_control _ _ _, ⟨0, 0, init_data _ _ _⟩, init_told _ _ _ _⟩ rfl]
    simp
  | simpleCache =>
    rw [createFsWriter] at hc
    generalize i32 nCacheSize = n at hc
    obtain ⟨c, hinit, rfl⟩ := Option.map_eq_some_iff.1 hc
    unfold initFsSimpleCache at hinit
    split at hinit
    · cases hinit
    · rename_i hpos
      cases hinit
      have hv : ([] : List β).length < n.toNat := by
        rw [List.length_nil]
        omega
      rw [hkept hv rfl]
      simp

end

/-- A file on a disk that is full. -/
def fullDisk : StreamOps File UInt8 :=
  { fileOps with
    write := fun f _ => (f, -1)
    errno := fun _ => 28 }

theorem createFsWriter_simpleCache {pStream : Stream σ β} {pCache : Nat → β} {nCacheSize : Nat}
    (hpos : 0 < nCacheSize) (hlt : nCacheSize < 2 ^ 31) :
    createFsWriter .simpleCache pStream pCache nCacheSize =
      some (.simpleCache ⟨pStream, nCacheSize, []⟩) := by
  have hi : i32 nCacheSize = nCacheSize := i32_eq (by omega) (by omega)
  rw [createFsWriter, hi, initFsSimpleCache, if_neg (by omega), Int.toNat_natCast]
  rfl

/-- A write that fills the cache, and one of nothing. -/
theorem errors_reported_iff_empty :
    ∃ w w', createFsWriter .simpleCache (.opened ⟨[], 0⟩ false) (fun _ => 0) 4 = some w ∧
      (fsWriter fullDisk).run w [.call (.write [1, 2, 3, 4]), .call (.write [])] = some w' ∧
      (fsWriter fullDisk).LeadsTo (Fails fullDisk) (Refuses fullDisk) w
        [.call (.write [1, 2, 3, 4]), .call (.write [])] := by
  have hc := @createFsWriter_simpleCache _ _ (.opened ⟨[], 0⟩ false : Stream File UInt8)
    (fun _ => 0) 4 (by decide) (by decide)
  refine ⟨_, _, hc, rfl, ?_⟩
  refine ((errors_reported_iff hc rfl).1 ?_).resolve_left nofun
  intro post e pre he hbad
  refine ⟨.ret (.write []) (-1), ?_, by simp [Event.Reports]⟩
  cases post with
  | nil =>
    cases he
    exact hbad.elim
  | cons p post =>
    obtain ⟨rfl, -⟩ := List.cons.inj he
    exact List.mem_cons_self

/-- No call of a writer with a simple cache says that the disk is full. -/
theorem errors_unreported :
    ∃ w w', createFsWriter .simpleCache (.opened ⟨[], 0⟩ false) (fun _ => 0) 4 = some w ∧
      (fsWriter fullDisk).run w
        [.call (.write [1, 2, 3, 4]), .call .flush, .call (.seek 0 0), .destroy] = some w' ∧
      ¬ Reported w' := by
  have hc := @createFsWriter_simpleCache _ _ (.opened ⟨[], 0⟩ false : Stream File UInt8)
    (fun _ => 0) 4 (by decide) (by decide)
  refine ⟨_, _, hc, rfl, ?_⟩
  intro h
  obtain ⟨g, hm, hg⟩ := h [.ret (.seek 0 0) 0, .ret .flush 0, .ret (.write [1, 2, 3, 4]) 4]
    (.streamWrite [1, 2, 3, 4] (-1)) [] rfl (by simp [Event.Failed])
  simp only [List.mem_cons, List.not_mem_nil, or_false] at hm
  rcases hm with rfl | rfl | rfl <;> simp [Event.Reports] at hg

end Melis.FsWriter
