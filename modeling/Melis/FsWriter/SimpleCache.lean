import Mathlib.Data.List.Infix
import Melis.FsWriter.Stream

/-!
# The direct writer and the writer with a simple cache

The direct writer hands every write to the stream. The simple cache collects
the bytes and hands them on in multiples of its size; before a seek, a tell or
a truncate it hands on the rest. `simpleCache_eq_direct` says that the two
cannot be told apart on a stream that takes everything.
-/

namespace Melis.FsWriter

variable {σ β : Type}

/-! ## FsWriteDirect.c -/

def fsDirectWrite (S : StreamOps σ β) (s : Stream σ β) (c : Call β) : Stream σ β × Int :=
  match c with
  | .write buf => fileWriter S s buf
  | .seek nOffset fromWhere => s.seek S nOffset fromWhere
  | .tell => s.tell S
  | .truncate nLength => s.truncate S nLength
  | .flush => (s, 0)

/-- A call of the direct writer. -/
def directCall (S : StreamOps σ β) (s : Stream σ β) (c : Call β) : Stream σ β :=
  (fsDirectWrite S s c).1.ret c (fsDirectWrite S s c).2

/-! ## FsSimpleCache.c -/

/-- `FsSimpleCacheContext`: `cache` are the first `mValidLen` bytes of `mpCache`. -/
structure SimpleCache (σ β : Type) where
  stream : Stream σ β
  cacheSize : Nat
  cache : List β

/-- `initFsSimpleCache`, where the memory is there. -/
def initFsSimpleCache (stream : Stream σ β) (nCacheSize : Int) : Option (SimpleCache σ β) :=
  if nCacheSize ≤ 0 then none else some ⟨stream, nCacheSize.toNat, []⟩

namespace SimpleCache

variable (S : StreamOps σ β) (c : SimpleCache σ β)

/-- `fileWriter(pCtx->mpStream, ...)`, whose result is not used. -/
def toStream (buf : List β) : SimpleCache σ β := { c with stream := (fileWriter S c.stream buf).1 }

/-- The end of `FsSimpleCacheWrite`, where the cache is empty: whole multiples
of its size go to the stream, the rest into the cache. -/
def writeLeft (left : List β) : SimpleCache σ β :=
  let nWriteSize := left.length / c.cacheSize * c.cacheSize
  let c := if c.cacheSize ≤ left.length then c.toStream S (left.take nWriteSize) else c
  if 0 < (left.drop nWriteSize).length then { c with cache := left.drop nWriteSize } else c

def fsSimpleCacheWrite (buf : List β) : SimpleCache σ β × Int :=
  if buf = [] then (c, -1)
  else if c.cacheSize ≤ c.cache.length then (c, -1)
  else if 0 < c.cache.length then
    if c.cache.length + buf.length ≤ c.cacheSize then
      let cache := c.cache ++ buf
      if cache.length = c.cacheSize then
        ({ c.toStream S cache with cache := [] }, buf.length)
      else ({ c with cache := cache }, buf.length)
    else
      let nSize0 := c.cacheSize - c.cache.length
      let c := { c.toStream S (c.cache ++ buf.take nSize0) with cache := [] }
      (c.writeLeft S (buf.drop nSize0), buf.length)
  else (c.writeLeft S buf, buf.length)

def fsSimpleCacheFlush : SimpleCache σ β :=
  if 0 < c.cache.length then { c.toStream S c.cache with cache := [] } else c

/-- The result of a function of the stream, called after a flush. -/
def afterFlush (f : Stream σ β → Stream σ β × Int) : SimpleCache σ β × Int :=
  let c := c.fsSimpleCacheFlush S
  ({ c with stream := (f c.stream).1 }, (f c.stream).2)

def fsSimpleCache (x : Call β) : SimpleCache σ β × Int :=
  match x with
  | .write buf => c.fsSimpleCacheWrite S buf
  | .seek nOffset fromWhere => c.afterFlush S fun s => s.seek S nOffset fromWhere
  | .tell => c.afterFlush S fun s => s.tell S
  | .truncate nLength => c.afterFlush S fun s => s.truncate S nLength
  | .flush => (c.fsSimpleCacheFlush S, 0)

/-- A call of the writer with a simple cache. -/
def call (x : Call β) : SimpleCache σ β :=
  { (c.fsSimpleCache S x).1 with
    stream := (c.fsSimpleCache S x).1.stream.ret x (c.fsSimpleCache S x).2 }

/-- What `deinitFsSimpleCache` leaves in the stream. -/
def deinitFsSimpleCache : Stream σ β := (c.fsSimpleCacheFlush S).stream

end SimpleCache

/-! ## The cached writer against the direct one -/

/-- The stream once what is in the cache has been written to it. -/
def pending (S : StreamOps σ β) (st : σ) (cache : List β) : σ :=
  if cache = [] then st else (S.write st cache).1

/-- The writer with the cache and the direct writer after the same calls. -/
structure Agree (S : StreamOps σ β) (n : Nat) (c : SimpleCache σ β) (d : Stream σ β) : Prop where
  size : c.cacheSize = n
  valid : c.cache.length < c.cacheSize
  cachedError : c.stream.writeError ≠ EIO
  directError : d.writeError ≠ EIO
  st : d.st = pending S c.stream.st c.cache
  rets : rets d.events = rets c.stream.events

section

variable {S : StreamOps σ β} {c : SimpleCache σ β} {d s : Stream σ β} {st : σ} {n : Nat}
  {buf left xs ys : List β}

theorem pending_append (hS : S.AcceptsAll) :
    pending S (pending S st xs) ys = pending S st (xs ++ ys) := by
  by_cases hx : xs = []
  · subst hx
    rfl
  by_cases hy : ys = []
  · subst hy
    rw [List.append_nil]
    exact if_pos rfl
  have hxy : xs ++ ys ≠ [] := fun h => hx (List.append_eq_nil_iff.1 h).1
  unfold pending
  rw [if_neg hx, if_neg hy, if_neg hxy, hS.append]

/-- What a call of the cached writer may do on a stream that takes everything:
`buf` is written to the stream sooner or later. -/
structure Delays (S : StreamOps σ β) (c c' : SimpleCache σ β) (buf : List β) : Prop where
  valid : c'.cache.length < c'.cacheSize
  size : c'.cacheSize = c.cacheSize
  error : c'.stream.writeError = c.stream.writeError
  st : pending S c'.stream.st c'.cache = pending S (pending S c.stream.st c.cache) buf
  rets : FsWriter.rets c'.stream.events = FsWriter.rets c.stream.events

theorem Delays.trans {c' c'' : SimpleCache σ β} (hS : S.AcceptsAll) (h : Delays S c c' xs)
    (h' : Delays S c' c'' ys) : Delays S c c'' (xs ++ ys) where
  valid := h'.valid
  size := h'.size.trans h.size
  error := h'.error.trans h.error
  st := by rw [h'.st, h.st, pending_append hS]
  rets := h'.rets.trans h.rets

/-- The cache and `buf` go to the stream, and the cache is empty. -/
theorem toStream_delays (hS : S.AcceptsAll) (he : c.stream.writeError ≠ EIO)
    (hsize : 0 < c.cacheSize) (hne : c.cache ++ buf ≠ []) :
    Delays S c { c.toStream S (c.cache ++ buf) with cache := [] } buf := by
  obtain ⟨-, hst, herr, hrets⟩ := fileWriter_accepts hS he (c.cache ++ buf)
  refine ⟨hsize, rfl, herr, ?_, hrets⟩
  rw [pending_append hS]
  unfold pending
  rw [if_pos rfl, if_neg hne]
  exact hst

theorem writeLeft_delays (hS : S.AcceptsAll) (he : c.stream.writeError ≠ EIO)
    (hsize : 0 < c.cacheSize) (hc : c.cache = []) : Delays S c (c.writeLeft S left) left := by
  have hdiv := Nat.div_mul_le_self left.length c.cacheSize
  have hrest : left.length - left.length / c.cacheSize * c.cacheSize < c.cacheSize := by
    have := Nat.lt_div_mul_add hsize (a := left.length)
    omega
  -- the cache takes what is left after the whole multiples
  have hcache : ∀ (c' : SimpleCache σ β) (rest : List β), c'.cache = [] → rest.length < c'.cacheSize →
      Delays S c' (if 0 < rest.length then { c' with cache := rest } else c') rest := by
    intro c' rest hc' hlen
    split
    · exact ⟨hlen, rfl, rfl, by rw [pending_append hS, hc', List.nil_append], rfl⟩
    · rename_i h0
      obtain rfl : rest = [] := List.eq_nil_of_length_eq_zero (by omega)
      exact ⟨by rw [hc']; exact hlen, rfl, rfl, (if_pos rfl).symm, rfl⟩
  unfold SimpleCache.writeLeft
  dsimp only
  by_cases hle : c.cacheSize ≤ left.length
  · rw [if_pos hle]
    have hne : left.take (left.length / c.cacheSize * c.cacheSize) ≠ [] := by
      have hq : 0 < left.length / c.cacheSize := Nat.div_pos hle hsize
      have := Nat.mul_pos hq hsize
      intro h
      have := congrArg List.length h
      rw [List.length_take, List.length_nil] at this
      omega
    have hwhole : Delays S c
        (c.toStream S (left.take (left.length / c.cacheSize * c.cacheSize)))
        (left.take (left.length / c.cacheSize * c.cacheSize)) := by
      have h : Delays S c { c.toStream S (c.cache ++ _) with cache := [] } _ :=
        toStream_delays hS he hsize (by rw [hc, List.nil_append]; exact hne)
      rw [hc, List.nil_append] at h
      unfold SimpleCache.toStream at h ⊢
      rwa [← hc] at h
    have := hwhole.trans hS (hcache _ (left.drop (left.length / c.cacheSize * c.cacheSize)) hc (by
      rw [List.length_drop]; exact hrest))
    rwa [List.take_append_drop] at this
  · rw [if_neg hle]
    have hzero : left.length / c.cacheSize * c.cacheSize = 0 := by
      rw [Nat.div_eq_of_lt (by omega), Nat.zero_mul]
    rw [hzero]
    exact hcache c left hc (by omega)

theorem fsSimpleCacheWrite_delays (hS : S.AcceptsAll) (he : c.stream.writeError ≠ EIO)
    (hv : c.cache.length < c.cacheSize) (hbuf : buf ≠ []) :
    (c.fsSimpleCacheWrite S buf).2 = buf.length ∧ Delays S c (c.fsSimpleCacheWrite S buf).1 buf := by
  have hsize : 0 < c.cacheSize := by omega
  have hlen : 0 < buf.length := List.length_pos_of_ne_nil hbuf
  unfold SimpleCache.fsSimpleCacheWrite
  rw [if_neg hbuf, if_neg (by omega)]
  split
  · split
    · dsimp only
      split
      · refine ⟨rfl, toStream_delays hS he hsize ?_⟩
        exact fun h => hbuf (List.append_eq_nil_iff.1 h).2
      · rename_i hle hne
        rw [List.length_append] at hne
        refine ⟨rfl, ⟨?_, rfl, rfl, (pending_append hS).symm, rfl⟩⟩
        dsimp only
        rw [List.length_append]
        omega
    · rename_i h0 _
      dsimp only
      refine ⟨rfl, ?_⟩
      have hfill : Delays S c { c.toStream S (c.cache ++ buf.take (c.cacheSize - c.cache.length))
          with cache := [] } (buf.take (c.cacheSize - c.cache.length)) :=
        toStream_delays hS he hsize fun h => by
          rw [(List.append_eq_nil_iff.1 h).1] at h0
          exact Nat.lt_irrefl 0 h0
      have hempty : { c.toStream S (c.cache ++ buf.take (c.cacheSize - c.cache.length)) with
        cache := [] }.cache = [] := rfl
      have herr := hfill.error
      generalize { c.toStream S (c.cache ++ buf.take (c.cacheSize - c.cache.length)) with
        cache := [] } = c' at hfill herr hempty ⊢
      have hleft : Delays S c' (c'.writeLeft S (buf.drop (c.cacheSize - c.cache.length)))
          (buf.drop (c.cacheSize - c.cache.length)) :=
        writeLeft_delays hS (herr ▸ he) (hfill.size ▸ hsize) hempty
      have := hfill.trans hS hleft
      rwa [List.take_append_drop] at this
  · have hc : c.cache = [] := List.eq_nil_of_length_eq_zero (by omega)
    exact ⟨rfl, writeLeft_delays hS he hsize hc⟩

/-- A flush leaves the cache empty. -/
theorem fsSimpleCacheFlush_delays (hS : S.AcceptsAll) (he : c.stream.writeError ≠ EIO)
    (hv : c.cache.length < c.cacheSize) :
    Delays S c (c.fsSimpleCacheFlush S) [] ∧ (c.fsSimpleCacheFlush S).cache = [] := by
  unfold SimpleCache.fsSimpleCacheFlush
  split
  · rename_i h0
    have hne : c.cache ++ [] ≠ [] := by
      rw [List.append_nil]
      exact List.ne_nil_of_length_pos h0
    have := toStream_delays hS he (by omega) hne
    rw [List.append_nil] at this
    exact ⟨this, rfl⟩
  · have hc : c.cache = [] := List.eq_nil_of_length_eq_zero (by omega)
    exact ⟨⟨hv, rfl, rfl, (if_pos rfl).symm, rfl⟩, hc⟩

theorem Agree.ret {r : Int} {x : Call β} (h : Agree S n c d) :
    Agree S n { c with stream := c.stream.ret x r } (d.ret x r) :=
  ⟨h.size, h.valid, h.cachedError, h.directError, h.st, congrArg ((x, r) :: ·) h.rets⟩

/-- A function of the stream that is called on what both writers wrote. -/
theorem Agree.afterFlush (hS : S.AcceptsAll) (h : Agree S n c d)
    {f : Stream σ β → Stream σ β × Int} {g : σ → σ × Int}
    (hf : ∀ s, f s = ({ s with st := (g s.st).1 }, (g s.st).2)) :
    Agree S n (c.afterFlush S f).1 (f d).1 ∧ (c.afterFlush S f).2 = (f d).2 := by
  obtain ⟨hd, hempty⟩ := fsSimpleCacheFlush_delays hS h.cachedError h.valid
  have hst : d.st = (c.fsSimpleCacheFlush S).stream.st := by
    have := hd.st
    rw [hempty] at this
    exact (this.trans h.st.symm).symm
  unfold SimpleCache.afterFlush
  simp only [hf, hst]
  refine ⟨⟨hd.size.trans h.size, hd.valid, ?_, h.directError, ?_, ?_⟩, trivial⟩
  · exact hd.error ▸ h.cachedError
  · dsimp only
    rw [hempty]
    exact (if_pos rfl).symm
  · exact h.rets.trans hd.rets.symm

/-- The call is not a write of nothing. -/
def Call.NonEmpty : Call β → Prop
  | write buf => buf ≠ []
  | _ => True

theorem Agree.call {x : Call β} (hS : S.AcceptsAll) (h : Agree S n c d) (hx : x.NonEmpty) :
    Agree S n (c.call S x) (directCall S d x) := by
  have hstep : Agree S n (c.fsSimpleCache S x).1 (fsDirectWrite S d x).1 ∧
      (c.fsSimpleCache S x).2 = (fsDirectWrite S d x).2 := by
    cases x with
    | write buf =>
      obtain ⟨hr, hd⟩ := fsSimpleCacheWrite_delays hS h.cachedError h.valid hx
      obtain ⟨hr', hst, herr, hrets⟩ := fileWriter_accepts hS h.directError buf
      refine ⟨⟨hd.size.trans h.size, hd.valid, hd.error ▸ h.cachedError, herr ▸ h.directError, ?_, ?_⟩, hr.trans hr'.symm⟩
      · refine hst.trans (Eq.trans ?_ hd.st.symm)
        rw [← h.st]
        exact (if_neg hx).symm
      · exact hrets.trans (h.rets.trans hd.rets.symm)
    | seek nOffset fromWhere =>
      exact h.afterFlush hS (g := fun st => S.seek st nOffset fromWhere) fun _ => rfl
    | tell => exact h.afterFlush hS (g := S.tell) fun _ => rfl
    | truncate nLength =>
      exact h.afterFlush hS (g := fun st => S.truncate st nLength) fun _ => rfl
    | flush =>
      obtain ⟨hd, -⟩ := fsSimpleCacheFlush_delays hS h.cachedError h.valid
      exact ⟨⟨hd.size.trans h.size, hd.valid, hd.error ▸ h.cachedError, h.directError, h.st.trans hd.st.symm,
        h.rets.trans hd.rets.symm⟩, rfl⟩
  unfold SimpleCache.call directCall
  rw [hstep.2]
  exact hstep.1.ret

theorem Agree.calls {xs : List (Call β)} (hS : S.AcceptsAll) (h : Agree S n c d)
    (hne : ∀ x ∈ xs, x.NonEmpty) :
    Agree S n (xs.foldl (SimpleCache.call S) c) (xs.foldl (directCall S) d) := by
  induction xs generalizing c d with
  | nil => exact h
  | cons x xs ih =>
    obtain ⟨hx, hne⟩ := List.forall_mem_cons.1 hne
    exact ih (h.call hS hx) hne

/-- **The simple cache is invisible**: on a stream that takes everything, the
writer with the cache leaves, once it is destroyed, the stream that the direct
writer leaves after the same calls, and every call returned the same. Between
two calls the cache is never full. -/
theorem simpleCache_eq_direct {nCacheSize : Int} {callback : Bool} {xs : List (Call β)}
    (hS : S.AcceptsAll) (hinit : initFsSimpleCache (.opened st callback) nCacheSize = some c)
    (hne : ∀ x ∈ xs, x.NonEmpty) :
    ((xs.foldl (SimpleCache.call S) c).deinitFsSimpleCache S).st =
        (xs.foldl (directCall S) (.opened st callback)).st ∧
      rets ((xs.foldl (SimpleCache.call S) c).deinitFsSimpleCache S).events =
        rets (xs.foldl (directCall S) (.opened st callback)).events ∧
      ∀ pre, pre <+: xs → (pre.foldl (SimpleCache.call S) c).cache.length < nCacheSize := by
  unfold initFsSimpleCache at hinit
  split at hinit
  · cases hinit
  rename_i hpos
  cases hinit
  have h0 : Agree S nCacheSize.toNat ⟨.opened st callback, nCacheSize.toNat, []⟩ (.opened st callback) :=
    ⟨rfl, by dsimp only [List.length_nil]; omega, opened_writeError_ne, opened_writeError_ne,
      (if_pos rfl).symm, rfl⟩
  have hend := h0.calls hS hne
  obtain ⟨hd, hempty⟩ := fsSimpleCacheFlush_delays hS hend.cachedError hend.valid
  refine ⟨?_, hd.rets.trans hend.rets.symm, fun pre hpre => ?_⟩
  · have := hd.st
    rw [hempty] at this
    exact this.trans hend.st.symm
  · have hpre := h0.calls hS fun x hx => hne x (hpre.subset hx)
    have hlt := hpre.valid
    rw [hpre.size] at hlt
    omega

end

/-- A header is written, some data, and the header again with its length. -/
def headerPatched : List (Call UInt8) :=
  [.write [0, 0], .write [7, 8, 9, 10, 11, 12, 13], .tell, .seek 0 0, .write [0, 7], .flush]

theorem simpleCache_eq_direct_headerPatched :
    ∃ c, initFsSimpleCache (.opened ⟨[], 0⟩ false) 4 = some c ∧
      ((headerPatched.foldl (SimpleCache.call fileOps) c).deinitFsSimpleCache fileOps).st =
        ⟨[0, 7, 7, 8, 9, 10, 11, 12, 13], 2⟩ := by
  have hinit : initFsSimpleCache (.opened (⟨[], 0⟩ : File) false) 4 =
      some ⟨.opened ⟨[], 0⟩ false, 4, ([] : List UInt8)⟩ := rfl
  have hne : ∀ x ∈ headerPatched, x.NonEmpty := by simp [headerPatched, Call.NonEmpty]
  have h := simpleCache_eq_direct fileOps_acceptsAll hinit hne
  exact ⟨_, hinit, h.1.trans (by decide +kernel)⟩

end Melis.FsWriter
