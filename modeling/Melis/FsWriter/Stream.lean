import Mathlib.Data.List.Basic

/-!
# The stream under a file writer

The muxers write through an `FsWriter`, which writes to a `struct
cdx_stream_info`. The stream's functions are pointers, so they are a parameter
here (`StreamOps`). `fileWriter` is the only way to the stream's `write`.
`FileOps` is a file as an example of a stream.
-/

namespace Melis.FsWriter

/-- The functions of a `struct cdx_stream_info`, on the state of the stream. A
write returns how much it took, or a negative number. -/
structure StreamOps (σ β : Type) where
  write : σ → List β → σ × Int
  errno : σ → Int
  seek : σ → Int → Int → σ × Int
  tell : σ → σ × Int
  truncate : σ → Int → σ × Int

/-- The calls of an `FsWriter`. -/
inductive Call (β : Type) where
  | write (buf : List β)
  | seek (nOffset fromWhere : Int)
  | tell
  | truncate (nLength : Int)
  | flush
deriving DecidableEq

/-- A call of the stream's `write`, or the return of a call of the writer. -/
inductive Event (β : Type) where
  | streamWrite (buf : List β) (n : Int)
  | ret (c : Call β) (r : Int)
deriving DecidableEq

/-- `struct cdx_stream_info`. `callback` says whether a callback is set,
`notified` counts its calls; `events` is a ghost, the last event first. -/
structure Stream (σ β : Type) where
  st : σ
  writeErrcnt : Int
  writeError : Int
  callback : Bool
  notified : Nat
  events : List (Event β)

def EIO : Int := 5

variable {σ β : Type}

/-- The stream as `create_outstream_handle` leaves it. -/
def Stream.opened (st : σ) (callback : Bool) : Stream σ β := ⟨st, 0, 0, callback, 0, []⟩

theorem opened_writeError_ne {st : σ} {callback : Bool} :
    (Stream.opened st callback : Stream σ β).writeError ≠ EIO := by
  intro h
  cases h

/-- A call of the writer has returned. -/
def Stream.ret (s : Stream σ β) (c : Call β) (r : Int) : Stream σ β :=
  { s with events := .ret c r :: s.events }

def fileWriter (S : StreamOps σ β) (s : Stream σ β) (buf : List β) : Stream σ β × Int :=
  if s.writeError = EIO then (s, - EIO)
  else
    let r := S.write s.st buf
    let s' := { s with st := r.1, events := .streamWrite buf r.2 :: s.events }
    if r.2 ≠ buf.length then
      let e := S.errno r.1
      ({ s' with
          writeError := e
          writeErrcnt := s.writeErrcnt + 1
          notified := if (10 < s.writeErrcnt ∨ e = EIO) ∧ s.callback then s.notified + 1
            else s.notified }, r.2)
    else ({ s' with writeErrcnt := 0 }, r.2)

namespace Stream

/-- `pStream->seek`. -/
def seek (S : StreamOps σ β) (s : Stream σ β) (nOffset fromWhere : Int) : Stream σ β × Int :=
  ({ s with st := (S.seek s.st nOffset fromWhere).1 }, (S.seek s.st nOffset fromWhere).2)

/-- `pStream->tell`. -/
def tell (S : StreamOps σ β) (s : Stream σ β) : Stream σ β × Int :=
  ({ s with st := (S.tell s.st).1 }, (S.tell s.st).2)

/-- `pStream->truncate`. -/
def truncate (S : StreamOps σ β) (s : Stream σ β) (nLength : Int) : Stream σ β × Int :=
  ({ s with st := (S.truncate s.st nLength).1 }, (S.truncate s.st nLength).2)

end Stream

/-- The calls that returned, with their results. -/
def rets (es : List (Event β)) : List (Call β × Int) :=
  es.filterMap fun
    | .ret c r => some (c, r)
    | .streamWrite .. => none

/-- The bytes that went to the stream's `write`. -/
def written : List (Event β) → List β
  | [] => []
  | .streamWrite buf _ :: es => written es ++ buf
  | .ret .. :: es => written es

/-- The bytes of the writes that returned without an error. -/
def taken : List (Event β) → List β
  | [] => []
  | .ret (.write buf) r :: es => if 0 ≤ r then taken es ++ buf else taken es
  | _ :: es => taken es

theorem taken_ret {c : Call β} (hc : ∀ buf, c ≠ .write buf) (r : Int) (es : List (Event β)) :
    taken (.ret c r :: es) = taken es := by
  cases c with
  | write buf => exact absurd rfl (hc buf)
  | _ => rfl

theorem taken_ret_write (buf : List β) (n : Nat) (es : List (Event β)) :
    taken (.ret (.write buf) n :: es) = taken es ++ buf :=
  if_pos (Int.natCast_nonneg n)

theorem fileWriter_events (S : StreamOps σ β) (s : Stream σ β) (buf : List β) :
    s.writeError = EIO ∧ (fileWriter S s buf).1 = s ∨
      s.writeError ≠ EIO ∧
        (fileWriter S s buf).1.events = .streamWrite buf (S.write s.st buf).2 :: s.events := by
  unfold fileWriter
  split
  · rename_i h
    exact .inl ⟨h, rfl⟩
  · rename_i h
    refine .inr ⟨h, ?_⟩
    dsimp only
    split <;> rfl

theorem fileWriter_result {S : StreamOps σ β} {s : Stream σ β} (h : s.writeError ≠ EIO)
    (buf : List β) : (fileWriter S s buf).2 = (S.write s.st buf).2 := by
  unfold fileWriter
  rw [if_neg h]
  dsimp only
  split <;> rfl

/-! ## Streams that take everything -/

/-- The stream takes all of every write, and two writes in a row do what one
write of both does. -/
structure StreamOps.AcceptsAll (S : StreamOps σ β) : Prop where
  all : ∀ st buf, (S.write st buf).2 = buf.length
  append : ∀ st xs ys, (S.write (S.write st xs).1 ys).1 = (S.write st (xs ++ ys)).1

section

variable {S : StreamOps σ β} {s : Stream σ β}

theorem fileWriter_accepts (hS : S.AcceptsAll) (h : s.writeError ≠ EIO) (buf : List β) :
    (fileWriter S s buf).2 = buf.length ∧ (fileWriter S s buf).1.st = (S.write s.st buf).1 ∧
      (fileWriter S s buf).1.writeError = s.writeError ∧
      rets (fileWriter S s buf).1.events = rets s.events := by
  have hw : ¬ (S.write s.st buf).2 ≠ buf.length := not_not.2 (hS.all s.st buf)
  unfold fileWriter
  rw [if_neg h]
  dsimp only
  rw [if_neg hw]
  exact ⟨hS.all s.st buf, rfl, rfl, rfl⟩

end

/-! ## A file -/

/-- A file and the position in it. -/
structure File where
  bytes : List UInt8
  pos : Nat
deriving DecidableEq

namespace File

def write (f : File) (buf : List UInt8) : File :=
  let bytes := f.bytes ++ List.replicate (f.pos - f.bytes.length) 0
  ⟨bytes.take f.pos ++ buf ++ bytes.drop (f.pos + buf.length), f.pos + buf.length⟩

/-- `SEEK_SET`, `SEEK_CUR` and `SEEK_END`. -/
def seek (f : File) (nOffset fromWhere : Int) : File × Int :=
  let base : Int := if fromWhere = 0 then 0 else if fromWhere = 1 then f.pos else f.bytes.length
  if base + nOffset < 0 then (f, -1) else ({ f with pos := (base + nOffset).toNat }, 0)

def truncate (f : File) (nLength : Int) : File × Int :=
  if nLength < 0 then (f, -1)
  else
    let bytes := f.bytes ++ List.replicate (nLength.toNat - f.bytes.length) 0
    ({ f with bytes := bytes.take nLength.toNat }, 0)

theorem write_write (f : File) (xs ys : List UInt8) :
    (f.write xs).write ys = f.write (xs ++ ys) := by
  unfold write
  dsimp only
  generalize hp : f.bytes ++ List.replicate (f.pos - f.bytes.length) 0 = p
  have hlen : f.pos ≤ p.length := by
    rw [← hp, List.length_append, List.length_replicate]
    omega
  have hfst : (p.take f.pos ++ xs).length = f.pos + xs.length := by
    rw [List.length_append, List.length_take, Nat.min_eq_left hlen]
  generalize hq : p.take f.pos ++ xs ++ p.drop (f.pos + xs.length) = q
  have hpad : f.pos + xs.length - q.length = 0 := by
    rw [← hq, List.length_append, hfst]
    omega
  have htake : q.take (f.pos + xs.length) = p.take f.pos ++ xs := by
    rw [← hq, List.take_left' hfst]
  have hdrop : q.drop (f.pos + xs.length + ys.length) =
      p.drop (f.pos + (xs ++ ys).length) := by
    rw [← List.drop_drop, ← hq, List.drop_left' hfst, List.drop_drop, List.length_append,
      Nat.add_assoc]
  rw [hpad, List.replicate_zero, List.append_nil, htake, hdrop, List.length_append,
    List.append_assoc, List.append_assoc, List.append_assoc, List.append_assoc, Nat.add_assoc]

/-- A write at the end of the file appends. -/
theorem write_end (l buf : List UInt8) :
    (File.mk l l.length).write buf = ⟨l ++ buf, (l ++ buf).length⟩ := by
  simp [write]

/-- A write past the end of the file. -/
theorem write_past {l : List UInt8} {pos : Nat} (h : l.length ≤ pos) (buf : List UInt8) :
    (File.mk l pos).write buf =
      ⟨l ++ List.replicate (pos - l.length) 0 ++ buf, pos + buf.length⟩ := by
  have hlen : (l ++ List.replicate (pos - l.length) (0 : UInt8)).length = pos := by
    rw [List.length_append, List.length_replicate]
    omega
  unfold write
  dsimp only
  rw [List.take_of_length_le (Nat.le_of_eq hlen), List.drop_eq_nil_of_le (by omega), List.append_nil]

/-- A write in the middle of the file replaces as many bytes as it has. -/
theorem write_mid {m buf : List UInt8} (hm : m.length = buf.length) (l c : List UInt8) :
    (File.mk (l ++ m ++ c) l.length).write buf = ⟨l ++ buf ++ c, (l ++ buf).length⟩ := by
  have hpad : l.length - (l ++ m ++ c).length = 0 := by simp
  have htake : (l ++ m ++ c).take l.length = l := by
    rw [List.append_assoc, List.take_left]
  have hdrop : (l ++ m ++ c).drop (l.length + buf.length) = c := by
    rw [← hm, ← List.length_append, List.drop_left]
  unfold write
  dsimp only
  rw [hpad, List.replicate_zero, List.append_nil, htake, hdrop, List.length_append]

end File

/-- A file to which every write succeeds. -/
def fileOps : StreamOps File UInt8 where
  write f buf := (f.write buf, buf.length)
  errno _ := 0
  seek := File.seek
  tell f := (f, f.pos)
  truncate := File.truncate

theorem fileOps_acceptsAll : fileOps.AcceptsAll := ⟨fun _ _ => rfl, File.write_write⟩

end Melis.FsWriter
