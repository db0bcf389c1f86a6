import Melis.Lib.Ring
import Melis.Lib.Run

/-!
# The ring buffer of the device drivers

`ringbuffer.c`, and what its calls do to the bytes in the buffer. An index has a mirror bit, with
which an empty buffer is told from a full one. `ringbuffer_fifo_iff`: the calls are those of a
queue of `bufferSize` bytes, as long as no forced put flushes the buffer.
-/

namespace Melis.RtThread

open Lib

structure RtRingbuffer where
  bufferPtr : Nat → UInt8
  readMirror : Bool
  readIndex : Nat
  writeMirror : Bool
  writeIndex : Nat
  bufferSize : Nat

inductive RtRingbufferState
  | empty
  | full
  | halffull

/-- `RT_ALIGN_SIZE` is 4. -/
def rtRingbufferInit (pool : Nat → UInt8) (size : Nat) : RtRingbuffer where
  bufferPtr := pool
  readMirror := false
  readIndex := 0
  writeMirror := false
  writeIndex := 0
  bufferSize := size / 4 * 4

namespace RtRingbuffer

variable (rb : RtRingbuffer)

def status : RtRingbufferState :=
  if rb.readIndex = rb.writeIndex then
    if rb.readMirror = rb.writeMirror then .empty else .full
  else .halffull

def dataLen : Nat :=
  match rb.status with
  | .empty => 0
  | .full => rb.bufferSize
  | .halffull =>
    if rb.writeIndex > rb.readIndex then rb.writeIndex - rb.readIndex
    else rb.bufferSize - (rb.readIndex - rb.writeIndex)

def spaceLen : Nat := rb.bufferSize - rb.dataLen

/-- The copy into the buffer of `rt_ringbuffer_put` and `rt_ringbuffer_put_force`. -/
def copyIn (ptr : List UInt8) : RtRingbuffer :=
  let room := rb.bufferSize - rb.writeIndex
  if rb.bufferSize - rb.writeIndex > ptr.length then
    { rb with
      bufferPtr := Memory.memcpy rb.bufferPtr rb.writeIndex ptr
      writeIndex := rb.writeIndex + ptr.length }
  else
    { rb with
      bufferPtr :=
        Memory.memcpy (Memory.memcpy rb.bufferPtr rb.writeIndex (ptr.take room)) 0 (ptr.drop room)
      writeMirror := !rb.writeMirror
      writeIndex := ptr.length - room }

def put (ptr : List UInt8) : RtRingbuffer × Nat :=
  let size := rb.spaceLen
  if size = 0 then (rb, 0)
  else
    let length := if size < ptr.length then size else ptr.length
    (rb.copyIn (ptr.take length), length)

def putForce (ptr : List UInt8) : RtRingbuffer × Nat :=
  let spaceLength := rb.spaceLen
  let ptr := if ptr.length > rb.bufferSize then ptr.drop (ptr.length - rb.bufferSize) else ptr
  let rb' := rb.copyIn ptr
  if ptr.length > spaceLength then
    if rb.bufferSize - rb.writeIndex > ptr.length then
      ({ rb' with readIndex := rb'.writeIndex }, ptr.length)
    else ({ rb' with readMirror := !rb'.readMirror, readIndex := rb'.writeIndex }, ptr.length)
  else (rb', ptr.length)

def get (length : Nat) : RtRingbuffer × List UInt8 :=
  let size := rb.dataLen
  if size = 0 then (rb, [])
  else
    let length := if size < length then size else length
    let rest := rb.bufferSize - rb.readIndex
    if rb.bufferSize - rb.readIndex > length then
      ({ rb with readIndex := rb.readIndex + length },
        Memory.load rb.bufferPtr (List.range' rb.readIndex length))
    else
      ({ rb with readMirror := !rb.readMirror, readIndex := length - rest },
        Memory.load rb.bufferPtr (List.range' rb.readIndex rest) ++
          Memory.load rb.bufferPtr (List.range' 0 (length - rest)))

/-- The store of `rt_ringbuffer_putchar` and `rt_ringbuffer_putchar_force`. -/
def charIn (ch : UInt8) : RtRingbuffer :=
  let buffer := Function.update rb.bufferPtr rb.writeIndex ch
  if rb.writeIndex = rb.bufferSize - 1 then
    { rb with bufferPtr := buffer, writeMirror := !rb.writeMirror, writeIndex := 0 }
  else { rb with bufferPtr := buffer, writeIndex := rb.writeIndex + 1 }

def putchar (ch : UInt8) : RtRingbuffer × Nat :=
  if rb.spaceLen = 0 then (rb, 0) else (rb.charIn ch, 1)

def putcharForce (ch : UInt8) : RtRingbuffer × Nat :=
  let rb' := rb.charIn ch
  match rb.status with
  | .full =>
    if rb.writeIndex = rb.bufferSize - 1 then
      ({ rb' with readMirror := !rb'.readMirror, readIndex := rb'.writeIndex }, 1)
    else ({ rb' with readIndex := rb'.writeIndex }, 1)
  | _ => (rb', 1)

def getchar : RtRingbuffer × List UInt8 :=
  if rb.dataLen = 0 then (rb, [])
  else
    let ch := rb.bufferPtr rb.readIndex
    if rb.readIndex = rb.bufferSize - 1 then
      ({ rb with readMirror := !rb.readMirror, readIndex := 0 }, [ch])
    else ({ rb with readIndex := rb.readIndex + 1 }, [ch])

def reset : RtRingbuffer :=
  { rb with readMirror := false, readIndex := 0, writeMirror := false, writeIndex := 0 }

end RtRingbuffer

/-! ## Calls -/

namespace Ringbuffer

inductive Call
  | put (ptr : List UInt8)
  | putForce (ptr : List UInt8)
  | putchar (ch : UInt8)
  | putcharForce (ch : UInt8)
  | get (length : Nat)
  | getchar
  | reset

/-- The buffer after a call, the number of bytes it has put, and the bytes it has got. -/
def call (rb : RtRingbuffer) : Call → RtRingbuffer × Nat × List UInt8
  | .put ptr => ((rb.put ptr).1, (rb.put ptr).2, [])
  | .putForce ptr => ((rb.putForce ptr).1, (rb.putForce ptr).2, [])
  | .putchar ch => ((rb.putchar ch).1, (rb.putchar ch).2, [])
  | .putcharForce ch => ((rb.putcharForce ch).1, (rb.putcharForce ch).2, [])
  | .get length => ((rb.get length).1, 0, (rb.get length).2)
  | .getchar => (rb.getchar.1, 0, rb.getchar.2)
  | .reset => (rb.reset, 0, [])

def machine : Machine RtRingbuffer Call := ⟨fun rb c => some (call rb c).1⟩

/-- The last `N` of the bytes. -/
def lastOf (N : Nat) (bytes : List UInt8) : List UInt8 := bytes.drop (bytes.length - N)

/-- The same calls to a queue of at most `N` bytes. -/
def fifoCall (N : Nat) (queue : List UInt8) : Call → List UInt8 × Nat × List UInt8
  | .put ptr => (queue ++ ptr.take (N - queue.length), min (N - queue.length) ptr.length, [])
  | .putForce ptr => (lastOf N (queue ++ ptr), min N ptr.length, [])
  | .putchar ch => (queue ++ [ch].take (N - queue.length), min (N - queue.length) 1, [])
  | .putcharForce ch => (lastOf N (queue ++ [ch]), 1, [])
  | .get length => (queue.drop length, 0, queue.take length)
  | .getchar => (queue.drop 1, 0, queue.take 1)
  | .reset => ([], 0, [])

end Ringbuffer

/-! ## What a buffer holds -/

namespace RtRingbuffer

variable {rb : RtRingbuffer} {n : Nat} {ptr : List UInt8} {ch : UInt8}

/-- The buffer holds `n` bytes. The write index is `n` places ahead of the read index, in the other
mirror if it has gone around the end. -/
structure Holds (rb : RtRingbuffer) (n : Nat) : Prop where
  read_lt : rb.readIndex < rb.bufferSize
  write_lt : rb.writeIndex < rb.bufferSize
  le : n ≤ rb.bufferSize
  same : rb.readMirror = rb.writeMirror → rb.writeIndex = rb.readIndex + n
  other : rb.readMirror ≠ rb.writeMirror → rb.writeIndex + rb.bufferSize = rb.readIndex + n

def content (rb : RtRingbuffer) : List UInt8 :=
  Ring.read rb.bufferPtr rb.bufferSize rb.readIndex rb.dataLen

theorem Holds.dataLen_eq (h : rb.Holds n) : rb.dataLen = n := by
  have hr := h.read_lt
  have hw := h.write_lt
  have hle := h.le
  unfold dataLen status
  by_cases hm : rb.readMirror = rb.writeMirror
  · have hsame := h.same hm
    by_cases hi : rb.readIndex = rb.writeIndex
    · simp only [hi, hm, if_true]
      omega
    · simp only [hi, if_false]
      split <;> omega
  · have hother := h.other hm
    by_cases hi : rb.readIndex = rb.writeIndex
    · simp only [hi, hm, if_true, if_false]
      omega
    · simp only [hi, if_false]
      split <;> omega

theorem Holds.content_eq (h : rb.Holds n) :
    rb.content = Ring.read rb.bufferPtr rb.bufferSize rb.readIndex n := by
  rw [content, h.dataLen_eq]

theorem Holds.length_content (h : rb.Holds n) : rb.content.length = n := by
  rw [h.content_eq, Ring.length_read]

theorem Holds.spaceLen_eq (h : rb.Holds n) : rb.spaceLen = rb.bufferSize - n := by
  rw [spaceLen, h.dataLen_eq]

theorem Holds.write_eq (h : rb.Holds n) :
    rb.writeIndex = (rb.readIndex + n) % rb.bufferSize := by
  have hw := h.write_lt
  by_cases hm : rb.readMirror = rb.writeMirror
  · have hsame := h.same hm
    rw [← hsame, Nat.mod_eq_of_lt hw]
  · have hother := h.other hm
    rw [← hother, Nat.add_mod_right, Nat.mod_eq_of_lt hw]

theorem holds_empty (hN : 0 < rb.bufferSize) (hr : rb.readIndex = 0) (hw : rb.writeIndex = 0)
    (hm : rb.readMirror = rb.writeMirror) : rb.Holds 0 where
  read_lt := by omega
  write_lt := by omega
  le := Nat.zero_le _
  same _ := by omega
  other hne := absurd hm hne

/-! ## The copy into the buffer -/

theorem copyIn_bufferPtr (hw : rb.writeIndex < rb.bufferSize) (hlen : ptr.length ≤ rb.bufferSize) :
    (rb.copyIn ptr).bufferPtr = Ring.write rb.bufferPtr rb.bufferSize rb.writeIndex ptr := by
  rw [copyIn]
  by_cases h : rb.bufferSize - rb.writeIndex > ptr.length
  · rw [if_pos h]
    exact (Ring.write_eq_memcpy (by omega)).symm
  · rw [if_neg h]
    have hfirst : (ptr.take (rb.bufferSize - rb.writeIndex)).length = rb.bufferSize - rb.writeIndex :=
      List.length_take_of_le (by omega)
    have hend : rb.writeIndex + (rb.bufferSize - rb.writeIndex) = rb.bufferSize := by omega
    have hrest : (ptr.drop (rb.bufferSize - rb.writeIndex)).length =
        ptr.length - (rb.bufferSize - rb.writeIndex) := List.length_drop
    conv_rhs => rw [← List.take_append_drop (rb.bufferSize - rb.writeIndex) ptr]
    rw [Ring.write_append, hfirst, hend, ← Ring.write_mod _ _ rb.bufferSize, Nat.mod_self,
      Ring.write_eq_memcpy (p := 0) (by omega), Ring.write_eq_memcpy (by omega)]

@[simp] theorem copyIn_bufferSize : (rb.copyIn ptr).bufferSize = rb.bufferSize := by
  rw [copyIn]
  split <;> rfl

@[simp] theorem copyIn_readIndex : (rb.copyIn ptr).readIndex = rb.readIndex := by
  rw [copyIn]
  split <;> rfl

@[simp] theorem copyIn_readMirror : (rb.copyIn ptr).readMirror = rb.readMirror := by
  rw [copyIn]
  split <;> rfl

theorem copyIn_writeIndex (hw : rb.writeIndex < rb.bufferSize) (hlen : ptr.length ≤ rb.bufferSize) :
    (rb.copyIn ptr).writeIndex < rb.bufferSize ∧
      if rb.bufferSize - rb.writeIndex > ptr.length then
        (rb.copyIn ptr).writeIndex = rb.writeIndex + ptr.length ∧
          (rb.copyIn ptr).writeMirror = rb.writeMirror
      else (rb.copyIn ptr).writeIndex + rb.bufferSize = rb.writeIndex + ptr.length ∧
          (rb.copyIn ptr).writeMirror = !rb.writeMirror := by
  rw [copyIn]
  by_cases h : rb.bufferSize - rb.writeIndex > ptr.length
  · simp only [h, if_true]
    exact ⟨by omega, trivial, trivial⟩
  · simp only [h, if_false]
    exact ⟨by omega, by omega, trivial⟩

/-- What fits is put behind the content. -/
theorem Holds.copyIn (h : rb.Holds n) (hfit : n + ptr.length ≤ rb.bufferSize) :
    (rb.copyIn ptr).Holds (n + ptr.length) ∧ (rb.copyIn ptr).content = rb.content ++ ptr := by
  have hlen : ptr.length ≤ rb.bufferSize := by omega
  obtain ⟨hlt, hindex⟩ := copyIn_writeIndex h.write_lt hlen
  have hholds : (rb.copyIn ptr).Holds (n + ptr.length) := by
    refine ⟨?_, ?_, ?_, ?_, ?_⟩ <;>
      simp only [copyIn_bufferSize, copyIn_readIndex, copyIn_readMirror]
    · exact h.read_lt
    · exact hlt
    · exact hfit
    all_goals
      intro hm
      have hr := h.read_lt
      have hsame := h.same
      have hother := h.other
      split at hindex <;> obtain ⟨hi, hmirror⟩ := hindex <;> rw [hmirror] at hm <;>
        cases hrm : rb.readMirror <;> cases hwm : rb.writeMirror <;>
        simp [hrm, hwm] at hm hsame hother <;> omega
  refine ⟨hholds, ?_⟩
  rw [hholds.content_eq, h.content_eq, copyIn_bufferPtr h.write_lt hlen, copyIn_bufferSize,
    copyIn_readIndex, h.write_eq, Ring.write_mod]
  exact Ring.read_write_append hfit

/-! ## Gets and puts -/

theorem Holds.empty (h : rb.Holds 0) : rb.content = [] := List.eq_nil_of_length_eq_zero h.length_content

theorem Holds.put (h : rb.Holds n) (ptr : List UInt8) :
    (rb.put ptr).1.Holds (n + (rb.put ptr).2) ∧
      (rb.put ptr).1.content = rb.content ++ ptr.take (rb.bufferSize - n) ∧
        (rb.put ptr).2 = min (rb.bufferSize - n) ptr.length := by
  rw [RtRingbuffer.put, h.spaceLen_eq]
  by_cases hfull : rb.bufferSize - n = 0
  · rw [if_pos hfull, hfull]
    simpa using h
  · rw [if_neg hfull]
    have hlen : (if rb.bufferSize - n < ptr.length then rb.bufferSize - n else ptr.length) =
        min (rb.bufferSize - n) ptr.length := by
      split <;> omega
    have htake : ptr.take (min (rb.bufferSize - n) ptr.length) = ptr.take (rb.bufferSize - n) :=
      List.take_eq_take_min.symm
    have hcount : (ptr.take (rb.bufferSize - n)).length = min (rb.bufferSize - n) ptr.length :=
      List.length_take
    have hle := h.le
    have hfit : n + (ptr.take (rb.bufferSize - n)).length ≤ rb.bufferSize := by omega
    obtain ⟨hholds, hcontent⟩ := h.copyIn hfit
    rw [hcount] at hholds
    simp only [hlen, htake]
    exact ⟨hholds, hcontent, trivial⟩

theorem Holds.get (h : rb.Holds n) (length : Nat) :
    (rb.get length).1.Holds (n - length) ∧ (rb.get length).1.content = rb.content.drop length ∧
      (rb.get length).2 = rb.content.take length := by
  have hr := h.read_lt
  have hw := h.write_lt
  have hle := h.le
  rw [RtRingbuffer.get, h.dataLen_eq]
  by_cases h0 : n = 0
  · subst h0
    rw [if_pos rfl, Nat.zero_sub, h.empty, List.drop_nil, List.take_nil]
    exact ⟨h, rfl, rfl⟩
  rw [if_neg h0]
  generalize hk : (if n < length then n else length) = k
  have hkn : k ≤ n := by split at hk <;> omega
  have hrest : n - length = n - k := by split at hk <;> omega
  have hread : rb.content = Ring.read rb.bufferPtr rb.bufferSize rb.readIndex k ++
      Ring.read rb.bufferPtr rb.bufferSize (rb.readIndex + k) (n - k) := by
    rw [h.content_eq, ← Ring.read_add, Nat.add_sub_of_le hkn]
  have hmin : min length rb.content.length = min k rb.content.length := by
    rw [h.length_content]
    split at hk <;> omega
  have htake : rb.content.take length = Ring.read rb.bufferPtr rb.bufferSize rb.readIndex k := by
    rw [List.take_eq_take_iff.mpr hmin, hread]
    exact List.take_left' (Ring.length_read ..)
  have hdrop : rb.content.drop length =
      Ring.read rb.bufferPtr rb.bufferSize (rb.readIndex + k) (n - k) := by
    rw [List.drop_eq_drop_iff.mpr hmin, hread]
    exact List.drop_left' (Ring.length_read ..)
  rw [hrest, htake, hdrop]
  simp only
  by_cases hc : rb.bufferSize - rb.readIndex > k
  · rw [if_pos hc]
    have hholds : Holds { rb with readIndex := rb.readIndex + k } (n - k) := by
      refine ⟨by simp only; omega, hw, by simp only; omega, fun hm => ?_, fun hm => ?_⟩
      · have hsame := h.same hm
        simp only
        omega
      · have hother := h.other hm
        simp only
        omega
    exact ⟨hholds, hholds.content_eq, (Ring.read_eq_load (by omega)).symm⟩
  · rw [if_neg hc]
    have hindex : k - (rb.bufferSize - rb.readIndex) + rb.bufferSize = rb.readIndex + k := by omega
    have hholds : Holds { rb with
        readMirror := !rb.readMirror
        readIndex := k - (rb.bufferSize - rb.readIndex) } (n - k) := by
      refine ⟨by simp only; omega, hw, by simp only; omega, fun hm => ?_, fun hm => ?_⟩
      · have hother := h.other fun he => by simp [he] at hm
        simp only
        omega
      · have hsame := h.same (by cases hrm : rb.readMirror <;> simp_all)
        simp only
        omega
    refine ⟨hholds, ?_, ?_⟩
    · rw [hholds.content_eq, ← hindex, ← Ring.read_mod _ _ (_ + _), Nat.add_mod_right,
        Ring.read_mod]
    · have hend : rb.readIndex + (rb.bufferSize - rb.readIndex) = rb.bufferSize := by omega
      have hsum : rb.bufferSize - rb.readIndex + (k - (rb.bufferSize - rb.readIndex)) = k := by omega
      conv_rhs => rw [← hsum, Ring.read_add, hend, ← Ring.read_mod _ _ rb.bufferSize, Nat.mod_self]
      rw [Ring.read_eq_load (by omega), Ring.read_eq_load (by omega)]

/-! ## Single bytes -/

theorem charIn_eq (hw : rb.writeIndex < rb.bufferSize) : rb.charIn ch = rb.copyIn [ch] := by
  rw [charIn, RtRingbuffer.copyIn, List.length_singleton]
  by_cases hlast : rb.writeIndex = rb.bufferSize - 1
  · have hroom : rb.bufferSize - rb.writeIndex = 1 := by omega
    rw [if_pos hlast, hroom]
    rfl
  · have hroom : rb.bufferSize - rb.writeIndex > 1 := by omega
    rw [if_neg hlast, if_pos hroom]
    rfl

theorem Holds.putchar_eq (h : rb.Holds n) : rb.putchar ch = rb.put [ch] := by
  rw [putchar, RtRingbuffer.put, charIn_eq h.write_lt]
  by_cases hfull : rb.spaceLen = 0
  · rw [if_pos hfull, if_pos hfull]
  · have hroom : ¬ rb.spaceLen < [ch].length := fun hlt => hfull (Nat.lt_one_iff.mp hlt)
    rw [if_neg hfull, if_neg hfull]
    simp only [if_neg hroom]
    rfl

theorem Holds.getchar_eq (h : rb.Holds n) : rb.getchar = rb.get 1 := by
  have hr := h.read_lt
  rw [getchar, RtRingbuffer.get]
  by_cases h0 : rb.dataLen = 0
  · rw [if_pos h0, if_pos h0]
  · have hlen : (if rb.dataLen < 1 then rb.dataLen else 1) = 1 := if_neg (by omega)
    rw [if_neg h0, if_neg h0]
    simp only [hlen]
    by_cases hlast : rb.readIndex = rb.bufferSize - 1
    · have hroom : rb.bufferSize - rb.readIndex = 1 := by omega
      rw [if_pos hlast, hroom]
      rfl
    · have hroom : rb.bufferSize - rb.readIndex > 1 := by omega
      rw [if_neg hlast, if_pos hroom]
      rfl

theorem Holds.putcharForce_eq (h : rb.Holds n) : rb.putcharForce ch = rb.putForce [ch] := by
  have hr := h.read_lt
  have hw := h.write_lt
  have hle := h.le
  have hlen : ¬ [ch].length > rb.bufferSize := by
    rw [List.length_singleton]
    omega
  rw [putcharForce, putForce, if_neg hlen, charIn_eq hw, h.spaceLen_eq,
    List.length_singleton]
  by_cases hfull : n = rb.bufferSize
  · have hm : rb.readMirror ≠ rb.writeMirror := fun hm => by
      have := h.same hm
      omega
    have hi : rb.readIndex = rb.writeIndex := by
      have := h.other hm
      omega
    have hstatus : rb.status = .full := by rw [status, if_pos hi, if_neg hm]
    have hover : 1 > rb.bufferSize - n := by omega
    simp only [hstatus, if_pos hover]
    by_cases hlast : rb.writeIndex = rb.bufferSize - 1
    · have hroom : ¬ rb.bufferSize - rb.writeIndex > 1 := by omega
      rw [if_pos hlast, if_neg hroom]
    · have hroom : rb.bufferSize - rb.writeIndex > 1 := by omega
      rw [if_neg hlast, if_pos hroom]
  · have hover : ¬ 1 > rb.bufferSize - n := by omega
    have hstatus : rb.status ≠ .full := by
      rw [status]
      split
      · case isTrue hi =>
        split
        · simp
        · case isFalse hm =>
          have := h.other hm
          omega
      · simp
    rw [if_neg hover]
    cases hs : rb.status with
    | full => exact absurd hs hstatus
    | empty => rfl
    | halffull => rfl

/-! ## Forced puts -/

open Ringbuffer (lastOf)

theorem lastOf_of_le {N : Nat} (h : ptr.length ≤ N) : lastOf N ptr = ptr := by
  rw [lastOf, Nat.sub_eq_zero_of_le h, List.drop_zero]

theorem length_lastOf (N : Nat) (ptr : List UInt8) : (lastOf N ptr).length = min N ptr.length := by
  rw [lastOf, List.length_drop]
  omega

/-- The last bytes of two lists are those of the second, behind what is left of the first. -/
theorem lastOf_append (N : Nat) (xs ys : List UInt8) :
    lastOf N (xs ++ ys) = xs.drop (xs.length + (lastOf N ys).length - N) ++ lastOf N ys := by
  rw [length_lastOf, lastOf, List.drop_append, List.length_append, lastOf]
  by_cases h : ys.length ≤ N
  · have hfirst : xs.length + ys.length - N = xs.length + min N ys.length - N := by omega
    have hsecond : xs.length + ys.length - N - xs.length = ys.length - N := by omega
    rw [hsecond, hfirst]
  · have hfirst : xs.length ≤ xs.length + ys.length - N := by omega
    have hfirst' : xs.length ≤ xs.length + min N ys.length - N := by omega
    have hsecond : xs.length + ys.length - N - xs.length = ys.length - N := by omega
    rw [hsecond, List.drop_of_length_le hfirst, List.drop_of_length_le hfirst']

/-- A forced put that has too little room flushes the buffer where the content does not go around
the end: it turns the mirror of the read index too. -/
def Flushes (rb : RtRingbuffer) (ptr : List UInt8) : Prop :=
  rb.readMirror = rb.writeMirror ∧ rb.content ≠ [] ∧
    rb.bufferSize < rb.content.length + ptr.length

instance (rb : RtRingbuffer) (ptr : List UInt8) : Decidable (rb.Flushes ptr) :=
  inferInstanceAs (Decidable (_ ∧ _ ∧ _))

theorem putForce_eq (rb : RtRingbuffer) (ptr : List UInt8) : rb.putForce ptr =
    let last := lastOf rb.bufferSize ptr
    (if last.length > rb.spaceLen then
      if rb.bufferSize - rb.writeIndex > last.length then
        { rb.copyIn last with readIndex := (rb.copyIn last).writeIndex }
      else
        { rb.copyIn last with
          readMirror := !(rb.copyIn last).readMirror
          readIndex := (rb.copyIn last).writeIndex }
    else rb.copyIn last, last.length) := by
  have hlast : (if ptr.length > rb.bufferSize then ptr.drop (ptr.length - rb.bufferSize) else ptr) =
      lastOf rb.bufferSize ptr := by
    split
    · rfl
    · case isFalse h => exact (lastOf_of_le (Nat.le_of_not_lt h)).symm
  rw [putForce, hlast]
  simp only
  split
  · split <;> rfl
  · rfl

theorem putForce_count (rb : RtRingbuffer) (ptr : List UInt8) :
    (rb.putForce ptr).2 = min rb.bufferSize ptr.length := by
  rw [putForce_eq]
  exact length_lastOf _ _

/-- What overflows the buffer is put over its oldest bytes. -/
theorem Holds.putForce_over (h : rb.Holds n) (hm : rb.readMirror ≠ rb.writeMirror)
    (hover : (lastOf rb.bufferSize ptr).length > rb.bufferSize - n) :
    (rb.putForce ptr).1.Holds rb.bufferSize ∧
      (rb.putForce ptr).1.content = lastOf rb.bufferSize (rb.content ++ ptr) := by
  have hr := h.read_lt
  have hle := h.le
  have hother := h.other hm
  have hlen : (lastOf rb.bufferSize ptr).length ≤ rb.bufferSize := by
    rw [length_lastOf]
    exact Nat.min_le_left ..
  obtain ⟨hlt, hindex⟩ := copyIn_writeIndex h.write_lt hlen
  have hfull : ∀ rb' : RtRingbuffer, rb'.bufferSize = rb.bufferSize →
      rb'.bufferPtr = (rb.copyIn (lastOf rb.bufferSize ptr)).bufferPtr →
      rb'.readIndex = (rb.copyIn (lastOf rb.bufferSize ptr)).writeIndex →
      rb'.writeIndex = (rb.copyIn (lastOf rb.bufferSize ptr)).writeIndex →
      rb'.readMirror ≠ rb'.writeMirror →
      rb'.Holds rb.bufferSize ∧ rb'.content = lastOf rb.bufferSize (rb.content ++ ptr) := by
    intro rb' hsize hbuf hread hwrite hne
    have hholds : rb'.Holds rb.bufferSize :=
      ⟨by omega, by omega, by omega, fun he => absurd he hne, fun _ => by omega⟩
    refine ⟨hholds, ?_⟩
    obtain ⟨m, hsum⟩ : ∃ m, n + (lastOf rb.bufferSize ptr).length = rb.bufferSize + m :=
      ⟨n + (lastOf rb.bufferSize ptr).length - rb.bufferSize, by omega⟩
    have hpos : (rb.copyIn (lastOf rb.bufferSize ptr)).writeIndex % rb.bufferSize =
        (rb.readIndex + m) % rb.bufferSize := by
      split at hindex
      · have hi : rb.readIndex + m = (rb.copyIn (lastOf rb.bufferSize ptr)).writeIndex := by omega
        rw [hi]
      · have hi : rb.readIndex + m =
            (rb.copyIn (lastOf rb.bufferSize ptr)).writeIndex + rb.bufferSize := by omega
        rw [hi, Nat.add_mod_right]
    have hlost : rb.content.length + (lastOf rb.bufferSize ptr).length - rb.bufferSize = m := by
      rw [h.length_content]
      omega
    rw [hholds.content_eq, hsize, hbuf, hread, copyIn_bufferPtr h.write_lt hlen, ← Ring.read_mod,
      hpos, Ring.read_mod, h.write_eq, Ring.write_mod, Ring.read_write_over hlen hsum,
      lastOf_append, hlost, h.content_eq]
  rw [putForce_eq, h.spaceLen_eq]
  simp only [if_pos hover]
  split
  · case isTrue hroom =>
    rw [if_pos hroom] at hindex
    apply hfull <;> simp [hindex.2, hm]
  · case isFalse hroom =>
    rw [if_neg hroom] at hindex
    apply hfull <;> simp [hindex.2, hm]

theorem Holds.putForce_flush (h : rb.Holds n) (hm : rb.readMirror = rb.writeMirror)
    (hover : (lastOf rb.bufferSize ptr).length > rb.bufferSize - n) :
    (rb.putForce ptr).1.Holds 0 ∧ (rb.putForce ptr).1.content = [] := by
  have hsame := h.same hm
  have hw := h.write_lt
  have hlen : (lastOf rb.bufferSize ptr).length ≤ rb.bufferSize := by
    rw [length_lastOf]
    exact Nat.min_le_left ..
  obtain ⟨hlt, hindex⟩ := copyIn_writeIndex h.write_lt hlen
  have hroom : ¬ rb.bufferSize - rb.writeIndex > (lastOf rb.bufferSize ptr).length := by omega
  rw [if_neg hroom] at hindex
  rw [putForce_eq, h.spaceLen_eq]
  simp only [if_pos hover, if_neg hroom]
  have hholds : Holds { rb.copyIn (lastOf rb.bufferSize ptr) with
      readMirror := !(rb.copyIn (lastOf rb.bufferSize ptr)).readMirror
      readIndex := (rb.copyIn (lastOf rb.bufferSize ptr)).writeIndex } 0 := by
    refine ⟨?_, ?_, Nat.zero_le _, fun _ => rfl, fun hne => absurd ?_ hne⟩
    · rw [copyIn_bufferSize]
      exact hlt
    · rw [copyIn_bufferSize]
      exact hlt
    · simp [hindex.2, hm]
  exact ⟨hholds, hholds.empty⟩

/-- A forced put keeps the last bytes, or flushes the buffer. -/
theorem Holds.putForce (h : rb.Holds n) (ptr : List UInt8) :
    (∃ m, (rb.putForce ptr).1.Holds m) ∧
      (rb.Flushes ptr → (rb.putForce ptr).1.content = []) ∧
      (¬ rb.Flushes ptr → (rb.putForce ptr).1.content = lastOf rb.bufferSize (rb.content ++ ptr)) := by
  have hr := h.read_lt
  have hle := h.le
  have hlast := length_lastOf rb.bufferSize ptr
  have hnil : rb.content = [] ↔ n = 0 := by rw [← h.length_content, List.length_eq_zero_iff]
  by_cases hover : (lastOf rb.bufferSize ptr).length > rb.bufferSize - n
  · by_cases hm : rb.readMirror = rb.writeMirror
    · obtain ⟨hholds, hcontent⟩ := h.putForce_flush hm hover
      have hflush : rb.Flushes ptr := by
        refine ⟨hm, fun he => ?_, ?_⟩
        · have := hnil.mp he
          omega
        · rw [h.length_content]
          omega
      exact ⟨⟨0, hholds⟩, fun _ => hcontent, fun hno => absurd hflush hno⟩
    · obtain ⟨hholds, hcontent⟩ := h.putForce_over hm hover
      exact ⟨⟨_, hholds⟩, fun hflush => absurd hflush.1 hm, fun _ => hcontent⟩
  · have hfit : n + (lastOf rb.bufferSize ptr).length ≤ rb.bufferSize := by omega
    obtain ⟨hholds, hcontent⟩ := h.copyIn hfit
    have hput : (rb.putForce ptr).1 = rb.copyIn (lastOf rb.bufferSize ptr) := by
      rw [putForce_eq, h.spaceLen_eq]
      exact if_neg hover
    have hlost : rb.content.length + (lastOf rb.bufferSize ptr).length - rb.bufferSize = 0 := by
      rw [h.length_content]
      omega
    rw [hput]
    refine ⟨⟨_, hholds⟩, fun hflush => ?_, fun _ => ?_⟩
    · have hne := mt hnil.mpr hflush.2.1
      have htoo := hflush.2.2
      rw [h.length_content] at htoo
      omega
    · rw [hcontent, lastOf_append, hlost, List.drop_zero]

end RtRingbuffer

/-! ## Runs -/

namespace Ringbuffer

/-- What a call does is what it does to the queue of the content. -/
def Fifo (rb : RtRingbuffer) (c : Call) (rb' : RtRingbuffer) : Prop :=
  fifoCall rb.bufferSize rb.content c = (rb'.content, (call rb c).2)

/-- A forced put that flushes the buffer. -/
def Call.Flushes (rb : RtRingbuffer) : Call → Prop
  | .putForce ptr => rb.Flushes ptr
  | .putcharForce ch => rb.Flushes [ch]
  | _ => False

instance (rb : RtRingbuffer) : ∀ c : Call, Decidable (c.Flushes rb)
  | .putForce ptr => inferInstanceAs (Decidable (rb.Flushes ptr))
  | .putcharForce ch => inferInstanceAs (Decidable (rb.Flushes [ch]))
  | .put _ | .putchar _ | .get _ | .getchar | .reset => .isFalse id

/-- The buffer is one that its calls can leave. -/
def Inv (rb : RtRingbuffer) : Prop := ∃ n, rb.Holds n

variable {rb : RtRingbuffer} {n : Nat} {c : Call}

/-- A call that does to the content what it does to the queue. -/
theorem exact_of_content (hinv : Inv (call rb c).1) (hret : (call rb c).2 =
      (fifoCall rb.bufferSize rb.content c).2)
    (hkept : ¬ c.Flushes rb → (call rb c).1.content = (fifoCall rb.bufferSize rb.content c).1)
    (hlost : c.Flushes rb → (call rb c).1.content ≠ (fifoCall rb.bufferSize rb.content c).1) :
    machine.Exact Inv (fun _ => True) Fifo (fun rb c => ¬ c.Flushes rb) rb c := by
  by_cases hflush : c.Flushes rb
  · refine .lost (not_not.mpr hflush) fun rb' hs hfifo _ => ?_
    obtain rfl := Option.some.inj hs
    exact hlost hflush (Prod.ext_iff.mp hfifo).1.symm
  · exact .kept hflush _ rfl (Prod.ext (hkept hflush).symm hret.symm) hinv

theorem exact_put (h : rb.Holds n) (ptr : List UInt8) :
    machine.Exact Inv (fun _ => True) Fifo (fun rb c => ¬ c.Flushes rb) rb (.put ptr) := by
  obtain ⟨hholds, hcontent, hcount⟩ := h.put ptr
  refine exact_of_content ⟨_, hholds⟩ ?_ (fun _ => ?_) fun hflush => hflush.elim
  · simp only [call, fifoCall, hcount, h.length_content]
  · simp only [call, fifoCall, hcontent, h.length_content]

theorem exact_putForce (h : rb.Holds n) (ptr : List UInt8) :
    machine.Exact Inv (fun _ => True) Fifo (fun rb c => ¬ c.Flushes rb) rb (.putForce ptr) := by
  obtain ⟨hholds, hflush, hkept⟩ := h.putForce ptr
  refine exact_of_content hholds ?_ hkept fun hf hcontent => ?_
  · simp only [call, fifoCall, RtRingbuffer.putForce_count]
  · have hnil : lastOf rb.bufferSize (rb.content ++ ptr) = [] := hcontent.symm.trans (hflush hf)
    have hlen := RtRingbuffer.length_lastOf rb.bufferSize (rb.content ++ ptr)
    have htoo := hf.2.2
    have hr := h.read_lt
    rw [hnil, List.length_append, List.length_nil] at hlen
    omega

theorem exact_get (h : rb.Holds n) (length : Nat) :
    machine.Exact Inv (fun _ => True) Fifo (fun rb c => ¬ c.Flushes rb) rb (.get length) := by
  obtain ⟨hholds, hcontent, hbytes⟩ := h.get length
  refine exact_of_content ⟨_, hholds⟩ ?_ (fun _ => ?_) fun hflush => hflush.elim
  · simp only [call, fifoCall, hbytes]
  · simp only [call, fifoCall, hcontent]

/-- A call that is another one, to the buffer as to the queue. -/
theorem exact_congr {d : Call} (hcall : call rb c = call rb d)
    (hfifo : fifoCall rb.bufferSize rb.content c = fifoCall rb.bufferSize rb.content d)
    (hflush : c.Flushes rb ↔ d.Flushes rb)
    (h : machine.Exact Inv (fun _ => True) Fifo (fun rb c => ¬ c.Flushes rb) rb d) :
    machine.Exact Inv (fun _ => True) Fifo (fun rb c => ¬ c.Flushes rb) rb c := by
  have hnext : machine.next rb c = machine.next rb d := by simp only [machine, hcall]
  have hstep (rb' : RtRingbuffer) : Fifo rb c rb' ↔ Fifo rb d rb' := by rw [Fifo, Fifo, hcall, hfifo]
  cases h with
  | kept hC s' hs hQ hI => exact .kept (mt hflush.mp hC) s' (hnext.trans hs) ((hstep s').mpr hQ) hI
  | lost hC hP =>
    exact .lost (fun hno => hC (mt hflush.mpr hno)) fun s' hs hQ =>
      hP s' (hnext.symm.trans hs) ((hstep s').mp hQ)

theorem call_exact (h : Inv rb) (c : Call) :
    machine.Exact Inv (fun _ => True) Fifo (fun rb c => ¬ c.Flushes rb) rb c := by
  obtain ⟨n, h⟩ := h
  have hN : 0 < rb.bufferSize := Nat.zero_lt_of_lt h.read_lt
  cases c with
  | put ptr => exact exact_put h ptr
  | putForce ptr => exact exact_putForce h ptr
  | putchar ch =>
    refine exact_congr (c := .putchar ch) (d := .put [ch]) ?_ ?_ Iff.rfl (exact_put h [ch])
    · simp only [call, h.putchar_eq]
    · rfl
  | putcharForce ch =>
    refine exact_congr (c := .putcharForce ch) (d := .putForce [ch]) ?_ ?_ Iff.rfl
      (exact_putForce h [ch])
    · simp only [call, h.putcharForce_eq]
    · have hone : min rb.bufferSize [ch].length = 1 := Nat.min_eq_right hN
      simp only [fifoCall, hone]
  | get length => exact exact_get h length
  | getchar =>
    refine exact_congr (c := .getchar) (d := .get 1) ?_ ?_ Iff.rfl (exact_get h 1)
    · simp only [call, h.getchar_eq]
    · rfl
  | reset =>
    have hholds : rb.reset.Holds 0 := RtRingbuffer.holds_empty hN rfl rfl rfl
    exact exact_of_content ⟨0, hholds⟩ rfl (fun _ => hholds.empty) fun hflush => hflush.elim

theorem inv_init (pool : Nat → UInt8) {size : Nat} (hsize : 4 ≤ size) :
    Inv (rtRingbufferInit pool size) := by
  have hN : 0 < size / 4 * 4 := by omega
  exact ⟨0, RtRingbuffer.holds_empty hN rfl rfl rfl⟩

/-- Every call of a run is that of a queue of at most `bufferSize` bytes, just if no forced put of
the run flushes the buffer. -/
theorem ringbuffer_fifo_iff (pool : Nat → UInt8) {size : Nat} (hsize : 4 ≤ size)
    (calls : List Call) :
    machine.Upholds (fun _ => True) Fifo (rtRingbufferInit pool size) calls ↔
      machine.Meets (fun rb c => ¬ c.Flushes rb) (rtRingbufferInit pool size) calls :=
  Machine.upholds_iff_meets (L := fun _ _ => True) (fun _ _ => trivial)
    (fun _ c hinv _ => call_exact hinv c) (inv_init pool hsize)
    (Machine.meets_of_forall (P := fun _ => True) fun _ _ => trivial)

/-- Five bytes into a buffer of four, one by one, keep the last four. -/
theorem ringbuffer_fifo_five : machine.Upholds (fun _ => True) Fifo (rtRingbufferInit (fun _ => 0) 4)
    [.put [1, 2, 3], .putchar 4, .putcharForce 5, .get 2, .getchar] :=
  (ringbuffer_fifo_iff (fun _ => 0) (by decide) _).2 (by decide)

end Ringbuffer

end Melis.RtThread
