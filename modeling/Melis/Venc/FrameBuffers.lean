import Mathlib.Data.Int.NatAbs
import Melis.Lib.Queue
import Melis.Lib.Run

/-!
# The frame buffer manager of the video encoder

The application adds input buffers, the encoder looks at the first one and
moves it to the used ones when it is encoded, and the application gets it back.
A node of the manager is on one of three queues. A second set of buffers, which
the manager itself allocates, has a queue of its own, but shares the counter of
added buffers. `frameBuffers_conserved_iff` says which calls keep the books.
-/

namespace Melis.Venc

open Lib Function

/-- `VencInputBuffer`; `rest` is all that is copied along with the id. -/
structure VencInputBuffer (ρ : Type) where
  nID : Nat
  rest : ρ
deriving DecidableEq

/-- How often a mutex was taken and released. -/
structure Mutex where
  taken : Nat
  released : Nat
deriving DecidableEq

/-- `pthread_mutex_lock`, which does not return while the mutex is taken. -/
def Mutex.lock (m : Mutex) : Option Mutex :=
  if m.taken = m.released then some { m with taken := m.taken + 1 } else none

def Mutex.unlock (m : Mutex) : Mutex := { m with released := m.released + 1 }

/-- `enqueue`. -/
abbrev enqueue (queue : List Nat) (p : Nat) : List Nat := Queue.linkLast queue p

/-- `FrameBufferManager`. A node is its index in its array; `allocateBuffer` is
`none` for `NULL`. -/
structure FrameBufferManager (ρ : Type) where
  maxSize : Nat
  usedQuene : List Nat
  inputQuene : List Nat
  emptyQuene : List Nat
  bufferQuene : Nat → VencInputBuffer ρ
  mutex : Mutex
  bufferNum : Nat
  allocateQueue : List Nat
  allocateBuffer : Option (Nat → VencInputBuffer ρ)
  abmMutex : Mutex
  addedBuffNum : Nat

/-- A result code with the buffer that was filled in, or a number. -/
inductive Reply (ρ : Type) where
  | status (code : Int) (out : Option (VencInputBuffer ρ))
  | number (n : Nat)

inductive Request (ρ : Type) where
  | addInput (b : VencInputBuffer ρ)
  | getInput
  | addUsed (b : VencInputBuffer ρ)
  | getUsed
  | getOneAllocate
  | returnOneAllocate (b : VencInputBuffer ρ)
  | reset
  | getUnencodedNum

variable {ρ : Type} [Inhabited ρ]

/-- A node filled with zeros. -/
def VencInputBuffer.zero : VencInputBuffer ρ := ⟨0, default⟩

namespace FrameBufferManager

/-- `FrameBufferManagerCreate`. -/
def create (num : Nat) : FrameBufferManager ρ where
  maxSize := num
  usedQuene := []
  inputQuene := []
  emptyQuene := (List.range num).foldl enqueue []
  bufferQuene := fun _ => .zero
  mutex := ⟨0, 0⟩
  bufferNum := 0
  allocateQueue := []
  allocateBuffer := none
  abmMutex := ⟨0, 0⟩
  addedBuffNum := 0

variable (f : FrameBufferManager ρ)

/-- `AllocateInputBuffer`; `bufs` is `none` where the memory is not there. -/
def allocateInputBuffer (nBufferNum : Nat) (bufs : Option (Nat → ρ)) : FrameBufferManager ρ :=
  match bufs with
  | none => { f with bufferNum := nBufferNum, allocateBuffer := none }
  | some rest =>
    { f with
      bufferNum := nBufferNum
      allocateBuffer := some fun i => ⟨i, rest i⟩
      allocateQueue := (List.range nBufferNum).foldl enqueue f.allocateQueue }

def addInputBuffer (b : VencInputBuffer ρ) : Option (FrameBufferManager ρ × Reply ρ) := do
  let m ← f.mutex.lock
  match f.emptyQuene with
  | [] => some ({ f with mutex := m.unlock }, .status (-1) none)
  | p :: empty =>
    let m ← m.unlock.lock
    some
      ({ f with
          emptyQuene := empty
          bufferQuene := update f.bufferQuene p b
          inputQuene := enqueue f.inputQuene p
          addedBuffNum := (f.addedBuffNum + 1) % 2 ^ 32
          mutex := m.unlock }, .status 0 none)

def getInputBuffer : Option (FrameBufferManager ρ × Reply ρ) := do
  let m ← f.mutex.lock
  some
    ({ f with mutex := m.unlock },
      match f.inputQuene with
      | [] => .status (-1) none
      | p :: _ => .status 0 (some (f.bufferQuene p)))

def addUsedInputBuffer (b : VencInputBuffer ρ) : Option (FrameBufferManager ρ × Reply ρ) := do
  let m ← f.mutex.lock
  match f.inputQuene with
  | [] => some ({ f with mutex := m.unlock }, .status (-1) none)
  | p :: input =>
    if b.nID ≠ (f.bufferQuene p).nID then
      some ({ f with inputQuene := input, mutex := m.unlock }, .status (-1) none)
    else
      some
        ({ f with
            inputQuene := input
            usedQuene := enqueue f.usedQuene p
            addedBuffNum := (f.addedBuffNum + 2 ^ 32 - 1) % 2 ^ 32
            mutex := m.unlock }, .status 0 none)

def getUsedInputBuffer : Option (FrameBufferManager ρ × Reply ρ) := do
  let m ← f.mutex.lock
  match f.usedQuene with
  | [] => some ({ f with mutex := m.unlock }, .status (-1) none)
  | p :: used =>
    let m ← m.unlock.lock
    some
      ({ f with usedQuene := used, emptyQuene := enqueue f.emptyQuene p, mutex := m.unlock },
        .status 0 (some (f.bufferQuene p)))

/-- `VENC_RESULT_NO_RESOURCE` is 7, `VENC_RESULT_NO_FRAME_BUFFER` is 1. -/
def getOneAllocateInputBuffer : Option (FrameBufferManager ρ × Reply ρ) :=
  match f.allocateBuffer with
  | none => some (f, .status 7 none)
  | some bufs => do
    let m ← f.abmMutex.lock
    some
      ({ f with
          allocateQueue := f.allocateQueue.tail
          addedBuffNum := (f.addedBuffNum + 1) % 2 ^ 32
          abmMutex := m.unlock },
        match f.allocateQueue with
        | [] => .status 1 none
        | p :: _ => .status 0 (some (bufs p)))

/-- `VENC_RESULT_ILLEGAL_PARAM` is 3. Without the array there is no node to
link. -/
def returnOneAllocateInputBuffer (b : VencInputBuffer ρ) :
    Option (FrameBufferManager ρ × Reply ρ) :=
  if f.bufferNum ≤ b.nID then some (f, .status 3 none)
  else
    match f.allocateBuffer with
    | none => none
    | some _ => do
      let m ← f.abmMutex.lock
      some
        ({ f with
            allocateQueue := enqueue f.allocateQueue b.nID
            addedBuffNum := (f.addedBuffNum + 2 ^ 32 - 1) % 2 ^ 32
            abmMutex := m.unlock }, .status 0 none)

/-- The first half of `ResetFrameBuffer`. -/
def resetInput : Option (FrameBufferManager ρ) :=
  if f.maxSize = 0 then some f
  else do
    let m ← f.mutex.lock
    some
      { f with
        bufferQuene := fun _ => .zero
        usedQuene := []
        inputQuene := []
        emptyQuene := (List.range f.maxSize).foldl enqueue []
        mutex := m.unlock }

/-- The second half of `ResetFrameBuffer`. -/
def resetAllocate : Option (FrameBufferManager ρ) :=
  if f.bufferNum = 0 then some f
  else
    match f.allocateBuffer with
    | none => none
    | some _ => do
      let m ← f.abmMutex.lock
      some
        { f with
          allocateQueue := (List.range f.bufferNum).foldl enqueue []
          abmMutex := m.unlock }

def resetFrameBuffer : Option (FrameBufferManager ρ × Reply ρ) := do
  let f ← f.resetInput
  let f ← f.resetAllocate
  some (f, .status 0 none)

/-- `GetUnencodedBufferNum` releases the other mutex in its first branch. -/
def getUnencodedBufferNum : Option (FrameBufferManager ρ × Reply ρ) :=
  if f.maxSize ≠ 0 then do
    let m ← f.mutex.lock
    some ({ f with mutex := m, abmMutex := f.abmMutex.unlock }, .number f.addedBuffNum)
  else if f.bufferNum ≠ 0 then do
    let m ← f.abmMutex.lock
    some ({ f with abmMutex := m.unlock }, .number f.addedBuffNum)
  else some (f, .number 0)

/-- A call; `none` where it does not return. -/
def call : Request ρ → Option (FrameBufferManager ρ × Reply ρ)
  | .addInput b => f.addInputBuffer b
  | .getInput => f.getInputBuffer
  | .addUsed b => f.addUsedInputBuffer b
  | .getUsed => f.getUsedInputBuffer
  | .getOneAllocate => f.getOneAllocateInputBuffer
  | .returnOneAllocate b => f.returnOneAllocateInputBuffer b
  | .reset => f.resetFrameBuffer
  | .getUnencodedNum => f.getUnencodedBufferNum

end FrameBufferManager

abbrev frameBuffers (ρ : Type) [Inhabited ρ] : Machine (FrameBufferManager ρ) (Request ρ) :=
  ⟨fun f q => (f.call q).map Prod.fst⟩

/-! ## The books -/

/-- Every node is on one queue, the counter is right, and the mutexes are free. -/
structure Conserved (f : FrameBufferManager ρ) : Prop where
  nodes : (f.emptyQuene ++ (f.inputQuene ++ f.usedQuene)).Perm (List.range f.maxSize)
  added : f.addedBuffNum = f.inputQuene.length
  mutex : f.mutex.taken = f.mutex.released
  abmMutex : f.abmMutex.taken = f.abmMutex.released

def Reply.Fails : Reply ρ → Prop
  | status code _ => code ≠ 0
  | number _ => False

/-- The call returns, keeps the books, and changes nothing where it fails. -/
def Keeps (f : FrameBufferManager ρ) (q : Request ρ) : Prop :=
  ∃ f' r, f.call q = some (f', r) ∧ Conserved f' ∧
    (r.Fails → f' = { f with mutex := f'.mutex, abmMutex := f'.abmMutex })

/-- What a call may not be: a used buffer that is not the first input, a call
for the allocated buffers, a reset with inputs in the queue, a question for the
number of buffers. -/
def Harmless (f : FrameBufferManager ρ) : Request ρ → Prop
  | .addUsed b => ∀ p ∈ f.inputQuene.head?, b.nID = (f.bufferQuene p).nID
  | .getOneAllocate => f.allocateBuffer = none
  | .returnOneAllocate b => f.bufferNum ≤ b.nID
  | .reset => f.inputQuene = [] ∧ (f.bufferNum = 0 ∨ f.allocateBuffer ≠ none)
  | .getUnencodedNum => f.maxSize = 0
  | _ => True

section

variable {f f' : FrameBufferManager ρ} {q : Request ρ} {m : Mutex}

theorem lock_eq (h : m.taken = m.released) : m.lock = some ⟨m.taken + 1, m.released⟩ := if_pos h

theorem create_conserved (num : Nat) : Conserved (.create num : FrameBufferManager ρ) := by
  refine ⟨?_, rfl, rfl, rfl⟩
  show (_ ++ ([] ++ [])).Perm _
  rw [List.append_nil, List.append_nil]
  exact .of_eq (Queue.foldl_linkLast_range num)

omit [Inhabited ρ] in
theorem allocate_conserved {n : Nat} {bufs : Option (Nat → ρ)} (h : Conserved f) :
    Conserved (f.allocateInputBuffer n bufs) := by
  cases bufs with
  | none => exact ⟨h.nodes, h.added, h.mutex, h.abmMutex⟩
  | some rest => exact ⟨h.nodes, h.added, h.mutex, h.abmMutex⟩

theorem keeps_iff {r : Reply ρ} (h : f.call q = some (f', r)) :
    Keeps f q ↔ Conserved f' ∧
      (r.Fails → f' = { f with mutex := f'.mutex, abmMutex := f'.abmMutex }) := by
  constructor
  · rintro ⟨g, s, hg, hk⟩
    rw [h] at hg
    cases hg
    exact hk
  · intro hk
    exact ⟨f', r, h, hk⟩

theorem lock_again (h : m.taken = m.released) :
    (Mutex.unlock ⟨m.taken + 1, m.released⟩).lock = some ⟨m.taken + 2, m.released + 1⟩ :=
  lock_eq (congrArg (· + 1) h)

namespace Conserved

omit [Inhabited ρ] in
theorem nodup (h : Conserved f) : (f.emptyQuene ++ (f.inputQuene ++ f.usedQuene)).Nodup :=
  h.nodes.nodup_iff.2 List.nodup_range

omit [Inhabited ρ] in
theorem length_eq (h : Conserved f) :
    f.emptyQuene.length + (f.inputQuene.length + f.usedQuene.length) = f.maxSize := by
  have := h.nodes.length_eq
  rwa [List.length_append, List.length_append, List.length_range] at this

omit [Inhabited ρ] in
theorem of_mutex (h : Conserved f) (hm : m.taken = m.released) {m' : Mutex}
    (hm' : m'.taken = m'.released) : Conserved { f with mutex := m, abmMutex := m' } :=
  ⟨h.nodes, h.added, hm, hm'⟩

/-- The call takes and releases the mutex, and that is all. -/
theorem keeps_of_mutex (h : Conserved f) {r : Reply ρ}
    (hc : f.call q = some ({ f with mutex := ⟨f.mutex.taken + 1, f.mutex.released + 1⟩ }, r)) :
    Keeps f q :=
  (keeps_iff hc).2 ⟨h.of_mutex (congrArg (· + 1) h.mutex) h.abmMutex, fun _ => rfl⟩

/-- The first empty node is new to the queue of the inputs. -/
theorem addInput (h : Conserved f) (hsize : f.maxSize < 2 ^ 32) (b : VencInputBuffer ρ) :
    Keeps f (.addInput b) := by
  have hlen := h.length_eq
  have hnodup := h.nodup
  have hnodes := h.nodes
  rcases hempty : f.emptyQuene with _ | ⟨p, empty⟩
  · refine h.keeps_of_mutex (r := .status (-1) none) ?_
    simp [FrameBufferManager.call, FrameBufferManager.addInputBuffer, Mutex.unlock,
      lock_eq h.mutex, hempty]
  · rw [hempty] at hlen hnodup hnodes
    rw [List.length_cons] at hlen
    have hp : p ∉ f.inputQuene := by
      intro hm
      simp [hm] at hnodup
    have hc : f.call (.addInput b) = some
        ({ f with
            emptyQuene := empty
            bufferQuene := update f.bufferQuene p b
            inputQuene := f.inputQuene ++ [p]
            addedBuffNum := (f.addedBuffNum + 1) % 2 ^ 32
            mutex := Mutex.unlock ⟨f.mutex.taken + 2, f.mutex.released + 1⟩ },
          .status 0 none) := by
      simp [FrameBufferManager.call, FrameBufferManager.addInputBuffer, lock_eq h.mutex,
        lock_again h.mutex, hempty, Queue.linkLast_eq hp]
    refine (keeps_iff hc).2 ⟨⟨?_, ?_, congrArg (· + 2) h.mutex, h.abmMutex⟩,
      fun hf => absurd rfl hf⟩
    · apply List.Perm.trans _ hnodes
      rw [List.append_assoc, List.singleton_append]
      exact (List.Perm.append_left _ List.perm_middle).trans List.perm_middle
    · show (_ + 1) % _ = (_ ++ [p]).length
      rw [h.added, List.length_append, List.length_singleton]
      exact Nat.mod_eq_of_lt (by omega)

theorem getInput (h : Conserved f) : Keeps f .getInput := by
  refine h.keeps_of_mutex (r := match f.inputQuene with
    | [] => .status (-1) none
    | p :: _ => .status 0 (some (f.bufferQuene p))) ?_
  simp [FrameBufferManager.call, FrameBufferManager.getInputBuffer, Mutex.unlock, lock_eq h.mutex]

/-- A node that is not the expected one is on no queue afterwards. -/
theorem addUsed (h : Conserved f) (hsize : f.maxSize < 2 ^ 32) (b : VencInputBuffer ρ) :
    Keeps f (.addUsed b) ↔ Harmless f (.addUsed b) := by
  have hlen := h.length_eq
  have hnodup := h.nodup
  have hnodes := h.nodes
  have hadded := h.added
  rcases hinput : f.inputQuene with _ | ⟨p, input⟩
  · refine iff_of_true (h.keeps_of_mutex (r := .status (-1) none) ?_) ?_
    · simp [FrameBufferManager.call, FrameBufferManager.addUsedInputBuffer, Mutex.unlock,
        lock_eq h.mutex, hinput]
    · simp [Harmless, hinput]
  · rw [hinput] at hlen hnodup hnodes hadded
    rw [List.length_cons] at hlen hadded
    by_cases hid : b.nID = (f.bufferQuene p).nID
    · have hp : p ∉ f.usedQuene := by
        intro hm
        have hpart := (List.nodup_append.1 hnodup).2.1
        exact (List.nodup_append.1 hpart).2.2 p List.mem_cons_self p hm rfl
      have hc : f.call (.addUsed b) = some
          ({ f with
              inputQuene := input
              usedQuene := f.usedQuene ++ [p]
              addedBuffNum := (f.addedBuffNum + 2 ^ 32 - 1) % 2 ^ 32
              mutex := Mutex.unlock ⟨f.mutex.taken + 1, f.mutex.released⟩ }, .status 0 none) := by
        simp only [FrameBufferManager.call, FrameBufferManager.addUsedInputBuffer,
          lock_eq h.mutex, hinput, Queue.linkLast_eq hp, hid, ne_eq, not_true_eq_false, if_false,
          Option.bind_eq_bind, Option.bind_some]
      refine iff_of_true ((keeps_iff hc).2
        ⟨⟨?_, ?_, congrArg (· + 1) h.mutex, h.abmMutex⟩, fun hf => absurd rfl hf⟩) ?_
      · refine List.Perm.trans (List.Perm.append_left _ ?_) hnodes
        rw [← List.append_assoc, List.cons_append, ← List.singleton_append]
        exact List.perm_append_comm
      · have hcount : (f.addedBuffNum + 2 ^ 32 - 1) % 2 ^ 32 = input.length := by omega
        exact hcount
      · simp [Harmless, hinput, hid]
    · have hc : f.call (.addUsed b) = some
          ({ f with
              inputQuene := input
              mutex := Mutex.unlock ⟨f.mutex.taken + 1, f.mutex.released⟩ },
            .status (-1) none) := by
        simp [FrameBufferManager.call, FrameBufferManager.addUsedInputBuffer, lock_eq h.mutex,
          hinput, hid]
      refine iff_of_false (fun hk => ?_) ?_
      · have hlost := ((keeps_iff hc).1 hk).1.length_eq
        simp only at hlost
        omega
      · simp [Harmless, hinput, hid]

theorem getUsed (h : Conserved f) : Keeps f .getUsed := by
  have hnodup := h.nodup
  have hnodes := h.nodes
  rcases hused : f.usedQuene with _ | ⟨p, used⟩
  · refine h.keeps_of_mutex (r := .status (-1) none) ?_
    simp [FrameBufferManager.call, FrameBufferManager.getUsedInputBuffer, Mutex.unlock,
      lock_eq h.mutex, hused]
  · rw [hused] at hnodup hnodes
    have hp : p ∉ f.emptyQuene := by
      intro hm
      exact (List.nodup_append.1 hnodup).2.2 p hm p (by simp) rfl
    have hc : f.call .getUsed = some
        ({ f with
            usedQuene := used
            emptyQuene := f.emptyQuene ++ [p]
            mutex := Mutex.unlock ⟨f.mutex.taken + 2, f.mutex.released + 1⟩ },
          .status 0 (some (f.bufferQuene p))) := by
      simp [FrameBufferManager.call, FrameBufferManager.getUsedInputBuffer, lock_eq h.mutex,
        lock_again h.mutex, hused, Queue.linkLast_eq hp]
    refine (keeps_iff hc).2 ⟨⟨?_, h.added, congrArg (· + 2) h.mutex, h.abmMutex⟩,
      fun hf => absurd rfl hf⟩
    apply List.Perm.trans _ hnodes
    rw [List.append_assoc, List.singleton_append]
    exact List.Perm.append_left _ List.perm_middle.symm

/-- An allocated buffer counts as an added one, whether there is one or not. -/
theorem getOneAllocate (h : Conserved f) :
    Keeps f .getOneAllocate ↔ Harmless f .getOneAllocate := by
  rcases hbufs : f.allocateBuffer with _ | bufs
  · have hc : f.call .getOneAllocate = some (f, .status 7 none) := by
      simp [FrameBufferManager.call, FrameBufferManager.getOneAllocateInputBuffer, hbufs]
    exact iff_of_true ((keeps_iff hc).2 ⟨h, fun _ => rfl⟩) hbufs
  · refine iff_of_false ?_ (by simp [Harmless, hbufs])
    rintro ⟨f', r, hc, hk, -⟩
    have hadded := hk.added
    simp only [FrameBufferManager.call, FrameBufferManager.getOneAllocateInputBuffer, hbufs,
      lock_eq h.abmMutex, Option.bind_eq_bind, Option.bind_some, Option.some.injEq,
      Prod.mk.injEq] at hc
    rw [← hc.1] at hadded
    have hne : (f.addedBuffNum + 1) % 2 ^ 32 ≠ f.addedBuffNum := by omega
    exact hne (hadded.trans h.added.symm)

theorem returnOneAllocate (h : Conserved f) (b : VencInputBuffer ρ) :
    Keeps f (.returnOneAllocate b) ↔ Harmless f (.returnOneAllocate b) := by
  by_cases hid : f.bufferNum ≤ b.nID
  · have hc : f.call (.returnOneAllocate b) = some (f, .status 3 none) := by
      simp [FrameBufferManager.call, FrameBufferManager.returnOneAllocateInputBuffer, hid]
    exact iff_of_true ((keeps_iff hc).2 ⟨h, fun _ => rfl⟩) hid
  · refine iff_of_false ?_ hid
    rintro ⟨f', r, hc, hk, -⟩
    have hadded := hk.added
    rcases hbufs : f.allocateBuffer with _ | bufs
    · simp [FrameBufferManager.call, FrameBufferManager.returnOneAllocateInputBuffer, hid,
        hbufs] at hc
    · simp only [FrameBufferManager.call, FrameBufferManager.returnOneAllocateInputBuffer, hid,
        if_false, hbufs, lock_eq h.abmMutex, Option.bind_eq_bind, Option.bind_some,
        Option.some.injEq, Prod.mk.injEq] at hc
      rw [← hc.1] at hadded
      have hne : (f.addedBuffNum + 2 ^ 32 - 1) % 2 ^ 32 ≠ f.addedBuffNum := by omega
      exact hne (hadded.trans h.added.symm)

/-- The reset empties the queues and leaves the counter alone. -/
theorem resetInput (h : Conserved f) :
    ∃ f', f.resetInput = some f' ∧
      (f'.emptyQuene ++ (f'.inputQuene ++ f'.usedQuene)).Perm (List.range f'.maxSize) ∧
      f'.inputQuene = [] ∧ f'.addedBuffNum = f.addedBuffNum ∧
      f'.mutex.taken = f'.mutex.released ∧ f'.abmMutex = f.abmMutex ∧
      f'.bufferNum = f.bufferNum ∧ f'.allocateBuffer = f.allocateBuffer := by
  by_cases hsize : f.maxSize = 0
  · refine ⟨f, if_pos hsize, h.nodes, ?_, rfl, h.mutex, rfl, rfl, rfl⟩
    have := h.length_eq
    exact List.eq_nil_of_length_eq_zero (by omega)
  · have hr : f.resetInput = some
        { f with
          bufferQuene := fun _ => .zero
          usedQuene := []
          inputQuene := []
          emptyQuene := List.range f.maxSize
          mutex := Mutex.unlock ⟨f.mutex.taken + 1, f.mutex.released⟩ } := by
      rw [FrameBufferManager.resetInput, if_neg hsize, lock_eq h.mutex,
        Queue.foldl_linkLast_range]
      rfl
    refine ⟨_, hr, ?_, rfl, rfl, congrArg (· + 1) h.mutex, rfl, rfl, rfl⟩
    rw [List.append_nil, List.append_nil]

theorem reset (h : Conserved f) : Keeps f .reset ↔ Harmless f .reset := by
  obtain ⟨g, hg, hnodes, hinput, hadded, hmutex, habm, hnum, hbufs⟩ := h.resetInput
  have hcall : f.call .reset = g.resetAllocate.bind fun f' => some (f', .status 0 none) := by
    simp [FrameBufferManager.call, FrameBufferManager.resetFrameBuffer, hg]
  have hbooks : ∀ as : List Nat, ∀ m : Mutex, m.taken = m.released →
      (Conserved { g with allocateQueue := as, abmMutex := m } ↔ f.inputQuene = []) := by
    intro as m hm
    constructor
    · intro hk
      have : g.addedBuffNum = g.inputQuene.length := hk.added
      rw [hadded, h.added, hinput] at this
      exact List.eq_nil_of_length_eq_zero this
    · intro hf
      refine ⟨hnodes, ?_, hmutex, hm⟩
      show g.addedBuffNum = g.inputQuene.length
      rw [hadded, h.added, hinput, hf]
  have hfree : g.abmMutex.taken = g.abmMutex.released := by rw [habm]; exact h.abmMutex
  by_cases hzero : f.bufferNum = 0
  · have hc : f.call .reset = some (g, .status 0 none) := by
      rw [hcall, FrameBufferManager.resetAllocate, if_pos (hnum.trans hzero)]
      rfl
    rw [keeps_iff hc]
    have := hbooks g.allocateQueue g.abmMutex hfree
    simp [Harmless, Reply.Fails, hzero, this]
  · rw [← hnum] at hzero
    rcases hnull : f.allocateBuffer with _ | bufs
    · rw [hnull] at hbufs
      have hc : f.call .reset = none := by
        rw [hcall, FrameBufferManager.resetAllocate, if_neg hzero, hbufs]
        rfl
      refine iff_of_false ?_ (by simp [Harmless, hnull, ← hnum, hzero])
      rintro ⟨f', r, hr, -⟩
      rw [hc] at hr
      cases hr
    · rw [hnull] at hbufs
      have hc : f.call .reset = some
          ({ g with
              allocateQueue := (List.range g.bufferNum).foldl enqueue []
              abmMutex := Mutex.unlock ⟨g.abmMutex.taken + 1, g.abmMutex.released⟩ },
            .status 0 none) := by
        rw [hcall, FrameBufferManager.resetAllocate, if_neg hzero, hbufs, lock_eq hfree]
        rfl
      rw [keeps_iff hc, hbooks _ _ (congrArg (· + 1) hfree)]
      simp [Harmless, Reply.Fails, hnull]

/-- With the mutex of the inputs taken for good there is no telling how many. -/
theorem getUnencodedNum (h : Conserved f) :
    Keeps f .getUnencodedNum ↔ Harmless f .getUnencodedNum := by
  by_cases hsize : f.maxSize = 0
  · refine iff_of_true ?_ hsize
    by_cases hnum : f.bufferNum = 0
    · have hc : f.call .getUnencodedNum = some (f, .number 0) := by
        simp [FrameBufferManager.call, FrameBufferManager.getUnencodedBufferNum, hsize, hnum]
      exact (keeps_iff hc).2 ⟨h, False.elim⟩
    · have hc : f.call .getUnencodedNum = some
          ({ f with abmMutex := Mutex.unlock ⟨f.abmMutex.taken + 1, f.abmMutex.released⟩ },
            .number f.addedBuffNum) := by
        simp [FrameBufferManager.call, FrameBufferManager.getUnencodedBufferNum, hsize, hnum,
          lock_eq h.abmMutex]
      exact (keeps_iff hc).2 ⟨h.of_mutex h.mutex (congrArg (· + 1) h.abmMutex), False.elim⟩
  · refine iff_of_false ?_ hsize
    have hc : f.call .getUnencodedNum = some
        ({ f with
            mutex := ⟨f.mutex.taken + 1, f.mutex.released⟩
            abmMutex := f.abmMutex.unlock }, .number f.addedBuffNum) := by
      simp [FrameBufferManager.call, FrameBufferManager.getUnencodedBufferNum, hsize,
        lock_eq h.mutex]
    intro hk
    have hmutex : f.mutex.taken + 1 = f.mutex.released := ((keeps_iff hc).1 hk).1.mutex
    have := h.mutex
    omega

/-- **One call**: it keeps the books if it is a harmless one, and only then. -/
theorem keeps_iff_harmless (h : Conserved f) (hsize : f.maxSize < 2 ^ 32) (q : Request ρ) :
    Keeps f q ↔ Harmless f q := by
  cases q with
  | addInput b => exact iff_of_true (h.addInput hsize b) trivial
  | getInput => exact iff_of_true h.getInput trivial
  | addUsed b => exact h.addUsed hsize b
  | getUsed => exact iff_of_true h.getUsed trivial
  | getOneAllocate => exact h.getOneAllocate
  | returnOneAllocate b => exact h.returnOneAllocate b
  | reset => exact h.reset
  | getUnencodedNum => exact h.getUnencodedNum

end Conserved

theorem call_maxSize {r : Reply ρ} (h : f.call q = some (f', r)) : f'.maxSize = f.maxSize := by
  cases q <;>
    simp only [FrameBufferManager.call, FrameBufferManager.addInputBuffer,
      FrameBufferManager.getInputBuffer, FrameBufferManager.addUsedInputBuffer,
      FrameBufferManager.getUsedInputBuffer, FrameBufferManager.getOneAllocateInputBuffer,
      FrameBufferManager.returnOneAllocateInputBuffer, FrameBufferManager.resetFrameBuffer,
      FrameBufferManager.resetInput, FrameBufferManager.resetAllocate,
      FrameBufferManager.getUnencodedBufferNum, Option.bind_eq_bind] at h <;>
    grind [Option.bind_eq_some_iff]

/-- **Runs**: the books are kept by the runs of harmless calls. -/
theorem run_conserves_iff (h : Conserved f) (hsize : f.maxSize < 2 ^ 32) (qs : List (Request ρ)) :
    (frameBuffers ρ).Meets Keeps f qs ↔ (frameBuffers ρ).Meets Harmless f qs := by
  refine Machine.meets_iff (I := fun f => Conserved f ∧ f.maxSize < 2 ^ 32) ?_ ?_ ⟨h, hsize⟩
  · rintro f q ⟨hf, hlt⟩
    exact hf.keeps_iff_harmless hlt q
  · rintro f q f' ⟨-, hlt⟩ ⟨g, r, hc, hk, -⟩ hnext
    simp only [hc, Option.map_some, Option.some.injEq] at hnext
    subst hnext
    exact ⟨hk, by rwa [call_maxSize hc]⟩

end

/-- A manager for `num` input buffers, with buffers of its own where the
application asked for some. -/
def opened (num : Nat) : Option (Nat × Option (Nat → ρ)) → FrameBufferManager ρ
  | none => .create num
  | some (n, bufs) => (FrameBufferManager.create num).allocateInputBuffer n bufs

/-- **The books of the encoder's input.** In a run from the creation of the
manager every node stays on one queue, the counter and the mutexes are right
after every call and a failed call changes nothing, if and only if every call
is a harmless one. -/
theorem frameBuffers_conserved_iff (num : Nat) (hnum : num < 2 ^ 31)
    (abm : Option (Nat × Option (Nat → ρ))) (qs : List (Request ρ)) :
    (Conserved (opened num abm) ∧ (frameBuffers ρ).Meets Keeps (opened num abm) qs) ↔
      (frameBuffers ρ).Meets Harmless (opened num abm) qs := by
  have hopened : Conserved (opened num abm) ∧ (opened num abm).maxSize = num := by
    rcases abm with _ | ⟨n, bufs⟩
    · exact ⟨create_conserved num, rfl⟩
    · refine ⟨allocate_conserved (create_conserved num), ?_⟩
      cases bufs <;> rfl
  have hsize : (opened num abm).maxSize < 2 ^ 32 := by rw [hopened.2]; omega
  rw [run_conserves_iff hopened.1 hsize]
  exact and_iff_right hopened.1

/-- One buffer goes in, through the encoder, and back out. -/
theorem frameBuffers_conserved_one :
    1 < 2 ^ 31 ∧ (frameBuffers Nat).Meets Keeps (opened 1 none)
      [.addInput ⟨7, 0⟩, .getInput, .addUsed ⟨7, 0⟩, .getUsed] := by
  refine ⟨by decide, ((frameBuffers_conserved_iff 1 (by decide) none _).2 ?_).2⟩
  refine ⟨trivial, fun f₁ h₁ => ⟨trivial, fun f₂ h₂ => ?_⟩⟩
  refine ⟨?_, fun f₃ h₃ => ⟨trivial, fun _ _ => trivial⟩⟩
  cases h₁
  cases h₂
  intro p hp
  cases hp
  rfl

/-- The encoder hands over a buffer it was not given: its node is lost. -/
theorem frameBuffers_lose_node :
    ¬(frameBuffers Nat).Meets Keeps (opened 1 none) [.addInput ⟨7, 0⟩, .addUsed ⟨8, 0⟩] := by
  rintro ⟨-, h⟩
  obtain ⟨⟨f, r, hc, hk, -⟩, -⟩ := h _ rfl
  cases hc
  exact absurd hk.nodes.length_eq (by decide)

end Melis.Venc
