import Melis.Lib.C
import Melis.Lib.Queue
import Melis.Lib.Ring
import Melis.Lib.Run

/-!
# The frame buffers of the video decoder

The detector adds frame pictures to a ring of 100 slots. The thread copies the
next one into an empty node, of which there are two, and queues the node; the
decoder requests pictures from that queue, returns the last one, or flushes the
oldest, which empties its node. The flush looks for the node by the picture that
a node points at, and a node points at its last picture until it gets another
one (`flush_exact_iff`).
-/

namespace Melis.Vdec

open Lib Function

def maxFrameBufferNum : Nat := 2

def maxFramePicNum : Nat := 100

/-- `FramePicInfo`; the manager is the one of the node, which is its index. -/
structure FramePicInfo where
  nlength : Int
  pSbmFrameBufferManager : Option Nat

/-- `SbmFrameBufferNode` with the size of its buffer; a picture is its slot. -/
structure SbmFrameBufferNode where
  pFramePic : Option Nat
  nFrameBufferSize : Nat

structure FramePicFifo where
  pFramePics : Nat → FramePicInfo
  nMaxFramePicNum : Nat
  nValidFramePicNum : Nat
  nUnReadFramePicNum : Nat
  nFPReadPos : Nat
  nFPWritePos : Nat
  nFPFlushPos : Nat

/-- `SbmFrame`, without the stream and its detection. -/
structure SbmFrame where
  nValidDataSize : Int
  mFramePicFifo : FramePicFifo
  emptyFramePicSem : Nat
  pSbmFrameBufferValidQueue : List Nat
  pSbmFrameBufferEmptyQueue : List Nat
  pSbmFrameBufferLastNode : Option Nat
  pSbmFrameBuffer : Nat → SbmFrameBufferNode

/-- `SbmFrameInit`, where there is memory for everything. -/
def sbmFrameInit (nSbmFrameBufferSize : Nat) : SbmFrame where
  nValidDataSize := 0
  mFramePicFifo := ⟨fun _ => ⟨0, none⟩, maxFramePicNum, 0, 0, 0, 0, 0⟩
  emptyFramePicSem := 0
  pSbmFrameBufferValidQueue := []
  pSbmFrameBufferEmptyQueue := (List.range maxFrameBufferNum).foldl Queue.linkLast []
  pSbmFrameBufferLastNode := none
  pSbmFrameBuffer := fun _ => ⟨none, nSbmFrameBufferSize⟩

namespace SbmFrame

variable (m : SbmFrame)

/-- The slot to fill. -/
def requestEmptyFramePic : Option Nat :=
  if m.mFramePicFifo.nMaxFramePicNum ≤ m.mFramePicFifo.nValidFramePicNum then none
  else some m.mFramePicFifo.nFPWritePos

/-- `addFramePic`; another slot than the one to fill ends the program. -/
def addFramePic (slot : Nat) : Option SbmFrame :=
  let q := m.mFramePicFifo
  if q.nMaxFramePicNum ≤ q.nValidFramePicNum then some m
  else if slot ≠ q.nFPWritePos then none
  else
    some
      { m with
        mFramePicFifo :=
          { q with
            nFPWritePos := if q.nMaxFramePicNum ≤ q.nFPWritePos + 1 then 0 else q.nFPWritePos + 1
            nValidFramePicNum := q.nValidFramePicNum + 1
            nUnReadFramePicNum := q.nUnReadFramePicNum + 1 } }

/-- What the detector writes into the slot it fills. -/
def detect (slot : Nat) (nlength : Int) : SbmFrame :=
  { m with
    mFramePicFifo :=
      { m.mFramePicFifo with
        pFramePics := update m.mFramePicFifo.pFramePics slot
          { m.mFramePicFifo.pFramePics slot with nlength := nlength } } }

/-- `SbmFrameRequestFramePic`. -/
def requestFramePic : Option (SbmFrame × Nat) :=
  let q := m.mFramePicFifo
  if q.nUnReadFramePicNum = 0 then none
  else
    some
      ({ m with
          mFramePicFifo :=
            { q with
              nFPReadPos := if q.nMaxFramePicNum ≤ q.nFPReadPos + 1 then 0 else q.nFPReadPos + 1
              nUnReadFramePicNum := q.nUnReadFramePicNum - 1 } },
        q.nFPReadPos)

/-- `SbmFrameFlushFramePic`; another picture than the oldest ends the program. -/
def flushFramePic (slot : Nat) : Option SbmFrame :=
  let q := m.mFramePicFifo
  if q.nValidFramePicNum = 0 then some m
  else if slot ≠ q.nFPFlushPos then none
  else
    some
      { m with
        nValidDataSize := i32 (m.nValidDataSize - (q.pFramePics slot).nlength)
        emptyFramePicSem := if m.emptyFramePicSem = 0 then 1 else m.emptyFramePicSem
        mFramePicFifo :=
          { q with
            nFPFlushPos := if q.nMaxFramePicNum ≤ q.nFPFlushPos + 1 then 0 else q.nFPFlushPos + 1
            nValidFramePicNum := q.nValidFramePicNum - 1 } }

/-- The size of the buffer for a picture that is too long for the old one. -/
def frameBufferSize (old : Nat) (nlength : Int) : Nat :=
  if (old : Int) < nlength then u32 (i32 (nlength + 1023) / 1024 * 1024) else old

/-- `CopySbmFrameData`, where there is memory for the picture. -/
def copySbmFrameData : Option SbmFrame :=
  if m.mFramePicFifo.nUnReadFramePicNum = 0 then some m
  else
    match m.pSbmFrameBufferEmptyQueue with
    | [] => some m
    | node :: empty =>
      match m.requestFramePic with
      | none =>
        (Queue.linkFirst node empty).map fun q => { m with pSbmFrameBufferEmptyQueue := q }
      | some (m, slot) =>
        let pic := m.mFramePicFifo.pFramePics slot
        some
          { m with
            pSbmFrameBufferEmptyQueue := empty
            pSbmFrameBuffer := update m.pSbmFrameBuffer node
              ⟨some slot, frameBufferSize (m.pSbmFrameBuffer node).nFrameBufferSize pic.nlength⟩
            mFramePicFifo :=
              { m.mFramePicFifo with
                pFramePics := update m.mFramePicFifo.pFramePics slot
                  { pic with pSbmFrameBufferManager := some node } }
            pSbmFrameBufferValidQueue := Queue.linkLast m.pSbmFrameBufferValidQueue node }

/-- `SbmFrameRequestFramePicNew`: the picture of the node. -/
def requestFramePicNew : SbmFrame × Option Nat :=
  match m.pSbmFrameBufferValidQueue with
  | [] => (m, none)
  | node :: valid =>
    ({ m with pSbmFrameBufferValidQueue := valid, pSbmFrameBufferLastNode := some node },
      (m.pSbmFrameBuffer node).pFramePic)

/-- `SbmFrameReturnFramePicNew`; the first component says whether it succeeds. -/
def returnFramePicNew (slot : Nat) : Option (Bool × SbmFrame) :=
  match m.pSbmFrameBufferLastNode with
  | none => some (false, m)
  | some node =>
    if (m.pSbmFrameBuffer node).pFramePic ≠ some slot then some (false, m)
    else
      (Queue.linkFirst node m.pSbmFrameBufferValidQueue).map fun q =>
        (true, { m with pSbmFrameBufferValidQueue := q, pSbmFrameBufferLastNode := none })

/-- The loop of the flush over the nodes; `none` where it meets a node without a
picture, or comes to the end of the array. -/
def findNode (manager : Option Nat) : List Nat → Option Nat
  | [] => none
  | i :: is =>
    match (m.pSbmFrameBuffer i).pFramePic with
    | none => none
    | some slot =>
      if manager = (m.mFramePicFifo.pFramePics slot).pSbmFrameBufferManager then some i
      else findNode manager is

/-- `SbmFrameFlushFramePicNew`. -/
def flushFramePicNew (slot : Nat) : Option SbmFrame :=
  (m.findNode (m.mFramePicFifo.pFramePics slot).pSbmFrameBufferManager
      (List.range maxFrameBufferNum)).bind fun node =>
    { m with
      pSbmFrameBufferEmptyQueue := Queue.linkLast m.pSbmFrameBufferEmptyQueue node }.flushFramePic
      slot

/-- The reset of the thread. -/
def reset : SbmFrame :=
  { m with
    nValidDataSize := 0
    mFramePicFifo := ⟨m.mFramePicFifo.pFramePics, m.mFramePicFifo.nMaxFramePicNum, 0, 0, 0, 0, 0⟩
    pSbmFrameBufferValidQueue := []
    pSbmFrameBufferEmptyQueue :=
      m.pSbmFrameBufferValidQueue.foldl Queue.linkLast m.pSbmFrameBufferEmptyQueue }

end SbmFrame

/-! ## Runs -/

namespace Nodes

/-- The buffers and the decoder. `held` are the pictures the decoder has
requested, and neither returned nor flushed, each with the node that carries its
data, the oldest first. -/
structure State where
  m : SbmFrame
  held : List (Nat × Nat)

inductive Input where
  | addFramePic (nlength : Int)
  | copySbmFrameData
  | requestFramePic
  | returnFramePic (slot : Nat)
  | flushFramePic (slot : Nat)
  | reset

def next (s : State) : Input → Option State
  | .addFramePic nlength =>
    match s.m.requestEmptyFramePic with
    | none => some s
    | some slot => ((s.m.detect slot nlength).addFramePic slot).map fun m => { s with m := m }
  | .copySbmFrameData => s.m.copySbmFrameData.map fun m => { s with m := m }
  | .requestFramePic =>
    match s.m.requestFramePicNew with
    | (m, none) => some { s with m := m }
    | (m, some slot) =>
      some ⟨m, s.held ++ (m.pSbmFrameBufferLastNode.map fun node => (slot, node)).toList⟩
  | .returnFramePic slot =>
    (s.m.returnFramePicNew slot).map fun
      | (false, m) => { s with m := m }
      | (true, m) => ⟨m, s.held.dropLast⟩
  | .flushFramePic slot => (s.m.flushFramePicNew slot).map fun m => ⟨m, s.held.tail⟩
  | .reset => some { s with m := s.m.reset }

abbrev frames : Machine State Input := ⟨next⟩

def start (nSbmFrameBufferSize : Nat) : State := ⟨sbmFrameInit nSbmFrameBufferSize, []⟩

/-- The decoder returns the picture it requested last, flushes the oldest one it
holds, and resets when it holds none. -/
def WellBehaved (s : State) : Input → Prop
  | .returnFramePic slot => ∃ h ∈ s.held.getLast?, h.1 = slot
  | .flushFramePic slot => ∃ h ∈ s.held.head?, h.1 = slot
  | .reset => s.held = []
  | _ => True

/-- Every node is on one of the queues, or held. -/
def Partition (s : State) : Prop :=
  (s.m.pSbmFrameBufferEmptyQueue ++
    (s.m.pSbmFrameBufferValidQueue ++ s.held.map Prod.snd)).Perm (List.range maxFrameBufferNum)

/-- The call returns, the nodes are accounted for, and a flush empties the node
that carries the picture. -/
def Exact (s : State) (i : Input) : Prop :=
  ∃ s', next s i = some s' ∧ Partition s' ∧
    ∀ slot, i = .flushFramePic slot → ∀ h ∈ s.held, h.1 = slot →
      s'.m.pSbmFrameBufferEmptyQueue = s.m.pSbmFrameBufferEmptyQueue ++ [h.2]

/-- Where a picture whose data is in node 1 is flushed, node 0 does not point at
a picture whose data is there as well. -/
def NotStale (s : State) : Input → Prop
  | .flushFramePic slot =>
    (s.m.mFramePicFifo.pFramePics slot).pSbmFrameBufferManager = some 1 →
      ∀ old ∈ (s.m.pSbmFrameBuffer 0).pFramePic,
        (s.m.mFramePicFifo.pFramePics old).pSbmFrameBufferManager ≠ some 1
  | _ => True

/-- `L` are the nodes with pictures that are not flushed, the oldest first, whose
picture is number `a`, counted without going around. -/
structure Tracked (s : State) (a : Nat) (L : List Nat) : Prop where
  nodes : L = s.held.map Prod.snd ++ s.m.pSbmFrameBufferValidQueue
  partition : (s.m.pSbmFrameBufferEmptyQueue ++ L).Perm (List.range maxFrameBufferNum)
  max : s.m.mFramePicFifo.nMaxFramePicNum = maxFramePicNum
  valid : s.m.mFramePicFifo.nValidFramePicNum = L.length + s.m.mFramePicFifo.nUnReadFramePicNum
  fits : s.m.mFramePicFifo.nValidFramePicNum ≤ maxFramePicNum
  flushPos : s.m.mFramePicFifo.nFPFlushPos = a % maxFramePicNum
  readPos : s.m.mFramePicFifo.nFPReadPos = (a + L.length) % maxFramePicNum
  pics : L.map (fun node => (s.m.pSbmFrameBuffer node).pFramePic) =
    (List.range L.length).map fun i => some ((a + i) % maxFramePicNum)
  managers : ∀ node ∈ L, ∀ slot ∈ (s.m.pSbmFrameBuffer node).pFramePic,
    (s.m.mFramePicFifo.pFramePics slot).pSbmFrameBufferManager = some node
  held : ∀ h ∈ s.held, (s.m.pSbmFrameBuffer h.2).pFramePic = some h.1
  last : ∀ node ∈ s.m.pSbmFrameBufferLastNode, ∀ h ∈ s.held.getLast?, h.2 = node
  fresh : (s.m.pSbmFrameBuffer 0).pFramePic = none → s.m.pSbmFrameBufferEmptyQueue = [0, 1]

section

variable {s s' : State} {a slot n : Nat} {L : List Nat} {i : Input}

theorem start_tracked (size : Nat) : Tracked (start size) 0 [] := by
  have hempty : (List.range maxFrameBufferNum).foldl Queue.linkLast [] = [0, 1] :=
    Queue.foldl_linkLast_range maxFrameBufferNum
  unfold start sbmFrameInit
  rw [hempty]
  constructor <;> simp [maxFrameBufferNum, List.range_succ]

namespace Tracked

theorem nodup (h : Tracked s a L) : (s.m.pSbmFrameBufferEmptyQueue ++ L).Nodup :=
  h.partition.nodup_iff.2 List.nodup_range

theorem toPartition (h : Tracked s a L) : Partition s := by
  unfold Partition
  apply List.Perm.trans _ h.partition
  rw [h.nodes]
  exact List.Perm.append_left _ List.perm_append_comm

theorem notMem_valid (h : Tracked s a L) (hn : n ∈ s.held.map Prod.snd) :
    n ∉ s.m.pSbmFrameBufferValidQueue := by
  intro hm
  have hnodup := (List.nodup_append.1 h.nodup).2.1
  rw [h.nodes] at hnodup
  exact (List.nodup_append.1 hnodup).2.2 n hn n hm rfl

theorem notMem_empty (h : Tracked s a L) (hn : n ∈ L) :
    n ∉ s.m.pSbmFrameBufferEmptyQueue :=
  fun hm => (List.nodup_append.1 h.nodup).2.2 n hm n hn rfl

theorem length_le (h : Tracked s a L) : L.length ≤ 2 := by
  have := h.partition.length_eq
  rw [List.length_append, List.length_range] at this
  unfold maxFrameBufferNum at this
  omega

/-- The node at place `i` of the unflushed ones points at picture `a + i`. -/
theorem pic_eq (h : Tracked s a L) {k : Nat} (hk : L[k]? = some n) :
    (s.m.pSbmFrameBuffer n).pFramePic = some ((a + k) % maxFramePicNum) := by
  have hpics := congrArg (fun l => l[k]?) h.pics
  have hlt : k < L.length := (List.getElem?_eq_some_iff.1 hk).1
  simp only [List.getElem?_map, hk, List.getElem?_range hlt, Option.map_some,
    Option.some.injEq] at hpics
  exact hpics

theorem manager_held (h : Tracked s a L) {x : Nat × Nat} (hx : x ∈ s.held) :
    (s.m.mFramePicFifo.pFramePics x.1).pSbmFrameBufferManager = some x.2 := by
  apply h.managers x.2 _ x.1 (h.held x hx)
  rw [h.nodes]
  exact List.mem_append_left _ (List.mem_map_of_mem hx)

/-- Filling the next slot changes no manager. -/
theorem addFramePic (h : Tracked s a L) (nlength : Int) :
    ∃ s', next s (.addFramePic nlength) = some s' ∧ Tracked s' a L := by
  by_cases hroom : s.m.mFramePicFifo.nMaxFramePicNum ≤ s.m.mFramePicFifo.nValidFramePicNum
  · refine ⟨s, ?_, h⟩
    simp [next, SbmFrame.requestEmptyFramePic, hroom]
  · have hsame : ∀ slot, (update s.m.mFramePicFifo.pFramePics s.m.mFramePicFifo.nFPWritePos
        { s.m.mFramePicFifo.pFramePics s.m.mFramePicFifo.nFPWritePos with nlength := nlength }
          slot).pSbmFrameBufferManager =
        (s.m.mFramePicFifo.pFramePics slot).pSbmFrameBufferManager := by
      intro slot
      by_cases he : slot = s.m.mFramePicFifo.nFPWritePos
      · rw [he, update_self]
      · rw [update_of_ne he]
    refine ⟨_, by simp [next, SbmFrame.requestEmptyFramePic, SbmFrame.addFramePic,
      SbmFrame.detect, hroom]; rfl, ?_⟩
    have hvalid := h.valid
    have hmax := h.max
    refine { h with valid := ?_, fits := ?_, managers := ?_ }
    · dsimp only
      omega
    · dsimp only
      omega
    · intro node hn slot hs
      rw [← h.managers node hn slot hs]
      exact hsame slot

/-- The next picture goes into the first empty node. -/
theorem copySbmFrameData (h : Tracked s a L) :
    ∃ s' L', next s .copySbmFrameData = some s' ∧ Tracked s' a L' := by
  by_cases hread : s.m.mFramePicFifo.nUnReadFramePicNum = 0
  · refine ⟨s, L, ?_, h⟩
    simp [next, SbmFrame.copySbmFrameData, hread]
  rcases hempty : s.m.pSbmFrameBufferEmptyQueue with _ | ⟨node, empty⟩
  · refine ⟨s, L, ?_, h⟩
    simp [next, SbmFrame.copySbmFrameData, hread, hempty]
  have hslots : 0 < maxFramePicNum := by decide
  have hpart := h.partition
  have hnew : node ∉ L := by
    intro hm
    exact h.notMem_empty hm (by rw [hempty]; exact List.mem_cons_self)
  have hvalid : node ∉ s.m.pSbmFrameBufferValidQueue := by
    intro hm
    exact hnew (by rw [h.nodes]; exact List.mem_append_right _ hm)
  have hheld : ∀ x ∈ s.held, x.2 ≠ node := by
    intro x hx he
    exact hnew (by rw [h.nodes, ← he]; exact List.mem_append_left _ (List.mem_map_of_mem hx))
  have hlen := h.length_le
  have hother : ∀ n ∈ L, ∀ slot ∈ (s.m.pSbmFrameBuffer n).pFramePic,
      slot ≠ s.m.mFramePicFifo.nFPReadPos := by
    intro n hn slot hs
    obtain ⟨k, hk⟩ := List.getElem?_of_mem hn
    have hlt : k < L.length := (List.getElem?_eq_some_iff.1 hk).1
    rw [h.pic_eq hk, Option.mem_some_iff] at hs
    rw [← hs, h.readPos]
    exact Ring.mod_ne_mod (by omega) (by unfold maxFramePicNum; omega)
  rw [hempty] at hpart
  refine ⟨_, L ++ [node], by simp [next, SbmFrame.copySbmFrameData, SbmFrame.requestFramePic,
    hread, hempty, Queue.linkLast_eq hvalid]; rfl, ?_⟩
  have hfifo := h.valid
  constructor
  · simp [h.nodes]
  · apply List.Perm.trans _ hpart
    show (empty ++ (L ++ [node])).Perm (node :: empty ++ L)
    rw [← List.append_assoc]
    exact List.perm_append_comm
  · exact h.max
  · simp only [List.length_append, List.length_singleton]
    omega
  · exact h.fits
  · exact h.flushPos
  · dsimp only
    rw [h.max, h.readPos, Ring.wrap_succ hslots, List.length_append, List.length_singleton,
      Nat.add_assoc]
  · rw [List.map_append, List.length_append, List.length_singleton, List.range_succ,
      List.map_append, ← h.pics]
    congr 1
    · apply List.map_congr_left
      intro n hn
      dsimp only
      rw [update_of_ne (ne_of_mem_of_not_mem hn hnew)]
    · simp [h.readPos]
  · intro n hn slot hs
    rcases List.mem_append.1 hn with hn | hn
    · dsimp only at hs ⊢
      rw [update_of_ne (ne_of_mem_of_not_mem hn hnew)] at hs
      rw [update_of_ne (hother n hn slot hs)]
      exact h.managers n hn slot hs
    · rw [List.mem_singleton.1 hn] at hs ⊢
      dsimp only at hs ⊢
      rw [update_self, Option.mem_some_iff] at hs
      rw [← hs, update_self]
  · intro x hx
    dsimp only
    rw [update_of_ne (hheld x hx)]
    exact h.held x hx
  · exact h.last
  · dsimp only
    intro hnone
    by_cases he : node = 0
    · rw [he, update_self] at hnone
      cases hnone
    · rw [update_of_ne (Ne.symm he)] at hnone
      have := h.fresh hnone
      rw [hempty, List.cons.injEq] at this
      exact absurd this.1 he

/-- The oldest queued node goes to the decoder. -/
theorem requestFramePic (h : Tracked s a L) :
    ∃ s', next s .requestFramePic = some s' ∧ Tracked s' a L := by
  rcases hqueue : s.m.pSbmFrameBufferValidQueue with _ | ⟨node, valid⟩
  · refine ⟨s, ?_, h⟩
    simp [next, SbmFrame.requestFramePicNew, hqueue]
  have hplace : L[s.held.length]? = some node := by
    rw [h.nodes, hqueue]
    simp
  have hpic := h.pic_eq hplace
  have hnodes : s.held.map Prod.snd ++ node :: valid =
      (s.held.map Prod.snd ++ [node]) ++ valid := by
    simp
  refine ⟨_, by simp only [next, SbmFrame.requestFramePicNew, hqueue, hpic]; rfl, ?_⟩
  refine { h with nodes := ?_, held := ?_, last := ?_ }
  · rw [h.nodes, hqueue, hnodes]
    simp
  · intro x hx
    rcases List.mem_append.1 hx with hx | hx
    · exact h.held x hx
    · simp only [Option.map_some, Option.toList_some, List.mem_singleton] at hx
      rw [hx]
      exact hpic
  · intro n hn x hx
    simp only [Option.map_some, Option.toList_some, List.getLast?_append, List.getLast?_singleton,
      Option.some_or, Option.mem_some_iff] at hn hx
    rw [← hx]
    exact hn

/-- The node requested last goes back to the head of the queue, if it is known. -/
theorem returnFramePic (h : Tracked s a L) (hw : WellBehaved s (.returnFramePic slot)) :
    ∃ s', next s (.returnFramePic slot) = some s' ∧ Tracked s' a L := by
  obtain ⟨x, hx, rfl⟩ := hw
  rcases hlast : s.m.pSbmFrameBufferLastNode with _ | node
  · refine ⟨s, ?_, h⟩
    simp [next, SbmFrame.returnFramePicNew, hlast]
  have hmem : x ∈ s.held := List.mem_of_getLast? hx
  have hnode : x.2 = node := h.last node hlast x hx
  have hpic : (s.m.pSbmFrameBuffer node).pFramePic = some x.1 := by
    rw [← hnode]
    exact h.held x hmem
  have hnew : node ∉ s.m.pSbmFrameBufferValidQueue := by
    apply h.notMem_valid
    rw [← hnode]
    exact List.mem_map_of_mem hmem
  have hheld : s.held = s.held.dropLast ++ [x] :=
    (List.dropLast_append_getLast? x hx).symm
  have hnodes : L = s.held.dropLast.map Prod.snd ++ node :: s.m.pSbmFrameBufferValidQueue := by
    rw [h.nodes, ← hnode]
    nth_rewrite 1 [hheld]
    simp
  refine ⟨⟨{ s.m with
      pSbmFrameBufferValidQueue := node :: s.m.pSbmFrameBufferValidQueue
      pSbmFrameBufferLastNode := none }, s.held.dropLast⟩, ?_, ?_⟩
  · simp [next, SbmFrame.returnFramePicNew, hlast, hpic, Queue.linkFirst_eq hnew]
  · refine { h with nodes := hnodes, held := ?_, last := nofun }
    intro y hy
    exact h.held y (List.dropLast_subset _ hy)

/-- With no picture held every queued node is emptied. -/
theorem reset (h : Tracked s a L) (hw : WellBehaved s .reset) :
    ∃ s', next s .reset = some s' ∧ Tracked s' 0 [] := by
  have hheld : s.held = [] := hw
  have hL : L = s.m.pSbmFrameBufferValidQueue := by rw [h.nodes, hheld]; rfl
  have hempty : s.m.pSbmFrameBufferValidQueue.foldl Queue.linkLast s.m.pSbmFrameBufferEmptyQueue =
      s.m.pSbmFrameBufferEmptyQueue ++ L := by
    rw [← hL]
    exact Queue.foldl_linkLast h.nodup
  refine ⟨_, rfl, ?_⟩
  unfold SbmFrame.reset
  rw [hempty]
  constructor
  · simp [hheld]
  · simpa using h.partition
  · exact h.max
  · simp
  · simp
  · simp
  · simp
  · simp
  · simp
  · exact h.held
  · exact h.last
  · intro hnone
    have hfresh := h.fresh hnone
    have hlen := h.partition.length_eq
    rw [hfresh, List.length_append, List.length_range] at hlen
    have hnil : L = [] := by
      apply List.eq_nil_of_length_eq_zero
      simp only [List.length_cons, List.length_nil, maxFrameBufferNum] at hlen
      omega
    dsimp only
    rw [hfresh, hnil, List.append_nil]

/-- The oldest unflushed picture, and its node. -/
theorem head_eq (h : Tracked s a L) (hw : WellBehaved s (.flushFramePic slot)) :
    ∃ node held, s.held = (slot, node) :: held ∧
      L = node :: (held.map Prod.snd ++ s.m.pSbmFrameBufferValidQueue) ∧
      slot = a % maxFramePicNum ∧ (s.m.pSbmFrameBuffer node).pFramePic = some slot ∧
      (s.m.mFramePicFifo.pFramePics slot).pSbmFrameBufferManager = some node ∧ node < 2 := by
  obtain ⟨⟨t, node⟩, hx, rfl⟩ := hw
  obtain ⟨held, hheld⟩ : ∃ held, s.held = (t, node) :: held := by
    cases hs : s.held with
    | nil => simp [hs] at hx
    | cons x held =>
      simp only [hs, List.head?_cons, Option.mem_some_iff] at hx
      exact ⟨held, by rw [hx]⟩
  have hL : L = node :: (held.map Prod.snd ++ s.m.pSbmFrameBufferValidQueue) := by
    rw [h.nodes, hheld]
    rfl
  have hmem : node ∈ L := by rw [hL]; exact List.mem_cons_self
  have hpic := h.held (t, node) (by rw [hheld]; exact List.mem_cons_self)
  have hplace := h.pic_eq (k := 0) (n := node) (by rw [hL]; rfl)
  have hslot : t = a % maxFramePicNum := by
    rw [hpic, Nat.add_zero, Option.some.injEq] at hplace
    exact hplace
  have hlt : node < 2 := by
    have := h.partition.mem_iff.1 (List.mem_append_right _ hmem)
    exact List.mem_range.1 this
  exact ⟨node, held, hheld, hL, hslot, hpic, h.managers node hmem t hpic, hlt⟩

/-- Node 0 has had a picture before any is flushed. -/
theorem first_ne_none (h : Tracked s a L) (hL : L ≠ []) :
    ∃ old, (s.m.pSbmFrameBuffer 0).pFramePic = some old := by
  rcases hold : (s.m.pSbmFrameBuffer 0).pFramePic with _ | old
  · have hlen := h.partition.length_eq
    have := List.length_pos_iff.2 hL
    simp only [h.fresh hold, List.length_append, List.length_cons, List.length_nil,
      List.length_range, maxFrameBufferNum] at hlen
    omega
  · exact ⟨old, rfl⟩

/-- The flush of the oldest picture; `found` is the node its loop stops at. -/
theorem flush_eq (h : Tracked s a L) {found : Nat} (hs : slot = a % maxFramePicNum)
    (hL : 0 < L.length)
    (hfound : s.m.findNode (s.m.mFramePicFifo.pFramePics slot).pSbmFrameBufferManager
      (List.range maxFrameBufferNum) = some found) :
    next s (.flushFramePic slot) = some
      ⟨{ s.m with
          nValidDataSize :=
            i32 (s.m.nValidDataSize - (s.m.mFramePicFifo.pFramePics slot).nlength)
          emptyFramePicSem := if s.m.emptyFramePicSem = 0 then 1 else s.m.emptyFramePicSem
          pSbmFrameBufferEmptyQueue := Queue.linkLast s.m.pSbmFrameBufferEmptyQueue found
          mFramePicFifo :=
            { s.m.mFramePicFifo with
              nFPFlushPos := (a + 1) % maxFramePicNum
              nValidFramePicNum := s.m.mFramePicFifo.nValidFramePicNum - 1 } },
        s.held.tail⟩ := by
  have hslots : 0 < maxFramePicNum := by decide
  have hvalid : s.m.mFramePicFifo.nValidFramePicNum ≠ 0 := by
    have := h.valid
    omega
  subst hs
  simp only [next, SbmFrame.flushFramePicNew, hfound, Option.bind_some, SbmFrame.flushFramePic,
    hvalid, if_false, h.flushPos, h.max, ne_eq, not_true_eq_false, Ring.wrap_succ hslots,
    Option.map_some]

/-- Where the loop stops: at node 0 if that one points at a picture of the same
manager, and else at the right one. -/
theorem find_eq (h : Tracked s a L) (hw : WellBehaved s (.flushFramePic slot)) :
    ∃ node held found, s.held = (slot, node) :: held ∧
      L = node :: (held.map Prod.snd ++ s.m.pSbmFrameBufferValidQueue) ∧
      slot = a % maxFramePicNum ∧
      s.m.findNode (s.m.mFramePicFifo.pFramePics slot).pSbmFrameBufferManager
        (List.range maxFrameBufferNum) = some found ∧
      (found = node ↔ NotStale s (.flushFramePic slot)) := by
  obtain ⟨node, held, hheld, hL, hslot, hpic, hmgr, hlt⟩ := h.head_eq hw
  obtain ⟨old, hold⟩ := h.first_ne_none (by rw [hL]; exact List.cons_ne_nil _ _)
  have hrange : List.range maxFrameBufferNum = [0, 1] := rfl
  have hcases : node = 0 ∨ node = 1 := by omega
  rcases hcases with rfl | rfl
  · refine ⟨0, held, 0, hheld, hL, hslot, ?_, ?_⟩
    · simp [hrange, SbmFrame.findNode, hpic]
    · simp [NotStale, hmgr]
  · by_cases hstale : (s.m.mFramePicFifo.pFramePics old).pSbmFrameBufferManager = some 1
    · refine ⟨1, held, 0, hheld, hL, hslot, ?_, ?_⟩
      · simp [hrange, SbmFrame.findNode, hold, hmgr, hstale]
      · simp [NotStale, hmgr, hold, hstale]
    · refine ⟨1, held, 1, hheld, hL, hslot, ?_, ?_⟩
      · simp [hrange, SbmFrame.findNode, hold, hpic, hmgr, Ne.symm hstale]
      · simp [NotStale, hmgr, hold, hstale]

/-- The right node goes to the empty ones. -/
theorem flushFramePic (h : Tracked s a L) (hw : WellBehaved s (.flushFramePic slot))
    (hn : NotStale s (.flushFramePic slot)) :
    ∃ s' L', next s (.flushFramePic slot) = some s' ∧ Tracked s' (a + 1) L' ∧
      ∀ x ∈ s.held, x.1 = slot →
        s'.m.pSbmFrameBufferEmptyQueue = s.m.pSbmFrameBufferEmptyQueue ++ [x.2] := by
  obtain ⟨node, held, found, hheld, hL, hslot, hfound, hiff⟩ := h.find_eq hw
  obtain rfl := hiff.2 hn
  have hlen : L.length = (held.map Prod.snd ++ s.m.pSbmFrameBufferValidQueue).length + 1 := by
    rw [hL, List.length_cons]
  have hempty := Queue.linkLast_eq (h.notMem_empty (by rw [hL]; exact List.mem_cons_self))
  have hnext := h.flush_eq hslot (by omega) hfound
  rw [hempty] at hnext
  have hvalid := h.valid
  have hpics := h.pics
  have hle := h.length_le
  refine ⟨_, held.map Prod.snd ++ s.m.pSbmFrameBufferValidQueue, hnext, ?_, ?_⟩
  · constructor
    · simp [hheld]
    · apply List.Perm.trans _ h.partition
      rw [hL]
      simp
    · exact h.max
    · dsimp only
      omega
    · have := h.fits
      dsimp only
      omega
    · rfl
    · rw [h.readPos, hlen, Nat.add_assoc, Nat.add_comm 1]
    · rw [hL, List.map_cons, List.length_cons, List.range_succ_eq_map, List.map_cons,
        List.cons.injEq] at hpics
      rw [hpics.2, List.map_map]
      simp only [comp_def, Nat.add_assoc, Nat.add_comm 1]
    · intro n hn
      exact h.managers n (by rw [hL]; exact List.mem_cons_of_mem _ hn)
    · intro x hx
      exact h.held x (by rw [hheld] at hx ⊢; exact List.mem_cons_of_mem _ hx)
    · intro n hn x hx
      apply h.last n hn x
      rw [hheld] at hx ⊢
      cases held with
      | nil => cases hx
      | cons y held => simpa using hx
    · intro hnone
      have := h.fresh hnone
      obtain ⟨old, hold⟩ := h.first_ne_none (by rw [hL]; exact List.cons_ne_nil _ _)
      rw [hold] at hnone
      cases hnone
  · intro x hx hxs
    have hfst := h.manager_held (by rw [hheld]; exact List.mem_cons_self : (slot, found) ∈ s.held)
    rw [← hxs, h.manager_held hx, Option.some.injEq] at hfst
    rw [hfst]

/-- A flush that stops at node 0 for node 1 does not empty node 1. -/
theorem not_exact (h : Tracked s a L) (hw : WellBehaved s (.flushFramePic slot))
    (hn : ¬NotStale s (.flushFramePic slot)) : ¬Exact s (.flushFramePic slot) := by
  obtain ⟨node, held, found, hheld, hL, hslot, hfound, hiff⟩ := h.find_eq hw
  have hne : found ≠ node := fun he => hn (hiff.1 he)
  rintro ⟨s', hs', -, hflush⟩
  have hnext := h.flush_eq hslot (by rw [hL]; exact Nat.succ_pos _) hfound
  rw [hs', Option.some.injEq] at hnext
  have hlast := hflush slot rfl (slot, node) (by rw [hheld]; exact List.mem_cons_self) rfl
  rw [hnext] at hlast
  dsimp only at hlast
  unfold Queue.linkLast at hlast
  split at hlast <;> exact hne (List.append_inj_right' hlast rfl |> List.singleton_inj.1)

/-- **One call** of a well-behaved user is exact unless it flushes past a stale
pointer. -/
theorem exact_iff (h : Tracked s a L) (hw : WellBehaved s i) : Exact s i ↔ NotStale s i := by
  cases i with
  | addFramePic nlength =>
    obtain ⟨s', hs, h'⟩ := h.addFramePic nlength
    exact iff_of_true ⟨s', hs, h'.toPartition, nofun⟩ trivial
  | copySbmFrameData =>
    obtain ⟨s', L', hs, h'⟩ := h.copySbmFrameData
    exact iff_of_true ⟨s', hs, h'.toPartition, nofun⟩ trivial
  | requestFramePic =>
    obtain ⟨s', hs, h'⟩ := h.requestFramePic
    exact iff_of_true ⟨s', hs, h'.toPartition, nofun⟩ trivial
  | returnFramePic slot =>
    obtain ⟨s', hs, h'⟩ := h.returnFramePic hw
    exact iff_of_true ⟨s', hs, h'.toPartition, nofun⟩ trivial
  | flushFramePic slot =>
    constructor
    · intro hex
      by_contra hn
      exact h.not_exact hw hn hex
    · intro hn
      obtain ⟨s', L', hs, h', hflush⟩ := h.flushFramePic hw hn
      refine ⟨s', hs, h'.toPartition, ?_⟩
      rintro t ⟨⟩
      exact hflush
  | reset =>
    obtain ⟨s', hs, h'⟩ := h.reset hw
    exact iff_of_true ⟨s', hs, h'.toPartition, nofun⟩ trivial

theorem next (h : Tracked s a L) (hw : WellBehaved s i) (hn : NotStale s i)
    (hs : next s i = some s') : ∃ a' L', Tracked s' a' L' := by
  cases i with
  | addFramePic nlength =>
    obtain ⟨t, ht, h'⟩ := h.addFramePic nlength
    cases hs.symm.trans ht
    exact ⟨a, L, h'⟩
  | copySbmFrameData =>
    obtain ⟨t, L', ht, h'⟩ := h.copySbmFrameData
    cases hs.symm.trans ht
    exact ⟨a, L', h'⟩
  | requestFramePic =>
    obtain ⟨t, ht, h'⟩ := h.requestFramePic
    cases hs.symm.trans ht
    exact ⟨a, L, h'⟩
  | returnFramePic slot =>
    obtain ⟨t, ht, h'⟩ := h.returnFramePic hw
    cases hs.symm.trans ht
    exact ⟨a, L, h'⟩
  | flushFramePic slot =>
    obtain ⟨t, L', ht, h', -⟩ := h.flushFramePic hw hn
    cases hs.symm.trans ht
    exact ⟨a + 1, L', h'⟩
  | reset =>
    obtain ⟨t, ht, h'⟩ := h.reset hw
    cases hs.symm.trans ht
    exact ⟨0, [], h'⟩

end Tracked

end

/-- **The frame buffers**: in a run with a well-behaved decoder every node stays
on one queue or with the decoder, and each flush empties the node that carries
the picture, if and only if no flush of a picture in node 1 finds node 0
pointing at a picture in node 1. -/
theorem flush_exact_iff {size : Nat} {is : List Input}
    (hw : frames.Meets WellBehaved (start size) is) :
    (Partition (start size) ∧ frames.Meets Exact (start size) is) ↔
      frames.Meets NotStale (start size) is := by
  have hstart := start_tracked size
  have hiff : frames.Meets (fun s i => WellBehaved s i ∧ Exact s i) (start size) is ↔
      frames.Meets (fun s i => WellBehaved s i ∧ NotStale s i) (start size) is := by
    apply Machine.meets_iff (I := fun s => ∃ a L, Tracked s a L)
    · rintro s i ⟨a, L, h⟩
      exact and_congr_right fun hi => h.exact_iff hi
    · rintro s i s' ⟨a, L, h⟩ ⟨hi, hex⟩ hs
      exact h.next hi ((h.exact_iff hi).1 hex) hs
    · exact ⟨0, [], hstart⟩
  rw [Machine.meets_and, Machine.meets_and, and_iff_right hw, and_iff_right hw] at hiff
  rw [and_iff_right hstart.toPartition, hiff]

/-- A picture goes through node 0. -/
def onePicture : List Input :=
  [.addFramePic 10, .copySbmFrameData, .requestFramePic, .flushFramePic 0]

theorem onePicture_wellBehaved : frames.Meets WellBehaved (start 0) onePicture := by
  refine ⟨trivial, ?_⟩
  rintro s ⟨⟩
  refine ⟨trivial, ?_⟩
  rintro s ⟨⟩
  refine ⟨trivial, ?_⟩
  rintro s ⟨⟩
  exact ⟨⟨(0, 0), rfl, rfl⟩, fun _ _ => trivial⟩

theorem flush_exact_one : Partition (start 0) ∧ frames.Meets Exact (start 0) onePicture := by
  refine (flush_exact_iff onePicture_wellBehaved).2 ⟨trivial, ?_⟩
  rintro s ⟨⟩
  refine ⟨trivial, ?_⟩
  rintro s ⟨⟩
  refine ⟨trivial, ?_⟩
  rintro s ⟨⟩
  refine ⟨?_, fun _ _ => trivial⟩
  intro hmgr
  exact absurd hmgr (by decide)

/-- After the reset the first slot is copied into node 1, while node 0 still
points at it; flushing it empties node 0 again. -/
theorem flush_inexact_reset :
    frames.Meets WellBehaved (start 0) (onePicture ++ .reset :: onePicture) ∧
      ¬frames.Meets Exact (start 0) (onePicture ++ .reset :: onePicture) := by
  constructor
  · refine ⟨trivial, ?_⟩
    rintro s ⟨⟩
    refine ⟨trivial, ?_⟩
    rintro s ⟨⟩
    refine ⟨trivial, ?_⟩
    rintro s ⟨⟩
    refine ⟨⟨(0, 0), rfl, rfl⟩, ?_⟩
    rintro s ⟨⟩
    refine ⟨rfl, ?_⟩
    rintro s ⟨⟩
    refine ⟨trivial, ?_⟩
    rintro s ⟨⟩
    refine ⟨trivial, ?_⟩
    rintro s ⟨⟩
    refine ⟨trivial, ?_⟩
    rintro s ⟨⟩
    exact ⟨⟨(0, 1), rfl, rfl⟩, fun _ _ => trivial⟩
  · intro h
    have hsplit : onePicture ++ .reset :: onePicture =
        (onePicture ++ [.reset, .addFramePic 10, .copySbmFrameData, .requestFramePic]) ++
          [.flushFramePic 0] := rfl
    rw [hsplit] at h
    obtain ⟨⟨s', hs', -, hflush⟩, -⟩ := h.append_right rfl
    cases hs'
    have := hflush 0 rfl (0, 1) (.head _) rfl
    exact absurd this (by decide +kernel)

end Nodes

end Melis.Vdec
