import Melis.Lib.C
import Melis.Lib.Ring
import Melis.Lib.Run

/-!
# The stream buffer of the video decoder

The parser requests room for a frame, fills it and adds it; the decoder requests
the frames in order, returns the last one it could not use, and flushes the ones
it has decoded. The bytes lie one behind another in one ring, the descriptions
of the frames in another one of 2048 slots with three cursors.
-/

namespace Melis.Vdec

open Lib Function

/-- `VideoStreamDataInfo`. An address is its distance from the start of the
stream buffer, `none` is `NULL`. -/
structure VideoStreamDataInfo (ρ : Type) where
  pData : Option Int
  nLength : Int
  nID : Int
  bValid : Int
  rest : ρ
deriving DecidableEq

def sbmFrameFifoSize : Nat := 2048

structure StreamFrameFifo (ρ : Type) where
  pFrames : Nat → VideoStreamDataInfo ρ
  nMaxFrameNum : Nat
  nValidFrameNum : Nat
  nUnReadFrameNum : Nat
  nReadPos : Nat
  nWritePos : Nat
  nFlushPos : Nat

/-- `pStreamBuffer` is 0. -/
structure SbmStream (ρ : Type) where
  pStreamBufferEnd : Int
  nStreamBufferSize : Int
  pWriteAddr : Int
  nValidDataSize : Int
  frameFifo : StreamFrameFifo ρ

variable {ρ : Type}

/-- `SbmStreamInit`; `memory` says whether the two allocations succeed. -/
def sbmStreamInit [Inhabited ρ] (nSbmBufferTotalSize : Int) (memory : Bool) :
    Option (SbmStream ρ) :=
  if nSbmBufferTotalSize ≤ 0 ∨ memory = false then none
  else
    some
      { pStreamBufferEnd := nSbmBufferTotalSize - 1
        nStreamBufferSize := nSbmBufferTotalSize
        pWriteAddr := 0
        nValidDataSize := 0
        frameFifo := ⟨fun i => ⟨none, 0, i, 0, default⟩, sbmFrameFifoSize, 0, 0, 0, 0, 0⟩ }

namespace SbmStream

variable (m : SbmStream ρ)

/-- `SbmStreamReset` leaves the table of the frames alone. -/
def reset : SbmStream ρ :=
  { m with
    pWriteAddr := 0
    nValidDataSize := 0
    frameFifo :=
      { m.frameFifo with
        nReadPos := 0
        nWritePos := 0
        nFlushPos := 0
        nValidFrameNum := 0
        nUnReadFrameNum := 0 } }

/-- `SbmStreamRequestBuffer`: the address and the size; `none` is the result -1. -/
def requestBuffer (nRequireSize : Int) : Option (Int × Int) :=
  if m.frameFifo.nMaxFrameNum ≤ m.frameFifo.nValidFrameNum then none
  else if m.nValidDataSize < m.nStreamBufferSize then
    if m.nStreamBufferSize - m.nValidDataSize < i32 (nRequireSize + 64) then none
    else some (m.pWriteAddr, nRequireSize)
  else none

/-- `SbmStreamAddStream`; `none` is the result -1. -/
def addStream (x : VideoStreamDataInfo ρ) : Option (SbmStream ρ) :=
  let q := m.frameFifo
  if x.pData = none then none
  else if q.nMaxFrameNum ≤ q.nValidFrameNum then none
  else if m.nStreamBufferSize < i32 (x.nLength + m.nValidDataSize) then none
  else
    some
      { m with
        pWriteAddr := if m.pStreamBufferEnd < m.pWriteAddr + x.nLength
          then m.pWriteAddr + x.nLength - m.nStreamBufferSize else m.pWriteAddr + x.nLength
        nValidDataSize := i32 (m.nValidDataSize + x.nLength)
        frameFifo :=
          { q with
            pFrames := update q.pFrames q.nWritePos
              (if x.bValid = 0 then { x with bValid := 1 } else x)
            nWritePos := if q.nMaxFrameNum ≤ q.nWritePos + 1 then 0 else q.nWritePos + 1
            nValidFrameNum := q.nValidFrameNum + 1
            nUnReadFrameNum := q.nUnReadFrameNum + 1 } }

/-- `SbmStreamRequestStream`: the slot of the frame, whose address it returns. -/
def requestStream : Option (SbmStream ρ × Nat) :=
  let q := m.frameFifo
  if q.nUnReadFrameNum = 0 then none
  else
    some
      ({ m with
          frameFifo :=
            { q with
              nReadPos := if q.nMaxFrameNum ≤ q.nReadPos + 1 then 0 else q.nReadPos + 1
              nUnReadFrameNum := q.nUnReadFrameNum - 1 } },
        q.nReadPos)

/-- The result of a call that may end the program. -/
inductive Outcome (α : Type) where
  | failed
  | done (a : α)
  | abort

/-- `SbmStreamReturnStream` for the frame in `slot`. -/
def returnStream (slot : Nat) : Outcome (SbmStream ρ) :=
  let q := m.frameFifo
  let nReadPos := if q.nReadPos = 0 then q.nMaxFrameNum - 1 else q.nReadPos - 1
  if q.nValidFrameNum = 0 then .failed
  else if slot ≠ nReadPos then .abort
  else
    .done
      { m with
        frameFifo :=
          { q with
            pFrames := update q.pFrames nReadPos (q.pFrames slot)
            nUnReadFrameNum := q.nUnReadFrameNum + 1
            nReadPos := nReadPos } }

/-- `SbmStreamFlushStream` for the frame in `slot`. -/
def flushStream (slot : Nat) : Outcome (SbmStream ρ) :=
  let q := m.frameFifo
  if q.nValidFrameNum = 0 then .failed
  else if slot ≠ q.nFlushPos then .abort
  else
    .done
      { m with
        nValidDataSize := i32 (m.nValidDataSize - (q.pFrames slot).nLength)
        frameFifo :=
          { q with
            nFlushPos := if q.nMaxFrameNum ≤ q.nFlushPos + 1 then 0 else q.nFlushPos + 1
            nValidFrameNum := q.nValidFrameNum - 1 } }

/-- The frames in the queue, the oldest first. -/
def queue : List (VideoStreamDataInfo ρ) :=
  Ring.read m.frameFifo.pFrames m.frameFifo.nMaxFrameNum m.frameFifo.nFlushPos
    m.frameFifo.nValidFrameNum

end SbmStream

/-! ## Runs -/

/-- The buffer and its users, since the last reset. `grants` are the buffers
granted since the last frame was added, `held` the slots of the frames requested
and neither returned nor flushed, the oldest first, `flushAddr` the first byte
that is not flushed. A frame that is returned is not delivered. -/
structure State (ρ : Type) where
  m : SbmStream ρ
  grants : List (Int × Int)
  held : List Nat
  flushAddr : Int
  added : List (VideoStreamDataInfo ρ)
  delivered : List (VideoStreamDataInfo ρ)

inductive Input (ρ : Type) where
  | requestBuffer (nRequireSize : Int)
  | addStream (x : VideoStreamDataInfo ρ)
  | requestStream
  | returnStream (slot : Nat)
  | flushStream (slot : Nat)
  | reset

def start (m : SbmStream ρ) : State ρ := ⟨m, [], [], 0, [], []⟩

def next (s : State ρ) : Input ρ → Option (State ρ)
  | .requestBuffer n =>
    match s.m.requestBuffer n with
    | none => some s
    | some g => some { s with grants := s.grants ++ [g] }
  | .addStream x =>
    match s.m.addStream x with
    | none => some s
    | some m =>
      some
        { s with
          m := m
          grants := []
          added := s.added ++ [m.frameFifo.pFrames s.m.frameFifo.nWritePos] }
  | .requestStream =>
    match s.m.requestStream with
    | none => some s
    | some (m, slot) =>
      some
        { s with
          m := m
          held := s.held ++ [slot]
          delivered := s.delivered ++ [m.frameFifo.pFrames slot] }
  | .returnStream slot =>
    match s.m.returnStream slot with
    | .failed => some s
    | .done m =>
      some { s with m := m, held := s.held.dropLast, delivered := s.delivered.dropLast }
    | .abort => none
  | .flushStream slot =>
    match s.m.flushStream slot with
    | .failed => some s
    | .done m =>
      some
        { s with
          m := m
          held := s.held.tail
          flushAddr :=
            (s.flushAddr + (s.m.frameFifo.pFrames slot).nLength) % s.m.nStreamBufferSize }
    | .abort => none
  | .reset => some (start s.m.reset)

abbrev streams (ρ : Type) : Machine (State ρ) (Input ρ) := ⟨next⟩

/-- The parser adds frames it wrote into a granted buffer, for sizes that leave
room for the slack of 64 bytes in an `int`; the decoder returns the frame it
requested last, and flushes frames it holds. -/
def WellBehaved (s : State ρ) : Input ρ → Prop
  | .requestBuffer n => -2 ^ 31 ≤ n ∧ n + 64 < 2 ^ 31
  | .addStream x =>
    x.pData = none ∨ ∃ g ∈ s.grants, x.pData = some g.1 ∧ 0 ≤ x.nLength ∧ x.nLength ≤ g.2
  | .requestStream => True
  | .returnStream slot => s.held.getLast? = some slot
  | .flushStream slot => slot ∈ s.held
  | .reset => True

/-- The bytes from `p` on in a ring of `size` bytes. -/
def bytes (size p n : Int) : Set Nat := Ring.region size.toNat p.toNat n.toNat

/-- The bytes of a frame. -/
def VideoStreamDataInfo.bytes (size : Int) (x : VideoStreamDataInfo ρ) : Set Nat :=
  x.pData.elim ∅ fun p => Vdec.bytes size p x.nLength

/-- What the three cursors say. -/
structure Sound (s : State ρ) : Prop where
  dataSize : s.m.nValidDataSize = (s.m.queue.map VideoStreamDataInfo.nLength).sum
  frameNum : s.m.frameFifo.nUnReadFrameNum ≤ s.m.frameFifo.nValidFrameNum ∧
    s.m.frameFifo.nValidFrameNum ≤ s.m.frameFifo.nMaxFrameNum
  readPos : s.m.frameFifo.nReadPos =
    (s.m.frameFifo.nFlushPos +
      (s.m.frameFifo.nValidFrameNum - s.m.frameFifo.nUnReadFrameNum)) %
      s.m.frameFifo.nMaxFrameNum
  writeAddr : s.m.pWriteAddr = (s.flushAddr + s.m.nValidDataSize) % s.m.nStreamBufferSize
  flushAddr : ∀ x ∈ s.m.queue.head?, x.pData = some s.flushAddr
  disjoint : s.m.queue.Pairwise fun x y =>
    Disjoint (x.bytes s.m.nStreamBufferSize) (y.bytes s.m.nStreamBufferSize)
  granted : ∀ g ∈ s.grants, ∀ x ∈ s.m.queue,
    Disjoint (x.bytes s.m.nStreamBufferSize) (bytes s.m.nStreamBufferSize g.1 g.2)
  fifo : s.delivered <+: s.added

/-! ## The queue -/

def VideoStreamDataInfo.len (x : VideoStreamDataInfo ρ) : Nat := x.nLength.toNat

/-- `q` are the frames in the queue, the oldest in slot `a` and at byte `p`, both
counted without going around, and `fl` the frames flushed before them. -/
structure Queued (s : State ρ) (B a p : Nat) (fl q : List (VideoStreamDataInfo ρ)) : Prop where
  size : s.m.nStreamBufferSize = B
  last : s.m.pStreamBufferEnd = B - 1
  max : s.m.frameFifo.nMaxFrameNum = sbmFrameFifoSize
  table : Ring.read s.m.frameFifo.pFrames sbmFrameFifoSize a q.length = q
  valid : s.m.frameFifo.nValidFrameNum = q.length
  fits : q.length ≤ sbmFrameFifoSize
  unread : s.m.frameFifo.nUnReadFrameNum + s.held.length = q.length
  flushPos : s.m.frameFifo.nFlushPos = a % sbmFrameFifoSize
  readPos : s.m.frameFifo.nReadPos = (a + s.held.length) % sbmFrameFifoSize
  writePos : s.m.frameFifo.nWritePos = (a + q.length) % sbmFrameFifoSize
  held : s.held = (List.range s.held.length).map fun i => (a + i) % sbmFrameFifoSize
  lengths : ∀ x ∈ q, 0 ≤ x.nLength
  placed : q.map (fun x => (x.pData, x.len)) =
    (Ring.layout B p (q.map VideoStreamDataInfo.len)).map fun r => (some (r.1 : Int), r.2)
  total : (q.map VideoStreamDataInfo.len).sum ≤ B
  dataSize : s.m.nValidDataSize = (q.map VideoStreamDataInfo.len).sum
  flushAddr : s.flushAddr = ((p % B : Nat) : Int)
  writeAddr : s.m.pWriteAddr = (((p + (q.map VideoStreamDataInfo.len).sum) % B : Nat) : Int)
  grants : ∀ g ∈ s.grants, g.1 = s.m.pWriteAddr ∧ s.m.nValidDataSize + g.2 ≤ B
  added : s.added = fl ++ q
  delivered : s.delivered = fl ++ q.take s.held.length

section

variable {s s' : State ρ} {B a p slot : Nat} {fl q : List (VideoStreamDataInfo ρ)}
  {x : VideoStreamDataInfo ρ} {i : Input ρ} {n : Int}

theorem sum_len (h : ∀ x ∈ q, 0 ≤ x.nLength) :
    (((q.map VideoStreamDataInfo.len).sum : Nat) : Int) =
      (q.map VideoStreamDataInfo.nLength).sum := by
  induction q with
  | nil => rfl
  | cons x q ih =>
    obtain ⟨hx, h⟩ := List.forall_mem_cons.1 h
    have hlen : ((x.len : Nat) : Int) = x.nLength := Int.toNat_of_nonneg hx
    rw [List.map_cons, List.map_cons, List.sum_cons, List.sum_cons, ← ih h, Int.natCast_add, hlen]

namespace Queued

theorem queue_eq (h : Queued s B a p fl q) : s.m.queue = q := by
  unfold SbmStream.queue
  rw [h.max, h.valid, h.flushPos, Ring.read_mod, h.table]

/-- The bytes of the frames, laid out from `p` on. -/
theorem bytes_eq (h : Queued s B a p fl q) :
    q.map (VideoStreamDataInfo.bytes B) =
      (Ring.layout B p (q.map VideoStreamDataInfo.len)).map fun r => Ring.region B r.1 r.2 := by
  have hbytes : ∀ y : VideoStreamDataInfo ρ,
      y.bytes B = (y.pData.elim ∅ fun p => Ring.region B p.toNat y.len) := fun y => rfl
  calc q.map (VideoStreamDataInfo.bytes B)
      = (q.map fun x => (x.pData, x.len)).map fun d =>
          d.1.elim ∅ fun p => Ring.region B p.toNat d.2 := by
        rw [List.map_map]
        rfl
    _ = _ := by
        rw [h.placed, List.map_map]
        rfl

theorem disjoint_grant (h : Queued s B a p fl q) {g : Int × Int} (hg : g ∈ s.grants)
    (hx : x ∈ q) : Disjoint (x.bytes B) (bytes B g.1 g.2) := by
  obtain ⟨haddr, hroom⟩ := h.grants g hg
  have htotal := h.total
  rw [h.dataSize] at hroom
  have hmem : x.bytes B ∈ (Ring.layout B p (q.map VideoStreamDataInfo.len)).map
      fun r => Ring.region B r.1 r.2 := by
    rw [← h.bytes_eq]
    exact List.mem_map_of_mem hx
  obtain ⟨r, hr, hbytes⟩ := List.mem_map.1 hmem
  have hround : Ring.layout B p (q.map VideoStreamDataInfo.len) =
      Ring.layout B (p + B) (q.map VideoStreamDataInfo.len) :=
    Ring.layout_congr (Nat.add_mod_right p B).symm
  rw [hround] at hr
  have hdisj := Ring.disjoint_layout (n := g.2.toNat)
    (p := p + (q.map VideoStreamDataInfo.len).sum) (by omega) (by omega) r hr
  rw [← hbytes, haddr, h.writeAddr]
  unfold bytes
  rw [Int.toNat_natCast, Int.toNat_natCast, Ring.region_mod]
  exact hdisj.symm

theorem sound (h : Queued s B a p fl q) : Sound s := by
  have hunread := h.unread
  have hqueue := h.queue_eq
  refine ⟨?_, ?_, ?_, ?_, ?_, ?_, ?_, ?_⟩
  · rw [hqueue, h.dataSize, sum_len h.lengths]
  · rw [h.valid, h.max]
    exact ⟨by omega, h.fits⟩
  · rw [h.readPos, h.flushPos, h.valid, h.max, Nat.mod_add_mod]
    congr 2
    omega
  · rw [h.writeAddr, h.flushAddr, h.dataSize, h.size, ← Nat.mod_add_mod]
    norm_cast
  · rw [hqueue, h.flushAddr]
    intro y hy
    have hplaced := h.placed
    cases q with
    | nil => cases hy
    | cons z q =>
      cases hy
      rw [List.map_cons, List.map_cons, Ring.layout, List.map_cons, List.cons.injEq] at hplaced
      exact congrArg Prod.fst hplaced.1
  · rw [hqueue, h.size]
    have hpair : (q.map (VideoStreamDataInfo.bytes B)).Pairwise Disjoint := by
      rw [h.bytes_eq, List.pairwise_map]
      exact Ring.pairwise_layout h.total
    exact List.pairwise_map.1 hpair
  · intro g hg y hy
    rw [hqueue] at hy
    rw [h.size]
    exact h.disjoint_grant hg hy
  · rw [h.added, h.delivered]
    exact List.prefix_append_right_inj fl |>.2 (List.take_prefix _ _)

theorem requestBuffer (h : Queued s B a p fl q) (hn : -2 ^ 31 ≤ n ∧ n + 64 < 2 ^ 31)
    (hs : next s (.requestBuffer n) = some s') : Queued s' B a p fl q := by
  unfold next SbmStream.requestBuffer at hs
  dsimp only at hs
  split at hs
  · cases hs
    exact h
  rename_i g hg
  cases hs
  split at hg
  · cases hg
  split at hg
  swap
  · cases hg
  split at hg
  · cases hg
  rename_i hroom
  cases hg
  rw [i32_eq (by omega) (by omega), h.size] at hroom
  refine { h with grants := ?_ }
  intro g hg
  rcases List.mem_append.1 hg with hg | hg
  · exact h.grants g hg
  · rw [List.mem_singleton.1 hg]
    exact ⟨rfl, by dsimp only; omega⟩

/-- A frame in a granted buffer is laid behind the others. -/
theorem addStream (h : Queued s B a p fl q) (hB0 : 0 < B) (hB : B < 2 ^ 31)
    (hx : WellBehaved s (.addStream x)) (hs : next s (.addStream x) = some s') :
    ∃ q', Queued s' B a p fl q' := by
  unfold next SbmStream.addStream at hs
  dsimp only at hs
  split at hs
  · cases hs
    exact ⟨q, h⟩
  rename_i m hm
  split at hm
  · cases hm
  rename_i hnull
  split at hm
  · cases hm
  rename_i hslot
  split at hm
  · cases hm
  cases hm
  cases hs
  obtain ⟨g, hg, hdata, h0, hlen⟩ : ∃ g ∈ s.grants, x.pData = some g.1 ∧ 0 ≤ x.nLength ∧
      x.nLength ≤ g.2 := by
    rcases hx with hx | hx
    · exact absurd hx hnull
    · exact hx
  obtain ⟨haddr, hgrant⟩ := h.grants g hg
  have htotal := h.total
  have hdatasize := h.dataSize
  rw [h.max, h.valid] at hslot
  generalize hy : (if x.bValid = 0 then { x with bValid := 1 } else x) = y
  have hyd : y.pData = x.pData ∧ y.nLength = x.nLength := by
    rw [← hy]
    split <;> exact ⟨rfl, rfl⟩
  have hylen : (y.len : Int) = x.nLength := by
    rw [← hyd.2]
    exact Int.toNat_of_nonneg (by omega)
  have hslots : 0 < sbmFrameFifoSize := by decide
  have hsum : ((q ++ [y]).map VideoStreamDataInfo.len).sum =
      (q.map VideoStreamDataInfo.len).sum + y.len := by
    simp
  have hfits : (q.map VideoStreamDataInfo.len).sum + y.len ≤ B := by omega
  have hunread := h.unread
  refine ⟨q ++ [y], ?_⟩
  constructor
  · exact h.size
  · exact h.last
  · exact h.max
  · dsimp only
    rw [List.length_append, List.length_singleton, h.writePos, Ring.read_push _ (by omega),
      h.table]
  · dsimp only
    rw [h.valid, List.length_append, List.length_singleton]
  · rw [List.length_append, List.length_singleton]
    omega
  · dsimp only
    rw [List.length_append, List.length_singleton]
    omega
  · exact h.flushPos
  · exact h.readPos
  · dsimp only
    rw [h.max, h.writePos, Ring.wrap_succ hslots, List.length_append, List.length_singleton,
      Nat.add_assoc]
  · exact h.held
  · intro z hz
    rcases List.mem_append.1 hz with hz | hz
    · exact h.lengths z hz
    · rw [List.mem_singleton.1 hz, hyd.2]
      exact h0
  · rw [List.map_append, h.placed, List.map_append, Ring.layout_append, List.map_append]
    simp only [List.map_cons, List.map_nil, Ring.layout, hyd.1, hdata, haddr, h.writeAddr]
  · rw [hsum]
    exact hfits
  · dsimp only
    rw [hsum, i32_eq (by omega) (by omega)]
    omega
  · exact h.flushAddr
  · have hpos := Nat.mod_lt (p + (q.map VideoStreamDataInfo.len).sum) hB0
    dsimp only
    rw [hsum, ← Nat.add_assoc, ← Ring.wrap_add hB0 (by omega : y.len ≤ B), h.last, h.size,
      h.writeAddr, ← hylen]
    split <;> split <;> omega
  · intro _ hx
    cases hx
  · dsimp only
    rw [update_self, h.added, List.append_assoc]
  · dsimp only
    rw [h.delivered, List.take_append_of_le_length (by omega)]

theorem requestStream (h : Queued s B a p fl q) (hs : next s .requestStream = some s') :
    Queued s' B a p fl q := by
  unfold next SbmStream.requestStream at hs
  dsimp only at hs
  split at hs
  · cases hs
    exact h
  rename_i m slot hm
  split at hm
  · cases hm
  rename_i hne
  cases hm
  cases hs
  have hslots : 0 < sbmFrameFifoSize := by decide
  have hunread := h.unread
  have hlt : s.held.length < q.length := by omega
  have hhead : q[s.held.length] = s.m.frameFifo.pFrames s.m.frameFifo.nReadPos := by
    have hread : (Ring.read s.m.frameFifo.pFrames sbmFrameFifoSize a q.length)[s.held.length]? =
        some _ := Ring.getElem?_read hlt
    rw [h.table, List.getElem?_eq_getElem hlt, ← h.readPos] at hread
    exact Option.some.inj hread
  have hlen : (s.held ++ [s.m.frameFifo.nReadPos]).length = s.held.length + 1 := by
    rw [List.length_append, List.length_singleton]
  refine { h with unread := ?_, readPos := ?_, held := ?_, delivered := ?_ }
  · dsimp only
    rw [hlen]
    omega
  · dsimp only
    rw [hlen, h.max, h.readPos, Ring.wrap_succ hslots, Nat.add_assoc]
  · dsimp only
    rw [hlen, List.range_succ, List.map_append, ← h.held, List.map_singleton, h.readPos]
  · dsimp only
    rw [hlen, h.delivered, List.append_assoc, List.take_add_one, List.getElem?_eq_getElem hlt,
      hhead]
    rfl

/-- The frame requested last goes back: the read cursor steps back onto its slot. -/
theorem returnStream (h : Queued s B a p fl q) (hx : WellBehaved s (.returnStream slot))
    (hs : next s (.returnStream slot) = some s') : Queued s' B a p fl q := by
  have hne : s.held ≠ [] := by
    intro he
    unfold WellBehaved at hx
    rw [he] at hx
    cases hx
  have hpos := List.length_pos_iff.2 hne
  have hslots : 0 < sbmFrameFifoSize := by decide
  have hunread := h.unread
  have hread : (if s.m.frameFifo.nReadPos = 0 then s.m.frameFifo.nMaxFrameNum - 1
      else s.m.frameFifo.nReadPos - 1) = (a + (s.held.length - 1)) % sbmFrameFifoSize := by
    rw [h.readPos, h.max]
    have hsucc : a + s.held.length = a + (s.held.length - 1) + 1 := by omega
    rw [hsucc, ← Ring.wrap_succ hslots]
    have := Nat.mod_lt (a + (s.held.length - 1)) hslots
    split <;> split at * <;> omega
  unfold next SbmStream.returnStream at hs
  dsimp only at hs
  rw [hread] at hs
  split at hs
  · cases hs
    exact h
  · rename_i m hm
    split at hm
    · cases hm
    split at hm
    · cases hm
    rename_i hslot
    cases hm
    cases hs
    rw [ne_eq, not_not] at hslot
    have hlen : s.held.dropLast.length = s.held.length - 1 := List.length_dropLast
    have htable : update s.m.frameFifo.pFrames ((a + (s.held.length - 1)) % sbmFrameFifoSize)
        (s.m.frameFifo.pFrames slot) = s.m.frameFifo.pFrames := by
      rw [hslot, update_eq_self]
    refine { h with table := ?_, unread := ?_, readPos := ?_, held := ?_, delivered := ?_ }
    · dsimp only
      rw [htable, h.table]
    · dsimp only
      rw [hlen]
      omega
    · dsimp only
      rw [hlen]
    · dsimp only
      rw [hlen, List.dropLast_eq_take, h.held, ← List.map_take, List.length_map,
        List.length_range, List.take_range, Nat.min_eq_left (by omega)]
    · dsimp only
      have htake : (q.take s.held.length).dropLast = q.take (s.held.length - 1) := by
        rw [List.dropLast_eq_take, List.take_take, List.length_take]
        congr 1
        omega
      have hsome : q.take s.held.length ≠ [] := by
        apply List.ne_nil_of_length_pos
        rw [List.length_take]
        omega
      rw [hlen, h.delivered, List.dropLast_append_of_ne_nil hsome, htake]
  · cases hs

/-- The oldest frame leaves the queue; flushing another one ends the program. -/
theorem flushStream (h : Queued s B a p fl q) (hB0 : 0 < B) (hB : B < 2 ^ 31)
    (hx : WellBehaved s (.flushStream slot)) (hs : next s (.flushStream slot) = some s') :
    ∃ y q', q = y :: q' ∧ Queued s' B (a + 1) (p + y.len) (fl ++ [y]) q' := by
  have hslots : 0 < sbmFrameFifoSize := by decide
  have hunread := h.unread
  obtain ⟨k, held, hheld⟩ : ∃ k held, s.held = k :: held := by
    unfold WellBehaved at hx
    cases he : s.held with
    | nil =>
      rw [he] at hx
      cases hx
    | cons k held => exact ⟨k, held, rfl⟩
  have hheldlen : s.held.length = held.length + 1 := by rw [hheld, List.length_cons]
  obtain ⟨y, q, rfl⟩ : ∃ y q', q = y :: q' := by
    cases q with
    | nil =>
      rw [List.length_nil] at hunread
      omega
    | cons y q' => exact ⟨y, q', rfl⟩
  have hrange := h.held
  rw [hheldlen, hheld, List.range_succ_eq_map, List.map_cons, List.cons.injEq] at hrange
  have htable := h.table
  rw [List.length_cons, Ring.read_succ, List.cons.injEq] at htable
  obtain ⟨hy, htable⟩ := htable
  have hvalid := h.valid
  have hfits := h.fits
  have htotal := h.total
  have hdata := h.dataSize
  have hplaced := h.placed
  have hflush := h.flushAddr
  have hgrants := h.grants
  rw [List.length_cons] at hvalid hfits hunread
  rw [List.map_cons, List.sum_cons] at htotal hdata
  rw [List.map_cons, List.map_cons, Ring.layout, List.map_cons, List.cons.injEq] at hplaced
  have hylen : (y.len : Int) = y.nLength := Int.toNat_of_nonneg (h.lengths y (.head _))
  unfold next SbmStream.flushStream at hs
  dsimp only at hs
  rw [if_neg (by omega), h.flushPos] at hs
  split at hs
  · rename_i hf
    split at hf <;> cases hf
  · rename_i m hm
    split at hm
    · cases hm
    rename_i hslot
    cases hm
    cases hs
    rw [ne_eq, not_not] at hslot
    have hdata' : i32 (s.m.nValidDataSize - (s.m.frameFifo.pFrames slot).nLength) =
        (q.map VideoStreamDataInfo.len).sum := by
      rw [hslot, hy, i32_eq (by omega) (by omega)]
      omega
    refine ⟨y, q, rfl, ?_⟩
    constructor
    · exact h.size
    · exact h.last
    · exact h.max
    · exact htable
    · dsimp only
      omega
    · omega
    · dsimp only
      rw [hheld, List.tail_cons]
      omega
    · dsimp only
      rw [h.max, Ring.wrap_succ hslots]
    · dsimp only
      rw [hheld, List.tail_cons, Nat.add_assoc, Nat.add_comm 1, ← hheldlen]
      exact h.readPos
    · rw [Nat.add_assoc, Nat.add_comm 1]
      exact h.writePos
    · dsimp only
      rw [hheld, List.tail_cons, hrange.2, List.map_map]
      simp only [comp_def, List.length_map, List.length_range, Nat.add_assoc, Nat.add_comm 1]
    · exact fun z hz => h.lengths z (.tail _ hz)
    · exact hplaced.2
    · omega
    · exact hdata'
    · dsimp only
      rw [hflush, h.size, hslot, hy, ← hylen, ← Nat.mod_add_mod]
      norm_cast
    · rw [Nat.add_assoc]
      exact h.writeAddr
    · intro g hg
      obtain ⟨haddr, hroom⟩ := hgrants g hg
      refine ⟨haddr, ?_⟩
      dsimp only
      rw [hdata']
      omega
    · rw [List.append_assoc]
      exact h.added
    · dsimp only
      rw [h.delivered, hheldlen, List.take_succ_cons, hheld, List.tail_cons, List.append_assoc]
      rfl
  · cases hs

end Queued

theorem start_queued (frames : Nat → VideoStreamDataInfo ρ) :
    Queued (start ⟨B - 1, B, 0, 0, ⟨frames, sbmFrameFifoSize, 0, 0, 0, 0, 0⟩⟩) B 0 0 [] [] := by
  unfold start
  constructor <;> simp [Ring.layout, Ring.read]

theorem next_queued (hB0 : 0 < B) (hB : B < 2 ^ 31) (h : ∃ a p fl q, Queued s B a p fl q)
    (hi : WellBehaved s i) (hs : next s i = some s') : ∃ a p fl q, Queued s' B a p fl q := by
  obtain ⟨a, p, fl, q, h⟩ := h
  cases i with
  | requestBuffer n => exact ⟨a, p, fl, q, h.requestBuffer hi hs⟩
  | addStream x =>
    obtain ⟨q', h'⟩ := h.addStream hB0 hB hi hs
    exact ⟨a, p, fl, q', h'⟩
  | requestStream => exact ⟨a, p, fl, q, h.requestStream hs⟩
  | returnStream slot => exact ⟨a, p, fl, q, h.returnStream hi hs⟩
  | flushStream slot =>
    obtain ⟨y, q', -, h'⟩ := h.flushStream hB0 hB hi hs
    exact ⟨_, _, _, q', h'⟩
  | reset =>
    cases hs
    refine ⟨0, 0, [], [], ?_⟩
    unfold SbmStream.reset
    rw [h.size, h.last]
    dsimp only
    rw [h.max]
    exact start_queued s.m.frameFifo.pFrames

end

/-- **The stream buffer**: in every run with well-behaved users the size of the
data is the sum of the frames in the queue, the read cursor is ahead of the flush
cursor by the frames that are requested and not flushed, the write address is
ahead of the flushed bytes by the size of the data, the frames overlap neither
each other nor a granted buffer, and they are delivered in the order they were
added in. -/
theorem sbmStream_sound [Inhabited ρ] {nSbmBufferTotalSize : Int} {memory : Bool}
    {m : SbmStream ρ} {is : List (Input ρ)} {s : State ρ} (hint : nSbmBufferTotalSize < 2 ^ 31)
    (hc : sbmStreamInit nSbmBufferTotalSize memory = some m)
    (hw : (streams ρ).Meets WellBehaved (start m) is)
    (hr : (streams ρ).run (start m) is = some s) : Sound s := by
  unfold sbmStreamInit at hc
  split at hc
  · cases hc
  rename_i hmem
  cases hc
  have hpos : 0 < nSbmBufferTotalSize := by
    rw [not_or] at hmem
    omega
  obtain ⟨B, rfl⟩ := Int.eq_ofNat_of_zero_le hpos.le
  obtain ⟨a, p, fl, q, h⟩ := Machine.run_inv (I := fun s => ∃ a p fl q, Queued s B a p fl q)
    (fun _ _ _ h hi hs => next_queued (by omega) (by omega) h hi hs)
    ⟨0, 0, [], [], start_queued _⟩ hw hr
  exact h.sound

/-- A buffer is requested, ten bytes of it are added, and nobody reads them. -/
def tenBytes : List (Input Nat) := [.requestBuffer 16, .addStream ⟨some 0, 10, 0, 1, 0⟩]

def megabyte : SbmStream Nat :=
  ⟨2 ^ 20 - 1, 2 ^ 20, 0, 0, ⟨fun i => ⟨none, 0, i, 0, 0⟩, sbmFrameFifoSize, 0, 0, 0, 0, 0⟩⟩

theorem tenBytes_wellBehaved : (streams Nat).Meets WellBehaved (start megabyte) tenBytes := by
  refine ⟨⟨by decide, by decide⟩, ?_⟩
  rintro s ⟨⟩
  refine ⟨.inr ⟨(0, 16), .head _, rfl, by decide, by decide⟩, ?_⟩
  intro s _
  trivial

theorem tenBytes_run : ((streams Nat).run (start megabyte) tenBytes).map
    (fun s => (s.m.frameFifo.nReadPos, s.m.frameFifo.nFlushPos, s.m.frameFifo.nUnReadFrameNum,
      s.m.frameFifo.nMaxFrameNum)) = some (0, 0, 1, 2048) := by
  decide +kernel

theorem sbmStream_sound_ten :
    ∃ s, (streams Nat).run (start megabyte) tenBytes = some s ∧ Sound s := by
  obtain ⟨s, hs, -⟩ := Option.map_eq_some_iff.1 tenBytes_run
  have hc : sbmStreamInit (2 ^ 20) true = some megabyte := by
    rw [sbmStreamInit, if_neg (by decide)]
    rfl
  exact ⟨s, hs, sbmStream_sound (by decide) hc tenBytes_wellBehaved hs⟩

/-- The read cursor is not ahead of the flush cursor by what is still to be read. -/
theorem readPos_not_unread :
    (streams Nat).Meets WellBehaved (start megabyte) tenBytes ∧
      ∃ s, (streams Nat).run (start megabyte) tenBytes = some s ∧
        s.m.frameFifo.nReadPos ≠
          (s.m.frameFifo.nFlushPos + s.m.frameFifo.nUnReadFrameNum) %
            s.m.frameFifo.nMaxFrameNum := by
  refine ⟨tenBytes_wellBehaved, ?_⟩
  obtain ⟨s, hs, he⟩ := Option.map_eq_some_iff.1 tenBytes_run
  simp only [Prod.mk.injEq] at he
  obtain ⟨hread, hflush, hunread, hmax⟩ := he
  refine ⟨s, hs, ?_⟩
  rw [hread, hflush, hunread, hmax]
  decide

end Melis.Vdec
