import Melis.Lib.C
import Melis.Lib.Ring
import Melis.Lib.Run

/-!
# The bitstream manager of the video encoder

The encoder adds streams, the muxer gets them in order and returns them. The
streams lie one behind another in one buffer, and their descriptions in a table
of 1024 slots; both are used as rings. The space taken is the length rounded up
to 64 bytes, but a stream is admitted by its own length, so the sums are right
only for buffers of whole units of 64 bytes (`ring_sound_iff`).
-/

namespace Melis.Venc

open Lib Function

structure StreamInfo where
  nStreamOffset : Int
  nStreamLength : Int
  nPts : Int
  nFlags : Int
  nID : Int
  currQp : Int
  avQp : Int
  nGopIndex : Int
  nFrameIndex : Int
  nTotalIndex : Int
  nThumbLen : Int
  nThumbPreExifDataLen : Int
deriving DecidableEq

def StreamInfo.zero : StreamInfo := ⟨0, 0, 0, 0, 0, 0, 0, 0, 0, 0, 0, 0⟩

def bitstreamFrameFifoSize : Nat := 1024

/-- `ALIGN_64B`. -/
def align64B (x : Int) : Int := i32 (x + 63) / 64 * 64

structure BSListQ where
  pStreamInfos : Nat → StreamInfo
  nMaxFrameNum : Nat
  nValidFrameNum : Nat
  nUnReadFrameNum : Nat
  nReadPos : Nat
  nWritePos : Nat

/-- The counters and the table; the bytes of the streams are the encoder's. -/
structure BitStreamManager where
  nStreamBufferSize : Int
  nWriteOffset : Int
  nValidDataSize : Int
  nBSListQ : BSListQ

/-- The size of the buffer: half a megabyte less at each attempt until there is
memory for it. -/
def pallocSize (palloc : Int → Bool) (nBufferSize : Int) : Option Int :=
  if palloc nBufferSize then some nBufferSize
  else if 0 < nBufferSize - 512 * 1024 then pallocSize palloc (nBufferSize - 512 * 1024)
  else none
termination_by nBufferSize.toNat

/-- `BitStreamCreate`, where the memory for its own tables is there. -/
def bitStreamCreate (palloc : Int → Bool) (nBufferSize : Int) : Option BitStreamManager :=
  if nBufferSize ≤ 0 then none
  else
    (pallocSize palloc nBufferSize).map fun n =>
      ⟨n, 0, 0, ⟨fun _ => .zero, bitstreamFrameFifoSize, 0, 0, 0, 0⟩⟩

namespace BitStreamManager

variable (m : BitStreamManager)

/-- `BitStreamAddOneBitstream`; `none` is the result -1. -/
def addOneBitstream (x : StreamInfo) : Option BitStreamManager :=
  let q := m.nBSListQ
  if q.nMaxFrameNum ≤ q.nValidFrameNum then none
  else if m.nStreamBufferSize - m.nValidDataSize < x.nStreamLength then none
  else
    let newWriteOffset := i32 (m.nWriteOffset + align64B x.nStreamLength)
    some
      { m with
        nWriteOffset := if m.nStreamBufferSize ≤ newWriteOffset
          then newWriteOffset - m.nStreamBufferSize else newWriteOffset
        nValidDataSize := i32 (m.nValidDataSize + align64B x.nStreamLength)
        nBSListQ :=
          { q with
            pStreamInfos := update q.pStreamInfos q.nWritePos { x with nID := q.nWritePos }
            nWritePos := if q.nMaxFrameNum ≤ q.nWritePos + 1 then 0 else q.nWritePos + 1
            nValidFrameNum := q.nValidFrameNum + 1
            nUnReadFrameNum := q.nUnReadFrameNum + 1 } }

/-- `BitStreamGetOneBitstream`: the slot of the stream, whose address it returns. -/
def getOneBitstream : Option (BitStreamManager × Nat) :=
  let q := m.nBSListQ
  if q.nUnReadFrameNum = 0 then none
  else
    some
      ({ m with
          nBSListQ :=
            { q with
              nReadPos := if q.nMaxFrameNum ≤ q.nReadPos + 1 then 0 else q.nReadPos + 1
              nUnReadFrameNum := q.nUnReadFrameNum - 1 } },
        q.nReadPos)

/-- `BitStreamReturnOneBitstream` for the stream in `slot`. -/
def returnOneBitstream (slot : Nat) : Option BitStreamManager :=
  let q := m.nBSListQ
  let nID := (q.pStreamInfos slot).nID
  if q.nValidFrameNum = 0 then none
  else
    some
      { m with
        nValidDataSize := i32 (m.nValidDataSize - align64B (q.pStreamInfos nID.toNat).nStreamLength)
        nBSListQ := { q with nValidFrameNum := q.nValidFrameNum - 1 } }

def reset : BitStreamManager :=
  { m with
    nWriteOffset := 0
    nValidDataSize := 0
    nBSListQ := ⟨fun _ => .zero, bitstreamFrameFifoSize, 0, 0, 0, 0⟩ }

end BitStreamManager

/-! ## Runs -/

/-- The manager and its users. `live` are the first byte and the length of each
stream that is added and not returned, `got` the slots of those that were got,
the oldest first; `added` and `delivered` are the streams since the last reset. -/
structure State where
  m : BitStreamManager
  live : List (Int × Int)
  got : List Nat
  added : List StreamInfo
  delivered : List StreamInfo

/-- Streams are returned in the order in which they were got. -/
inductive Input where
  | add (x : StreamInfo)
  | get
  | ret
  | reset

def start (m : BitStreamManager) : State := ⟨m, [], [], [], []⟩

def next (s : State) : Input → Option State
  | .add x =>
    match s.m.addOneBitstream x with
    | none => some s
    | some m =>
      some
        { s with
          m := m
          live := s.live ++ [(s.m.nWriteOffset, align64B x.nStreamLength)]
          added := s.added ++ [m.nBSListQ.pStreamInfos s.m.nBSListQ.nWritePos] }
  | .get =>
    match s.m.getOneBitstream with
    | none => some s
    | some (m, slot) =>
      some
        { s with
          m := m
          got := s.got ++ [slot]
          delivered := s.delivered ++ [m.nBSListQ.pStreamInfos slot] }
  | .ret =>
    match s.got with
    | [] => none
    | slot :: got =>
      match s.m.returnOneBitstream slot with
      | none => some { s with got := got }
      | some m => some { s with m := m, live := s.live.tail, got := got }
  | .reset => some (start s.m.reset)

abbrev bitstreams : Machine State Input := ⟨next⟩

/-- The length is not negative. -/
def Input.Sized : Input → Prop
  | add x => 0 ≤ x.nStreamLength
  | _ => True

/-- The bytes of a stream in a buffer of `size` bytes. -/
def bytes (size : Int) (r : Int × Int) : Set Nat := Ring.region size.toNat r.1.toNat r.2.toNat

/-- The counters are in range, the live streams do not overlap, and streams are
got in the order in which they were added. -/
structure Sound (s : State) : Prop where
  validDataSize : 0 ≤ s.m.nValidDataSize ∧ s.m.nValidDataSize ≤ s.m.nStreamBufferSize
  writeOffset : 0 ≤ s.m.nWriteOffset ∧ s.m.nWriteOffset < s.m.nStreamBufferSize
  frameNum : s.m.nBSListQ.nUnReadFrameNum ≤ s.m.nBSListQ.nValidFrameNum ∧
    s.m.nBSListQ.nValidFrameNum ≤ s.m.nBSListQ.nMaxFrameNum
  disjoint : s.live.Pairwise fun r q =>
    Disjoint (bytes s.m.nStreamBufferSize r) (bytes s.m.nStreamBufferSize q)
  fifo : s.delivered <+: s.added

/-! ## Buffers of whole units -/

/-- The space a stream takes. -/
def space (x : StreamInfo) : Nat := (align64B x.nStreamLength).toNat

/-- `q` are the live streams, the oldest in slot `a` and at byte `p`, both
counted without going around. -/
structure Laid (s : State) (B a p : Nat) (q : List StreamInfo) : Prop where
  size : s.m.nStreamBufferSize = B
  max : s.m.nBSListQ.nMaxFrameNum = bitstreamFrameFifoSize
  table : Ring.read s.m.nBSListQ.pStreamInfos bitstreamFrameFifoSize a q.length = q
  ids : ∀ i x, q[i]? = some x → x.nID = (((a + i) % bitstreamFrameFifoSize : Nat) : Int)
  lengths : ∀ x ∈ q, 0 ≤ x.nStreamLength ∧ x.nStreamLength ≤ B
  valid : s.m.nBSListQ.nValidFrameNum = q.length
  fits : q.length ≤ bitstreamFrameFifoSize
  unread : s.m.nBSListQ.nUnReadFrameNum + s.got.length = q.length
  writePos : s.m.nBSListQ.nWritePos = (a + q.length) % bitstreamFrameFifoSize
  readPos : s.m.nBSListQ.nReadPos = (a + s.got.length) % bitstreamFrameFifoSize
  got : s.got = (List.range s.got.length).map fun i => (a + i) % bitstreamFrameFifoSize
  live : s.live = (Ring.layout B p (q.map space)).map fun r => ((r.1 : Int), (r.2 : Int))
  total : (q.map space).sum ≤ B
  dataSize : s.m.nValidDataSize = (q.map space).sum
  writeOffset : s.m.nWriteOffset = (((p + (q.map space).sum) % B : Nat) : Int)
  added : s.added = s.delivered ++ q.drop s.got.length

section

variable {s s' : State} {B a p : Nat} {q : List StreamInfo} {x : StreamInfo} {i : Input}

theorem align64B_spec {n : Int} (h0 : 0 ≤ n) (h1 : n ≤ 2 ^ 30) :
    n ≤ align64B n ∧ align64B n < n + 64 ∧ 64 ∣ align64B n := by
  unfold align64B
  rw [i32_eq (by omega) (by omega)]
  omega

theorem space_eq {n : Int} (h0 : 0 ≤ x.nStreamLength) (h1 : x.nStreamLength ≤ n)
    (hn : n ≤ 2 ^ 30) : (space x : Int) = align64B x.nStreamLength := by
  have := align64B_spec h0 (by omega)
  unfold space
  omega

theorem dvd_sum_space (hB : B ≤ 2 ^ 30) (h : ∀ x ∈ q, 0 ≤ x.nStreamLength ∧ x.nStreamLength ≤ B) :
    64 ∣ (q.map space).sum := by
  induction q with
  | nil => exact Nat.dvd_zero _
  | cons x q ih =>
    obtain ⟨⟨h0, h1⟩, h⟩ := List.forall_mem_cons.1 h
    have := (align64B_spec h0 (by omega)).2.2
    have := space_eq h0 h1 (by omega)
    have := ih h
    rw [List.map_cons, List.sum_cons]
    omega

theorem Laid.sound (h : Laid s B a p q) (hB : 0 < B) : Sound s := by
  refine ⟨?_, ?_, ?_, ?_, ?_⟩
  · rw [h.dataSize, h.size]
    have := h.total
    omega
  · rw [h.writeOffset, h.size]
    have := Nat.mod_lt (p + (q.map space).sum) hB
    omega
  · rw [h.valid, h.max]
    have := h.unread
    exact ⟨by omega, h.fits⟩
  · rw [h.live, h.size, List.pairwise_map]
    refine (Ring.pairwise_layout h.total).imp fun hd => ?_
    unfold bytes
    simpa using hd
  · rw [h.added]
    exact List.prefix_append ..

theorem start_laid {m : BitStreamManager} (hm : m.nStreamBufferSize = B)
    (h0 : m.nWriteOffset = 0 ∧ m.nValidDataSize = 0)
    (hq : m.nBSListQ = ⟨fun _ => .zero, bitstreamFrameFifoSize, 0, 0, 0, 0⟩) :
    Laid (start m) B 0 0 [] := by
  unfold start
  constructor <;> simp [hm, h0, hq, Ring.layout, Ring.read]

theorem Laid.add (h : Laid s B a p q) (hB0 : 0 < B) (hB : B ≤ 2 ^ 30) (hdvd : 64 ∣ B)
    (hx : 0 ≤ x.nStreamLength) (hs : next s (.add x) = some s') :
    ∃ q', Laid s' B a p q' := by
  unfold next BitStreamManager.addOneBitstream at hs
  dsimp only at hs
  split at hs
  · cases hs
    exact ⟨q, h⟩
  rename_i m hm
  split at hm
  · cases hm
  rename_i hroom
  split at hm
  · cases hm
  rename_i hlen
  cases hm
  cases hs
  rw [h.max, h.valid] at hroom
  rw [h.size, h.dataSize] at hlen
  have htotal := h.total
  have hunits := dvd_sum_space hB h.lengths
  obtain ⟨hal, hau, had⟩ := align64B_spec (n := x.nStreamLength) hx (by omega)
  have hsp := space_eq (x := x) (n := B) hx (by omega) (by omega)
  have hpos := Nat.mod_lt (p + (q.map space).sum) hB0
  have hslots : 0 < bitstreamFrameFifoSize := by decide
  have hfits : (q.map space).sum + space x ≤ B := by omega
  refine ⟨q ++ [{ x with nID := s.m.nBSListQ.nWritePos }], ?_⟩
  have hsum : ((q ++ [{ x with nID := (s.m.nBSListQ.nWritePos : Int) }]).map space).sum =
      (q.map space).sum + space x := by
    simp [space]
  constructor
  · exact h.size
  · exact h.max
  · rw [List.length_append, List.length_singleton, h.writePos]
    dsimp only
    rw [Ring.read_push _ (by omega), h.table]
  · intro i y hy
    rcases Nat.lt_or_ge i q.length with hi | hi
    · rw [List.getElem?_append_left hi] at hy
      exact h.ids i y hy
    · rw [List.getElem?_append_right hi] at hy
      obtain ⟨rfl, hi'⟩ : y = { x with nID := (s.m.nBSListQ.nWritePos : Int) } ∧ i = q.length := by
        rcases hd : i - q.length with _ | k
        · rw [hd] at hy
          exact ⟨(Option.some.inj hy).symm, by omega⟩
        · rw [hd] at hy
          cases hy
      rw [hi', ← h.writePos]
  · intro y hy
    rcases List.mem_append.1 hy with hy | hy
    · exact h.lengths y hy
    · rw [List.mem_singleton.1 hy]
      exact ⟨hx, by dsimp only; omega⟩
  · dsimp only
    rw [h.valid, List.length_append, List.length_singleton]
  · rw [List.length_append, List.length_singleton]
    omega
  · have := h.unread
    rw [List.length_append, List.length_singleton]
    dsimp only
    omega
  · dsimp only
    rw [h.max, h.writePos, Ring.wrap_succ hslots, List.length_append, List.length_singleton,
      Nat.add_assoc]
  · exact h.readPos
  · exact h.got
  · dsimp only
    rw [h.live, h.writeOffset, List.map_append, Ring.layout_append, List.map_append]
    simp only [List.map_cons, List.map_nil, Ring.layout, space]
    congr 3
    unfold space at hsp
    exact hsp.symm
  · rw [hsum]
    exact hfits
  · rw [hsum]
    dsimp only
    rw [h.dataSize, i32_eq (by omega) (by omega)]
    omega
  · rw [hsum, ← Nat.add_assoc, ← Ring.wrap_add hB0 (by omega : space x ≤ B)]
    dsimp only
    rw [h.size, h.writeOffset, i32_eq (by omega) (by omega), ← hsp]
    split <;> split <;> omega
  · dsimp only
    rw [update_self, h.added, List.drop_append_of_le_length (by have := h.unread; omega),
      List.append_assoc]

theorem Laid.get (h : Laid s B a p q) (hs : next s .get = some s') : Laid s' B a p q := by
  unfold next BitStreamManager.getOneBitstream at hs
  dsimp only at hs
  split at hs
  · cases hs
    exact h
  rename_i m slot hm
  split at hm
  · cases hm
  rename_i hne
  cases hm
  cases hs
  have hslots : 0 < bitstreamFrameFifoSize := by decide
  have hlt : s.got.length < q.length := by
    have := h.unread
    omega
  have hhead : q[s.got.length] = s.m.nBSListQ.pStreamInfos s.m.nBSListQ.nReadPos := by
    have hread : (Ring.read s.m.nBSListQ.pStreamInfos bitstreamFrameFifoSize a q.length)[s.got.length]? =
        some _ := Ring.getElem?_read hlt
    rw [h.table, List.getElem?_eq_getElem hlt, ← h.readPos] at hread
    exact Option.some.inj hread
  have hlen : (s.got ++ [s.m.nBSListQ.nReadPos]).length = s.got.length + 1 := by
    rw [List.length_append, List.length_singleton]
  constructor
  · exact h.size
  · exact h.max
  · exact h.table
  · exact h.ids
  · exact h.lengths
  · exact h.valid
  · exact h.fits
  · have := h.unread
    dsimp only
    rw [hlen]
    omega
  · exact h.writePos
  · dsimp only
    rw [hlen, h.max, h.readPos, Ring.wrap_succ hslots, Nat.add_assoc]
  · dsimp only
    rw [hlen, List.range_succ, List.map_append, ← h.got, List.map_singleton, h.readPos]
  · exact h.live
  · exact h.total
  · exact h.dataSize
  · exact h.writeOffset
  · dsimp only
    rw [hlen, h.added, List.append_assoc, List.singleton_append, ← hhead,
      ← List.drop_eq_getElem_cons hlt]

theorem Laid.ret (h : Laid s B a p q) (hB : B ≤ 2 ^ 30) (hs : next s .ret = some s') :
    ∃ y q', q = y :: q' ∧ Laid s' B (a + 1) (p + space y) q' := by
  unfold next at hs
  dsimp only at hs
  split at hs
  · cases hs
  rename_i slot got hgot
  have hunread := h.unread
  have hgotlen : s.got.length = got.length + 1 := by rw [hgot, List.length_cons]
  obtain ⟨y, q, rfl⟩ : ∃ y q', q = y :: q' := by
    cases q with
    | nil =>
      rw [List.length_nil] at hunread
      omega
    | cons y q' => exact ⟨y, q', rfl⟩
  have hrange := h.got
  rw [hgotlen, hgot, List.range_succ_eq_map, List.map_cons, List.cons.injEq, Nat.add_zero] at hrange
  obtain ⟨hslot, hrest⟩ := hrange
  have htable := h.table
  rw [List.length_cons, Ring.read_succ, List.cons.injEq] at htable
  obtain ⟨hy, htable⟩ := htable
  have hid : y.nID = ((a % bitstreamFrameFifoSize : Nat) : Int) := h.ids 0 y rfl
  have hvalid := h.valid
  have hfits := h.fits
  have htotal := h.total
  have hdata := h.dataSize
  rw [List.length_cons] at hvalid hfits hunread
  rw [List.map_cons, List.sum_cons] at htotal hdata
  obtain ⟨hy0, hy1⟩ := h.lengths y (.head _)
  have hsp := space_eq hy0 hy1 (by omega)
  unfold BitStreamManager.returnOneBitstream at hs
  dsimp only at hs
  rw [if_neg (by omega)] at hs
  cases hs
  refine ⟨y, q, rfl, ?_⟩
  constructor
  · exact h.size
  · exact h.max
  · exact htable
  · intro i z hz
    rw [Nat.add_assoc, Nat.add_comm 1]
    exact h.ids (i + 1) z hz
  · exact fun z hz => h.lengths z (.tail _ hz)
  · dsimp only
    rw [hvalid, Nat.add_sub_cancel]
  · omega
  · dsimp only
    omega
  · rw [Nat.add_assoc, Nat.add_comm 1]
    exact h.writePos
  · rw [Nat.add_assoc, Nat.add_comm 1, ← hgotlen]
    exact h.readPos
  · dsimp only
    rw [hrest, List.map_map]
    simp only [comp_def, List.length_map, List.length_range, Nat.add_assoc, Nat.add_comm 1]
  · dsimp only
    rw [h.live]
    rfl
  · omega
  · dsimp only
    rw [hslot, hy, hid, Int.toNat_natCast, hy, hdata, ← hsp, i32_eq (by omega) (by omega)]
    omega
  · rw [Nat.add_assoc]
    exact h.writeOffset
  · have := h.added
    rw [hgotlen, List.drop_succ_cons] at this
    exact this

theorem next_laid (hB0 : 0 < B) (hB : B ≤ 2 ^ 30) (hdvd : 64 ∣ B)
    (h : ∃ a p q, Laid s B a p q) (hi : i.Sized) (hs : next s i = some s') :
    ∃ a p q, Laid s' B a p q := by
  obtain ⟨a, p, q, h⟩ := h
  cases i with
  | add x =>
    obtain ⟨q', h'⟩ := h.add hB0 hB hdvd hi hs
    exact ⟨a, p, q', h'⟩
  | get => exact ⟨a, p, q, h.get hs⟩
  | ret =>
    obtain ⟨y, q', -, h'⟩ := h.ret hB hs
    exact ⟨_, _, q', h'⟩
  | reset =>
    cases hs
    exact ⟨0, 0, [], start_laid h.size ⟨rfl, rfl⟩ rfl⟩

end

/-! ## Every buffer -/

section

variable {palloc : Int → Bool} {nBufferSize B : Int} {m : BitStreamManager}

theorem pallocSize_le (h : pallocSize palloc nBufferSize = some B) (h0 : 0 < nBufferSize) :
    0 < B ∧ B ≤ nBufferSize := by
  fun_induction pallocSize palloc nBufferSize with
  | case1 n hp =>
    cases h
    exact ⟨h0, le_rfl⟩
  | case2 n hp hpos ih =>
    obtain ⟨h1, h2⟩ := ih h hpos
    exact ⟨h1, by omega⟩
  | case3 n hp hpos => cases h

/-- The manager of an empty buffer of `B` bytes. -/
def created (B : Int) : BitStreamManager :=
  ⟨B, 0, 0, ⟨fun _ => .zero, bitstreamFrameFifoSize, 0, 0, 0, 0⟩⟩

theorem bitStreamCreate_eq (h : bitStreamCreate palloc nBufferSize = some m) :
    m = created m.nStreamBufferSize ∧ 0 < m.nStreamBufferSize ∧
      m.nStreamBufferSize ≤ nBufferSize := by
  unfold bitStreamCreate at h
  split at h
  · cases h
  obtain ⟨B, hB, rfl⟩ := Option.map_eq_some_iff.1 h
  exact ⟨rfl, pallocSize_le hB (by omega)⟩

/-- A stream of `n` bytes. -/
def ofLength (n : Int) : StreamInfo := { StreamInfo.zero with nStreamLength := n }

theorem add_first {n : Int} (h : n ≤ B) :
    (bitstreams.run (start (created B)) [.add (ofLength n)]).map
        (fun s => (s.m.nStreamBufferSize, s.m.nValidDataSize)) = some (B, i32 (align64B n)) := by
  have hlen : ¬ B < n := by omega
  simp [Machine.run, next, start, created, ofLength, BitStreamManager.addOneBitstream,
    bitstreamFrameFifoSize, hlen]

/-- A stream that takes all of a buffer, after one that ended in its last unit. -/
theorem add_past_end (hdvd : 64 ∣ B) (h1 : 2 ^ 30 < B) (h2 : B < 2 ^ 31) :
    (bitstreams.run (start (created B))
        [.add (ofLength (B - 64)), .get, .ret, .add (ofLength B)]).map
      (fun s => s.m.nWriteOffset) = some (2 * B - 64 - 2 ^ 32) := by
  have hfst : align64B (B - 64) = B - 64 := by
    unfold align64B
    rw [i32_eq (by omega) (by omega)]
    omega
  have hsnd : align64B B = B := by
    unfold align64B
    rw [i32_eq (by omega) (by omega)]
    omega
  have hmid : i32 (B - 64) = B - 64 := i32_eq (by omega) (by omega)
  have hzero : i32 0 = 0 := rfl
  have hend : i32 (B - 64 + B) = 2 * B - 64 - 2 ^ 32 := by
    unfold i32
    rw [Int.bmod_def]
    split <;> omega
  have hfit : ¬ B < B - 64 := by omega
  have hin : ¬ B ≤ B - 64 := by omega
  simp [Machine.run, next, start, created, ofLength, BitStreamManager.addOneBitstream,
    BitStreamManager.getOneBitstream, BitStreamManager.returnOneBitstream,
    bitstreamFrameFifoSize, hfst, hsnd, hmid, hzero, hend, hfit, hin]
  omega

/-- **The ring of streams**: with streams of any length that is not negative the
manager keeps its counters right, its streams apart and in order, if and only
if the buffer is of whole units of 64 bytes and has at most 2^30 bytes. With
negative lengths, which it takes as well, it does so for no buffer. -/
theorem ring_sound_iff (hint : nBufferSize < 2 ^ 31)
    (hc : bitStreamCreate palloc nBufferSize = some m) :
    ((∀ is s, (∀ i ∈ is, i.Sized) → bitstreams.run (start m) is = some s → Sound s) ↔
        64 ∣ m.nStreamBufferSize ∧ m.nStreamBufferSize ≤ 2 ^ 30) ∧
      ∃ is s, bitstreams.run (start m) is = some s ∧ ¬ Sound s := by
  obtain ⟨hm, h0, hle⟩ := bitStreamCreate_eq hc
  generalize m.nStreamBufferSize = B at *
  subst hm
  refine ⟨⟨fun h => ?_, ?_⟩, ?_⟩
  · by_contra hbad
    by_cases hdvd : 64 ∣ B
    · have hbig : 2 ^ 30 < B := by
        by_contra hle
        exact hbad ⟨hdvd, by omega⟩
      obtain ⟨s, hs, hw⟩ := Option.map_eq_some_iff.1
        (add_past_end hdvd hbig (by omega))
      have hsized : ∀ i ∈ [Input.add (ofLength (B - 64)), .get, .ret, .add (ofLength B)],
          i.Sized := by
        simp [Input.Sized, ofLength]
        omega
      have := (h _ s hsized hs).writeOffset
      omega
    · obtain ⟨s, hs, he⟩ := Option.map_eq_some_iff.1 (add_first (le_refl B))
      have hsized : ∀ i ∈ [Input.add (ofLength B)], i.Sized := by
        simp [Input.Sized, ofLength]
        omega
      have hv := (h _ s hsized hs).validDataSize
      obtain ⟨hB, hval⟩ := Prod.mk.inj he
      rw [hB, hval] at hv
      -- rounded up, `B` is above the size or not an `int`
      have hround : i32 (align64B B) < 0 ∨ B < i32 (align64B B) := by
        unfold align64B
        rcases lt_or_ge (B + 63) (2 ^ 31) with hlt | hge
        · rw [i32_eq (by omega) hlt, i32_eq (by omega) (by omega)]
          omega
        · have hwrap : i32 (B + 63) = B + 63 - 2 ^ 32 := by
            unfold i32
            rw [Int.bmod_def]
            split <;> omega
          rw [hwrap, i32_eq (by omega) (by omega)]
          omega
      omega
  · rintro ⟨hdvd, hsmall⟩ is s hsized hs
    obtain ⟨n, rfl⟩ := Int.eq_ofNat_of_zero_le h0.le
    have hinit : ∃ a p q, Laid (start (created n)) n a p q :=
      ⟨0, 0, [], start_laid rfl ⟨rfl, rfl⟩ rfl⟩
    obtain ⟨a, p, q, h⟩ := Machine.run_inv (I := fun s => ∃ a p q, Laid s n a p q)
      (fun _ _ _ h hi hs => next_laid (by omega) (by omega) (by omega) h hi hs) hinit
      (Machine.meets_of_forall (P := Input.Sized) hsized) hs
    exact h.sound (by omega)
  · obtain ⟨s, hs, he⟩ := Option.map_eq_some_iff.1 (add_first (by omega : (-100 : Int) ≤ B))
    refine ⟨_, s, hs, fun h => ?_⟩
    have hv := h.validDataSize.1
    rw [(Prod.mk.inj he).2] at hv
    exact absurd hv (by decide)

end

theorem created_of_palloc {B : Int} (h : 0 < B) :
    bitStreamCreate (fun _ => true) B = some (created B) := by
  rw [bitStreamCreate, if_neg (by omega), pallocSize, if_pos rfl]
  rfl

/-- A stream of 100 bytes in a buffer of a megabyte. -/
theorem ring_sound_megabyte :
    ∃ s, bitstreams.run (start (created (2 ^ 20))) [.add (ofLength 100)] = some s ∧ Sound s := by
  obtain ⟨s, hs, -⟩ := Option.map_eq_some_iff.1 (add_first (by decide : (100 : Int) ≤ 2 ^ 20))
  have hsized : ∀ i ∈ [Input.add (ofLength 100)], i.Sized := by simp [Input.Sized, ofLength]
  exact ⟨s, hs, (ring_sound_iff (by decide) (created_of_palloc (by decide))).1.2
    ⟨by decide, by decide⟩ _ s hsized hs⟩

/-- A stream of 100 bytes is taken into a buffer of 100, and counted as 128. -/
theorem ring_unsound_100 :
    ∃ m is s, bitStreamCreate (fun _ => true) 100 = some m ∧
      bitstreams.run (start m) is = some s ∧
      s.m.nValidDataSize = 128 ∧ s.m.nStreamBufferSize = 100 ∧ ¬ Sound s := by
  obtain ⟨s, hs, he⟩ := Option.map_eq_some_iff.1 (add_first (le_refl (100 : Int)))
  obtain ⟨hB, hv⟩ := Prod.mk.inj he
  have hv : s.m.nValidDataSize = 128 := hv.trans (by decide)
  refine ⟨_, _, s, created_of_palloc (by decide), hs, hv, hB, fun h => ?_⟩
  have := h.validDataSize.2
  omega

end Melis.Venc
