import Mathlib.Data.List.TakeWhile
import Melis.RecRender.Content

/-!
# A push that fails

The copy of a packet is done if and only if the packet fits in what is left of
the buffer of the write position and in the next one (`loops_done_iff`). A push
that fails later than at its memory has taken an id by then, and one that fails
at its data buffer keeps the nodes it got, so it leaves the cache as it was in one
case only (`AtomicWhen`). What it does leave is memory that the next push uses
(`Discarded`), and the live packets where they are.
-/

namespace Melis.RecRender

open Lib Memory Function

variable {β : Type}

/-! ## When a copy is done -/

namespace Copy

section

variable {p : PushedPacket β} {c c' : Copy β} {stop a : Nat} {bufs bs : List DynamicBuffer}
  {x : DynamicBuffer}

theorem pass1_num (hmore : c.nCopyLen1 < p.data1.length)
    (hnext : p.data1.length - c.nCopyLen1 > stop - c.pWritePos) :
    (c.pass1 p stop a).1.nDataBufNum = c.nDataBufNum + 1 := by
  unfold pass1
  dsimp only
  rw [if_pos hmore, if_neg (by omega)]
  rfl

/-- A pass that goes on has moved to the next piece. -/
theorem pass0_num (hlen0 : c.nCopyLen0 ≤ p.data0.length)
    (hnext : stop - c.pWritePos < (c.rest p).length) :
    (c.pass0 p stop a).1.nDataBufNum = c.nDataBufNum + 1 := by
  have hlen : (c.rest p).length =
      p.data0.length - c.nCopyLen0 + (p.data1.length - c.nCopyLen1) := by
    rw [rest, List.length_append, List.length_drop, List.length_drop]
  unfold pass0
  dsimp only
  by_cases hmore : c.nCopyLen0 < p.data0.length
  · rw [if_pos hmore]
    by_cases hle : p.data0.length - c.nCopyLen0 ≤ stop - c.pWritePos
    · have hpw : (c.copy0 p (p.data0.length - c.nCopyLen0)).pWritePos =
          c.pWritePos + (p.data0.length - c.nCopyLen0) := rfl
      rw [if_pos hle]
      split
      · split
        · omega
        · rfl
      · split
        · omega
        · have hone : (c.copy0 p (p.data0.length - c.nCopyLen0)).nCopyLen1 = c.nCopyLen1 := rfl
          apply pass1_num
          · omega
          · omega
    · rw [if_neg hle]
      rfl
  · rw [if_neg hmore]
    apply pass1_num <;> omega

/-- A pass over a buffer in which the packet ends. -/
theorem Ready.pass_done (h : Ready p c) (hnum : c.nDataBufNum < 2) (hrest : c.rest p ≠ [])
    (hstop : c.pWritePos ≤ stop) (hle : (c.rest p).length ≤ stop - c.pWritePos) :
    (c.pass p stop a).2 = .done :=
  ((h.pass hnum hrest hstop).done hle).1

/-- A pass over one in which it does not. -/
theorem Ready.pass_next (h : Ready p c) (hnum : c.nDataBufNum < 2) (hrest : c.rest p ≠ [])
    (hstop : c.pWritePos ≤ stop) (hlt : stop - c.pWritePos < (c.rest p).length) :
    ∃ c', c.pass p stop a = (c', .next) ∧ Ready p c' ∧ c'.pWritePos = a ∧
      c'.nDataBufNum = c.nDataBufNum + 1 ∧
      (c'.rest p).length = (c.rest p).length - (stop - c.pWritePos) := by
  have hpass := h.pass (a := a) hnum hrest hstop
  obtain ⟨hnext, hpw, hready⟩ := hpass.next hlt
  refine ⟨(c.pass p stop a).1, Prod.ext rfl hnext, hready, hpw, ?_, ?_⟩
  · unfold Copy.pass
    rw [if_neg (by omega)]
    exact pass0_num (c := c.begun) h.len0 hlt
  · rw [hpass.advances.rest, List.length_drop, List.length_range', Nat.min_eq_right (by omega)]

/-- There is no third piece. -/
theorem loop_full (hnum : 2 ≤ c.nDataBufNum) :
    (c.loop p bufs bs).2 ≠ .done ∧ ((c.loop p bufs bs).2 = .next → bs = [] ∧ c.loop p bufs bs = (c, .next)) := by
  cases bs with
  | nil => exact ⟨nofun, fun _ => ⟨rfl, rfl⟩⟩
  | cons b bs =>
    have hpass : ∀ stop a, c.pass p stop a = (c, .notSupport) := fun stop a => if_pos hnum
    rw [loop, hpass]
    exact ⟨nofun, nofun⟩

/-- The second piece ends the copy or nothing does. -/
theorem Ready.loop_second (h : Ready p c) (hnum : c.nDataBufNum = 1) (hrest : c.rest p ≠ [])
    (hpw : c.pWritePos = x.mpBuffer) :
    ((c.loop p bufs (x :: bs)).2 = .done ↔ (c.rest p).length ≤ x.mSize) ∧
      ((c.loop p bufs (x :: bs)).2 = .next →
        2 ≤ (c.loop p bufs (x :: bs)).1.nDataBufNum) := by
  have hstop : x.stop - c.pWritePos = x.mSize := by
    rw [hpw]
    exact Nat.add_sub_cancel_left _ _
  have hle : c.pWritePos ≤ x.stop := by
    rw [hpw]
    exact Nat.le_add_right _ _
  rw [Copy.loop]
  by_cases hfits : (c.rest p).length ≤ x.mSize
  · have hdone := h.pass_done (a := (nextEntry bufs x).mpBuffer) (by omega) hrest hle
      (hstop.symm ▸ hfits)
    generalize c.pass p x.stop (nextEntry bufs x).mpBuffer = r at hdone
    obtain ⟨c', flow⟩ := r
    obtain rfl : flow = .done := hdone
    exact ⟨⟨fun _ => hfits, fun _ => rfl⟩, nofun⟩
  · obtain ⟨c', hpass, -, -, hnum', -⟩ := h.pass_next (a := (nextEntry bufs x).mpBuffer)
      (by omega) hrest hle (by omega)
    rw [hpass]
    dsimp only
    have hfull : 2 ≤ c'.nDataBufNum := by omega
    refine ⟨⟨fun hdone => absurd hdone (loop_full hfull).1, fun h => absurd h hfits⟩,
      fun hnext => ?_⟩
    rw [((loop_full hfull).2 hnext).2]
    exact hfull

end

end Copy

/-- The packet fits in what is left of the buffer of the write position and in the next one. -/
def FitsInTwo (bufs : List DynamicBuffer) (pw : Nat) (size : Int) : Prop :=
  ∃ b, bufs.find? (·.contains pw) = some b ∧
    size ≤ ((b.stop - pw + (nextEntry bufs b).mSize : Nat) : Int)

namespace Copy

variable {p : PushedPacket β} {c : Copy β} {bufs : List DynamicBuffer}

theorem loops_done_iff (h : Ready p c) (hnum : c.nDataBufNum = 0) (hrest : c.rest p ≠ []) :
    (c.loops p bufs).2 = .done ↔ FitsInTwo bufs c.pWritePos (c.rest p).length := by
  unfold FitsInTwo loops
  cases hfind : bufs.find? (·.contains c.pWritePos) with
  | none =>
    have hdrop : bufs.dropWhile (fun b => !b.contains c.pWritePos) = [] :=
      List.dropWhile_eq_nil_iff.2 (by simpa using hfind)
    rw [hdrop]
    exact ⟨by rintro ⟨⟩, by rintro ⟨b, hb, -⟩; cases hb⟩
  | some b =>
    obtain ⟨hin, pre, post, hbufs, hpre⟩ := List.find?_eq_some_iff_append.1 hfind
    have hdrop : bufs.dropWhile (fun b => !b.contains c.pWritePos) = b :: post := by
      rw [hbufs, List.dropWhile_append_of_pos hpre, List.dropWhile_cons_of_neg (by simp [hin])]
    have hne : ∀ x ∈ pre, x ≠ b := by
      rintro x hx rfl
      have := hpre x hx
      simp [hin] at this
    have htake : bufs.takeWhile (· ≠ b) ++ [b] = pre ++ [b] := by
      rw [hbufs, List.takeWhile_append_of_pos (by simpa using hne),
        List.takeWhile_cons_of_neg (by simp), List.append_nil]
    have hentry : nextEntry bufs b = (post ++ bufs).headD b := by
      rw [hbufs]
      exact nextEntry_append fun hb => hne b hb rfl
    have hstop : c.pWritePos ≤ b.stop := by
      have hlt : b.mpBuffer ≤ c.pWritePos ∧ c.pWritePos < b.stop := by
        simpa [DynamicBuffer.contains] using hin
      omega
    have hiff : (∃ x, some b = some x ∧ (((c.rest p).length : Nat) : Int) ≤
        ((x.stop - c.pWritePos + (nextEntry bufs x).mSize : Nat) : Int)) ↔
        (c.rest p).length ≤ b.stop - c.pWritePos + (nextEntry bufs b).mSize := by
      constructor
      · rintro ⟨x, hx, hle⟩
        obtain rfl := Option.some.inj hx
        omega
      · exact fun hle => ⟨b, rfl, by omega⟩
    rw [hiff, hdrop]
    dsimp only
    rw [Copy.loop, htake]
    by_cases hle : (c.rest p).length ≤ b.stop - c.pWritePos
    · have hdone := h.pass_done (a := (nextEntry bufs b).mpBuffer) (by omega) hrest hstop hle
      generalize c.pass p b.stop (nextEntry bufs b).mpBuffer = r at hdone
      obtain ⟨c', flow⟩ := r
      obtain rfl : flow = .done := hdone
      exact ⟨fun _ => by omega, fun _ => rfl⟩
    · obtain ⟨c', hpass, hready, hpw, hnum', hlen⟩ :=
        h.pass_next (a := (nextEntry bufs b).mpBuffer) (by omega) hrest hstop (by omega)
      have hrest' : c'.rest p ≠ [] := fun hnil => by
        rw [hnil, List.length_nil] at hlen
        omega
      have hsum : (c.rest p).length ≤ b.stop - c.pWritePos + (nextEntry bufs b).mSize ↔
          (c'.rest p).length ≤ (nextEntry bufs b).mSize := by omega
      rw [hpass, hsum]
      dsimp only
      cases post with
      | cons x xs =>
        -- the next buffer is behind this one in the list
        have hx : nextEntry bufs b = x := hentry
        obtain ⟨hdone, hfull⟩ : ((c'.loop p bufs (x :: xs)).2 = .done ↔ _) ∧
            ((c'.loop p bufs (x :: xs)).2 = .next → _) :=
          hready.loop_second (by omega) hrest' (by rw [hpw, hx])
        rw [hx, ← hdone]
        generalize c'.loop p bufs (x :: xs) = r at hfull ⊢
        obtain ⟨c₂, flow⟩ := r
        cases flow with
        | next =>
          dsimp only
          rw [if_pos (hfull rfl)]
          exact ⟨by rintro ⟨⟩, by rintro ⟨⟩⟩
        | done => exact Iff.rfl
        | notSupport => exact Iff.rfl
        | unexist => exact Iff.rfl
      | nil =>
        -- it is the first of the list
        rw [Copy.loop]
        dsimp only
        rw [if_neg (by omega)]
        obtain ⟨y, ys, hys⟩ : ∃ y ys, pre ++ [b] = y :: ys := by
          cases pre with
          | nil => exact ⟨b, [], rfl⟩
          | cons y ys => exact ⟨y, ys ++ [b], rfl⟩
        have hy : nextEntry bufs b = y := by
          rw [hentry, List.nil_append, hbufs, hys]
          rfl
        rw [hys, hy]
        exact (hready.loop_second (by omega) hrest' (by rw [hpw, hy])).1

end Copy

namespace RsPacketCacheManager

section

variable {m m' : RsPacketCacheManager β} {p : PushedPacket β} {k : Nat} {buffer : Option Nat}

/-! ## A push -/

/-- The lists, the counters, the write position and the bytes of the live packets are the same. -/
structure Unchanged (m m' : RsPacketCacheManager β) : Prop where
  mIdlePacketList : m'.mIdlePacketList = m.mIdlePacketList
  mReadyPacketList : m'.mReadyPacketList = m.mReadyPacketList
  mUsingPacketList : m'.mUsingPacketList = m.mUsingPacketList
  mDataBufList : m'.mDataBufList = m.mDataBufList
  mUsedBufSize : m'.mUsedBufSize = m.mUsedBufSize
  mBufSize : m'.mBufSize = m.mBufSize
  mPacketCount : m'.mPacketCount = m.mPacketCount
  mPacketIdCounter : m'.mPacketIdCounter = m.mPacketIdCounter
  mpWritePos : m'.mpWritePos = m.mpWritePos
  bytes : ∀ e ∈ m.mReadyPacketList ++ m.mUsingPacketList, load m'.mem e.cells = load m.mem e.cells

/-- The packet is one, and there is room for it in two pieces. -/
def Placeable (p : PushedPacket β) (bufs : List DynamicBuffer) (pw : Nat) : Prop :=
  ¬ p.Illegal ∧ (p.size ≤ 0 ∨ FitsInTwo bufs pw p.size)

/-- A push with this memory does not fail, or fails for its data buffer and has got no nodes. -/
def AtomicWhen (m : RsPacketCacheManager β) (p : PushedPacket β) (k : Nat)
    (buffer : Option Nat) : Prop :=
  if m.nLeftBufSize < p.size then
    match buffer with
    | none => m.mIdlePacketList ≠ [] ∨ k = 0
    | some a => Placeable p (m.mDataBufList ++ [⟨a, m.nEnlargeSize p⟩]) m.mpWritePos
  else Placeable p m.mDataBufList m.mpWritePos

theorem Unchanged.refl (m : RsPacketCacheManager β) : Unchanged m m :=
  ⟨rfl, rfl, rfl, rfl, rfl, rfl, rfl, rfl, rfl, fun _ _ => rfl⟩

/-- What becomes of a packet with bytes is up to its copy. -/
theorem place_copied {r : Copy β × Flow} (hr : m.startCopy.loops p m.mDataBufList = r)
    (hill : ¬ p.Illegal) (hsize : ¬ p.size ≤ 0) :
    (r.2 = .done → (m.place p).2 = .success) ∧
      (r.2 ≠ .done → (m.place p).2 ≠ .success ∧
        (m.place p).1.mPacketIdCounter = i32 (m.mPacketIdCounter + 1)) := by
  unfold place
  dsimp only
  rw [if_neg hill, if_neg hsize]
  generalize hr' : Copy.loops p (startCopy _) m.mDataBufList = r'
  obtain rfl : r = r' := hr.symm.trans hr'
  obtain ⟨c, flow⟩ := r
  cases flow with
  | done => exact ⟨fun _ => rfl, fun h => absurd rfl h⟩
  | next => exact ⟨nofun, fun _ => ⟨nofun, rfl⟩⟩
  | notSupport => exact ⟨nofun, fun _ => ⟨nofun, rfl⟩⟩
  | unexist => exact ⟨nofun, fun _ => ⟨nofun, rfl⟩⟩

/-- The copy of a packet with bytes is done if it fits in two pieces. -/
theorem startCopy_done_iff (hill : ¬ p.Illegal) (hsize : ¬ p.size ≤ 0) :
    (m.startCopy.loops p m.mDataBufList).2 = .done ↔
      FitsInTwo m.mDataBufList m.mpWritePos p.size := by
  have hlen := PushedPacket.length_bytes hill
  have hrest : p.bytes ≠ [] := fun hnil => by
    rw [hnil, List.length_nil] at hlen
    omega
  have hready : Copy.Ready p m.startCopy :=
    ⟨⟨Nat.zero_le _, Nat.zero_le _, fun h => absurd h (Nat.lt_irrefl 0)⟩, fun _ _ => rfl⟩
  rw [← hlen]
  exact Copy.loops_done_iff hready rfl hrest

theorem place_success_iff :
    (m.place p).2 = .success ↔ Placeable p m.mDataBufList m.mpWritePos := by
  unfold Placeable
  by_cases hill : p.Illegal
  · have hfail : (m.place p).2 = .illegalParam := by
      unfold place
      exact congrArg Prod.snd (if_pos hill)
    rw [hfail]
    exact ⟨nofun, fun h => absurd hill h.1⟩
  · by_cases hsize : p.size ≤ 0
    · have hok : (m.place p).2 = .success := by
        unfold place
        exact congrArg Prod.snd ((if_neg hill).trans (if_pos hsize))
      exact ⟨fun _ => ⟨hill, .inl hsize⟩, fun _ => hok⟩
    · obtain ⟨hdone, hfail⟩ := place_copied (m := m) (p := p) rfl hill hsize
      have hiff := startCopy_done_iff (m := m) hill hsize
      constructor
      · intro hok
        refine ⟨hill, .inr ?_⟩
        by_contra hfits
        exact (hfail fun hd => hfits (hiff.1 hd)).1 hok
      · exact fun h => hdone (hiff.2 (h.2.resolve_left hsize))

/-- A packet that is not placed has taken an id. -/
theorem place_counter (h : (m.place p).2 ≠ .success) :
    (m.place p).1.mPacketIdCounter = i32 (m.mPacketIdCounter + 1) := by
  by_cases hill : p.Illegal
  · unfold place
    dsimp only
    rw [if_pos hill]
  · by_cases hsize : p.size ≤ 0
    · exact absurd (place_success_iff.2 ⟨hill, .inl hsize⟩) h
    · obtain ⟨hdone, hfail⟩ := place_copied (m := m) (p := p) rfl hill hsize
      exact (hfail fun hd => h (hdone hd)).2

theorem i32_succ_ne (x : Int) : i32 (x + 1) ≠ x := by
  intro h
  have hmod : (x + 1) % 2 ^ 32 = x % 2 ^ 32 := by
    have hbmod : i32 (x + 1) % 2 ^ 32 = (x + 1) % 2 ^ 32 := Int.bmod_emod
    rw [← hbmod, h]
  omega

theorem place_atomic (hcounter : m'.mPacketIdCounter = m.mPacketIdCounter) :
    ((m'.place p).2 ≠ .success → Unchanged m (m'.place p).1) ↔
      Placeable p m'.mDataBufList m'.mpWritePos := by
  rw [← place_success_iff]
  constructor
  · intro h
    by_contra hfail
    have hsame := (h hfail).mPacketIdCounter
    rw [place_counter hfail, hcounter] at hsame
    exact i32_succ_ne _ hsame
  · exact fun hok hfail => absurd hok hfail

/-- Getting nodes changes the idle list only. -/
theorem unchanged_increase (hm' : m' = if m.mIdlePacketList.isEmpty then m.increaseIdlePacketList k else m) :
    Unchanged m m' ↔ m.mIdlePacketList ≠ [] ∨ k = 0 := by
  subst hm'
  by_cases hempty : m.mIdlePacketList = []
  · have hidle : m.mIdlePacketList.isEmpty = true := by rw [hempty]; rfl
    rw [if_pos hidle]
    constructor
    · intro h
      right
      have hlist := congrArg List.length h.mIdlePacketList
      unfold increaseIdlePacketList at hlist
      rw [List.length_append, List.length_map, List.length_range'] at hlist
      unfold packetNumInRspacketbuf at hlist
      omega
    · intro h
      obtain rfl := h.resolve_left (not_not.2 hempty)
      refine ⟨?_, rfl, rfl, rfl, rfl, rfl, rfl, rfl, rfl, fun _ _ => rfl⟩
      show m.mIdlePacketList ++ _ = _
      rw [Nat.zero_min]
      exact List.append_nil _
  · have hidle : m.mIdlePacketList.isEmpty = false := by simpa using hempty
    rw [hidle, if_neg Bool.noConfusion]
    exact ⟨fun _ => .inl hempty, fun _ => .refl m⟩

end

/-- A push that returns an error leaves the cache as it was if and only if it does not fail, or
fails for its data buffer and has got no nodes. -/
theorem pushPacket_atomic_iff (m : RsPacketCacheManager β) (p : PushedPacket β) (k : Nat)
    (buffer : Option Nat) :
    ((m.pushPacket p k buffer).2 ≠ .success → Unchanged m (m.pushPacket p k buffer).1) ↔
      AtomicWhen m p k buffer := by
  unfold pushPacket AtomicWhen
  dsimp only
  generalize hm' : (if m.mIdlePacketList.isEmpty then m.increaseIdlePacketList k else m) = m'
  have hsame : m'.mDataBufList = m.mDataBufList ∧ m'.mpWritePos = m.mpWritePos ∧
      m'.mPacketIdCounter = m.mPacketIdCounter ∧ m'.nLeftBufSize = m.nLeftBufSize ∧
      m'.nEnlargeSize p = m.nEnlargeSize p := by
    rw [← hm']
    split <;> exact ⟨rfl, rfl, rfl, rfl, rfl⟩
  obtain ⟨hbufs, hpw, hcounter, hleft, henlarge⟩ := hsame
  rw [hleft]
  by_cases hroom : m.nLeftBufSize < p.size
  · rw [if_pos hroom, if_pos hroom]
    cases buffer with
    | none =>
      show (_ → Unchanged m m') ↔ _
      rw [← unchanged_increase hm'.symm]
      exact ⟨fun h => h nofun, fun h _ => h⟩
    | some a =>
      rw [← henlarge, ← hbufs, ← hpw]
      exact place_atomic hcounter
  · rw [if_neg hroom, if_neg hroom, place_atomic hcounter, hbufs, hpw]

/-! ## What a failing push leaves -/

/-- The packets, their accounts and the write position are the same; nodes and one buffer may have
been added at the ends of their lists, and an id may be gone. -/
structure Discarded (m m' : RsPacketCacheManager β) : Prop where
  mIdlePacketList : m.mIdlePacketList.map (·.node) <+: m'.mIdlePacketList.map (·.node)
  mReadyPacketList : m'.mReadyPacketList = m.mReadyPacketList
  mUsingPacketList : m'.mUsingPacketList = m.mUsingPacketList
  mDataBufList : (m'.mDataBufList = m.mDataBufList ∧ m'.mBufSize = m.mBufSize) ∨
    ∃ b, m'.mDataBufList = m.mDataBufList ++ [b] ∧ m'.mBufSize = m.mBufSize + b.mSize
  mUsedBufSize : m'.mUsedBufSize = m.mUsedBufSize
  mPacketCount : m'.mPacketCount = m.mPacketCount
  mPacketIdCounter : m'.mPacketIdCounter = m.mPacketIdCounter ∨
    m'.mPacketIdCounter = i32 (m.mPacketIdCounter + 1)
  mpWritePos : m'.mpWritePos = m.mpWritePos

section

variable {m m' : RsPacketCacheManager β} {p : PushedPacket β} {k : Nat} {buffer : Option Nat}

/-- A packet that finds no place keeps its node idle, with its id. -/
theorem place_failed (h : (m.place p).2 ≠ .success) :
    ∃ mem, (m.place p).1 = { m.taken p with mem := mem } := by
  by_cases hill : p.Illegal
  · refine ⟨m.mem, ?_⟩
    unfold place
    exact congrArg Prod.fst (if_pos hill)
  · by_cases hsize : p.size ≤ 0
    · exact absurd (place_success_iff.2 ⟨hill, .inl hsize⟩) h
    · revert h
      unfold place
      dsimp only
      rw [if_neg hill, if_neg hsize]
      generalize Copy.loops p (startCopy _) m.mDataBufList = r
      obtain ⟨c, flow⟩ := r
      intro h
      cases flow with
      | done => exact absurd rfl h
      | next => exact ⟨c.mem, rfl⟩
      | notSupport => exact ⟨c.mem, rfl⟩
      | unexist => exact ⟨c.mem, rfl⟩

theorem node_entry (h : m.mIdlePacketList ≠ []) :
    (m.taken p).mIdlePacketList.map (·.node) = m.mIdlePacketList.map (·.node) := by
  obtain ⟨e, es, hidle⟩ := List.exists_cons_of_ne_nil h
  have htaken : (m.taken p).mIdlePacketList = m.entry p :: es := by
    unfold taken
    rw [hidle]
    rfl
  have hnode : (m.entry p).node = e.node := by
    unfold entry
    rw [hidle]
    rfl
  rw [htaken, hidle, List.map_cons, List.map_cons, hnode]

theorem Discarded.refilled (m : RsPacketCacheManager β) (k : Nat) : Discarded m (m.refilled k) := by
  unfold RsPacketCacheManager.refilled
  split
  · refine ⟨?_, rfl, rfl, .inl ⟨rfl, rfl⟩, rfl, rfl, .inl rfl, rfl⟩
    unfold increaseIdlePacketList
    rw [List.map_append]
    exact List.prefix_append _ _
  · exact ⟨List.prefix_refl _, rfl, rfl, .inl ⟨rfl, rfl⟩, rfl, rfl, .inl rfl, rfl⟩

/-- It may get a buffer as long as it has none. -/
theorem Discarded.grown (h : Discarded m m') (hbufs : m'.mDataBufList = m.mDataBufList)
    (hsize : m'.mBufSize = m.mBufSize) (a n : Nat) : Discarded m (m'.grown a n) := by
  refine { h with mDataBufList := .inr ⟨⟨a, n⟩, ?_, ?_⟩ }
  · show m'.mDataBufList ++ _ = _
    rw [hbufs]
  · show m'.mBufSize + _ = _
    rw [hsize]

theorem Discarded.place (h : Discarded m m') (hidle : m'.mIdlePacketList ≠ [])
    (hcounter : m'.mPacketIdCounter = m.mPacketIdCounter) (hfail : (m'.place p).2 ≠ .success) :
    Discarded m (m'.place p).1 := by
  obtain ⟨mem, hplace⟩ := place_failed hfail
  rw [hplace]
  refine { h with mIdlePacketList := ?_, mPacketIdCounter := .inr ?_ }
  · show _ <+: (m'.taken p).mIdlePacketList.map (·.node)
    rw [node_entry hidle]
    exact h.mIdlePacketList
  · show i32 (m'.mPacketIdCounter + 1) = _
    rw [hcounter]

theorem discarded_of_failed (hk : m.mIdlePacketList = [] → 0 < k)
    (hfail : (m.pushPacket p k buffer).2 ≠ .success) :
    Discarded m (m.pushPacket p k buffer).1 := by
  have hm' := Discarded.refilled m k
  have hidle := refilled_idle hk
  obtain ⟨idle, n, heq⟩ := refilled_eq (m := m) (k := k)
  have hcounter : (m.refilled k).mPacketIdCounter = m.mPacketIdCounter := by rw [heq]
  have hbufs : (m.refilled k).mDataBufList = m.mDataBufList := by rw [heq]
  have hsize : (m.refilled k).mBufSize = m.mBufSize := by rw [heq]
  by_cases hlt : m.nLeftBufSize < p.size
  · cases buffer with
    | none =>
      rw [pushPacket_nomem hlt]
      exact hm'
    | some a =>
      rw [pushPacket_grows hlt] at hfail ⊢
      apply Discarded.place (hm'.grown hbufs hsize a _) _ _ hfail
      · exact hidle
      · exact hcounter
  · rw [pushPacket_fits (Int.not_lt.mp hlt)] at hfail ⊢
    exact hm'.place hidle hcounter hfail

/-- A push leaves the bytes of the live packets. -/
theorem Content.load_push (h : m.Content) (hgrow : m.Growable p buffer)
    (hfresh : ∀ a ∈ buffer, m.Fresh a (m.nEnlargeSize p)) {e : RecSinkPacket β}
    (he : e ∈ m.live) : load (m.pushPacket p k buffer).1.mem e.cells = load m.mem e.cells := by
  refine List.map_congr_left fun x hx => ?_
  by_contra hne
  exact h.layout.not_writes h.buffers hgrow hfresh (cells_subset he hx) ⟨m.mem, hne⟩

end

end RsPacketCacheManager

open RsPacketCacheManager

/-- **A failing push leaves the packets as they are**: it keeps the memory it got and the id it
took, and in a state of a run whose steps are orderly no live packet changes. -/
theorem pushPacket_failed :
    (∀ (m : RsPacketCacheManager β) (p : PushedPacket β) (k : Nat) (buffer : Option Nat),
      (m.mIdlePacketList = [] → 0 < k) → (m.pushPacket p k buffer).2 ≠ .success →
        Discarded m (m.pushPacket p k buffer).1) ∧
    ∀ (nCacheTime : Int) (mem : Nat → β) (a n : Nat) (s₀ s : State β) (is : List (Input β)),
      rsPacketCacheManagerInit nCacheTime mem a n = some s₀ →
      (packetCache β).Meets Orderly s₀ is → (packetCache β).run s₀ is = some s →
      ∀ (p : PushedPacket β) (k : Nat) (buffer : Option Nat), Orderly s (.push p k buffer) →
        (∀ a ∈ buffer, s.m.Fresh a (s.m.nEnlargeSize p)) →
        (s.m.pushPacket p k buffer).2 ≠ .success →
        ∀ e ∈ s.m.live, load (s.m.pushPacket p k buffer).1.mem e.cells = load s.m.mem e.cells := by
  refine ⟨fun m p k buffer hk hfail => discarded_of_failed hk hfail, ?_⟩
  intro nCacheTime mem a n s₀ s is hinit hm hrun p k buffer hC hfresh _ e he
  have h : s.m.Content :=
    Machine.run_inv (I := fun s => s.m.Content) (fun _ _ _ h hC hs => content_kept.next h hC hs)
      (content_init hinit) hm hrun
  exact h.load_push hC hfresh he

theorem pushPacket_failed_oneByte :
    ∃ s₀ s, rsPacketCacheManagerInit 1000 (fun _ => (0 : UInt8)) 1 1 = some s₀ ∧
      (packetCache UInt8).run s₀ [.push oneByte 0 none] = some s ∧ s.m.live.length = 1 ∧
      Discarded s.m (s.m.pushPacket fourMegabytes 1 none).1 ∧
      ∀ e ∈ s.m.live, load (s.m.pushPacket fourMegabytes 1 none).1.mem e.cells =
        load s.m.mem e.cells := by
  refine ⟨_, _, rfl, rfl, rfl, ?_, ?_⟩
  · apply pushPacket_failed.1 _ _ _ _ fun _ => Nat.one_pos
    rw [pushPacket_nomem (by decide)]
    exact nofun
  · apply pushPacket_failed.2 1000 (fun _ => 0) 1 1 _ _ [.push oneByte 0 none] rfl _ rfl
    · exact fun h => absurd rfl h.2
    · exact nofun
    · rw [pushPacket_nomem (by decide)]
      exact nofun
    · exact ⟨fun h => absurd rfl h.2, fun _ _ => trivial⟩

/-- A cache without a node gets one for a packet that there is no buffer for. -/
theorem pushPacket_not_atomic :
    ∃ s₀, rsPacketCacheManagerInit 1000 (fun _ => (0 : UInt8)) 1 0 = some s₀ ∧
      (s₀.m.pushPacket ⟨0, 0, 0, fun _ => 0, avpacketCacheSize + 1, fun _ => 0, 0⟩ 1 none).2 =
        .nomem ∧
      ¬ Unchanged s₀.m
        (s₀.m.pushPacket ⟨0, 0, 0, fun _ => 0, avpacketCacheSize + 1, fun _ => 0, 0⟩ 1 none).1 := by
  refine ⟨_, rfl, ?_⟩
  rw [pushPacket_nomem (by decide)]
  exact ⟨rfl, fun h => absurd (congrArg List.length h.mIdlePacketList) (by decide)⟩

end Melis.RecRender
