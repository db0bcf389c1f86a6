import Melis.RecRender.PacketAccounting

/-!
# The content of the packet cache

The live packets, from the first that is used to the last that is ready, lie one
after the other on the ring, up to the write position. A push writes behind them
as long as packets are freed from the first on and a buffer is added only where no
packet lies behind the write position: the new buffer is added at the end of the
list, so it is not reached before the packets that lie between.
-/

namespace Melis.RecRender

open Lib Memory Function RsPacketCacheManager

variable {β : Type}

namespace RsPacketCacheManager

/-- The packets in the cache, the first one first. -/
def live (m : RsPacketCacheManager β) : List (RecSinkPacket β) :=
  m.mUsingPacketList ++ m.mReadyPacketList

def liveCells (m : RsPacketCacheManager β) : List Nat := m.live.flatMap RecSinkPacket.cells

/-- The live packets lie one after the other on the ring, up to the write position. -/
structure Layout (m : RsPacketCacheManager β) : Prop where
  ring : ∃ free, (m.liveCells ++ free).IsRotated m.ring ∧
    (free ++ m.liveCells).head? = some m.mpWritePos
  used : m.mUsedBufSize = m.liveCells.length

/-- Each live packet reads as it was pushed. -/
def Intact (m : RsPacketCacheManager β) : Prop := ∀ e ∈ m.live, load m.mem e.cells = e.bytes

variable {m m' : RsPacketCacheManager β} {p : PushedPacket β} {e : RecSinkPacket β}
  {es A B : List (RecSinkPacket β)} {k pos a n pw : Nat} {l free : List Nat}

/-- The ring from the write position on is the free part and then the live packets. -/
theorem Buffers.eq_free_append (h : m.Buffers) (hrot : (m.liveCells ++ free).IsRotated m.ring)
    (hhead : (free ++ m.liveCells).head? = some m.mpWritePos) (hl : l.IsRotated m.ring)
    (hlhead : l.head? = some m.mpWritePos) : l = free ++ m.liveCells := by
  obtain ⟨X, Y, hring⟩ := List.append_of_mem h.write
  have hnodup := hring ▸ h.nodup
  rw [hring] at hrot hl
  have hfree : (X ++ m.mpWritePos :: Y).IsRotated (free ++ m.liveCells) :=
    hrot.symm.trans List.isRotated_append
  rw [eq_of_isRotated_cons hnodup hl.symm hlhead, eq_of_isRotated_cons hnodup hfree hhead]

theorem Buffers.free_nodup (h : m.Buffers) (hrot : (m.liveCells ++ free).IsRotated m.ring) :
    (m.liveCells ++ free).Nodup := hrot.perm.nodup_iff.mpr h.nodup

theorem Buffers.left_eq (h : m.Buffers) (hused : m.mUsedBufSize = m.liveCells.length)
    (hrot : (m.liveCells ++ free).IsRotated m.ring) : m.nLeftBufSize = free.length := by
  have htotal := h.total
  have hlen := hrot.perm.length_eq
  rw [List.length_append] at hlen
  unfold nLeftBufSize
  omega

theorem Layout.room (h : m.Layout) (hb : m.Buffers) :
    0 ≤ m.mUsedBufSize ∧ 0 ≤ m.nLeftBufSize := by
  obtain ⟨free, hrot, -⟩ := h.ring
  have hused := h.used
  have hleft := hb.left_eq hused hrot
  omega

/-! ## Push -/

/-- Where a push writes there is no live packet. -/
theorem Layout.disjoint {as : List Nat} (h : m.Layout) (hb : m.Buffers) (hl : l.IsRotated m.ring)
    (hlhead : l.head? = some m.mpWritePos) (hpre : as <+: l)
    (hle : (as.length : Int) ≤ m.nLeftBufSize) : as.Disjoint m.liveCells := by
  obtain ⟨free, hrot, hhead⟩ := h.ring
  have hl' := hb.eq_free_append hrot hhead hl hlhead
  have hnodup := List.nodup_append'.mp (hb.free_nodup hrot)
  have hfree : as <+: free := by
    rw [hb.left_eq h.used hrot] at hle
    rw [hl'] at hpre
    exact List.prefix_of_prefix_length_le hpre (List.prefix_append ..) (by omega)
  exact fun a ha hlive => hnodup.2.2 hlive (hfree.subset ha)

theorem cells_subset (he : e ∈ m.live) (ha : a ∈ e.cells) : a ∈ m.liveCells :=
  List.mem_flatMap.mpr ⟨e, he, ha⟩

theorem Intact.stored {as : List Nat} (h : m.Intact) (hout : as.Disjoint m.liveCells)
    (xs : List β) (he : e ∈ m.live) : load (store m.mem as xs) e.cells = e.bytes := by
  rw [load_store_of_disjoint fun a ha hin => hout ha (cells_subset he hin)]
  exact h e he

theorem liveCells_placed (he : m.Holds p l e) :
    (((m.taken p).written (l.take p.bytes.length) p.bytes pw).accept e).liveCells =
      m.liveCells ++ l.take p.bytes.length := by
  change (m.mUsingPacketList ++ (m.mReadyPacketList ++ [e])).flatMap RecSinkPacket.cells = _
  rw [← List.append_assoc, List.flatMap_append, List.flatMap_cons, List.flatMap_nil,
    List.append_nil, he.cells]
  rfl

theorem Layout.placed (h : m.Layout) (hb : m.Buffers) (hl : l.IsRotated m.ring)
    (hlhead : l.head? = some m.mpWritePos) (he : m.Holds p l e)
    (hpw : (l.drop p.bytes.length ++ l.take p.bytes.length).head? = some pw)
    (hle : (p.bytes.length : Int) ≤ m.nLeftBufSize) :
    (((m.taken p).written (l.take p.bytes.length) p.bytes pw).accept e).Layout := by
  obtain ⟨free, hrot, hhead⟩ := h.ring
  have hl' := hb.eq_free_append hrot hhead hl hlhead
  have hfits : p.bytes.length ≤ free.length := by
    rw [hb.left_eq h.used hrot] at hle
    omega
  have htake : l.take p.bytes.length = free.take p.bytes.length := by
    rw [hl', List.take_append_of_le_length hfits]
  have hdrop : l.drop p.bytes.length = free.drop p.bytes.length ++ m.liveCells := by
    rw [hl', List.drop_append_of_le_length hfits]
  refine ⟨⟨free.drop p.bytes.length, ?_, ?_⟩, ?_⟩
  · rw [liveCells_placed he, htake, List.append_assoc, List.take_append_drop]
    exact hrot
  · rw [liveCells_placed he, htake, ← List.append_assoc, ← hdrop, ← htake]
    exact hpw
  · rw [liveCells_placed he, htake, List.length_append, List.length_take, Nat.min_eq_left hfits]
    change m.mUsedBufSize + (p.bytes.length : Int) = _
    rw [h.used]
    exact (Int.natCast_add ..).symm

theorem Intact.placed (h : m.Intact) (hlayout : m.Layout) (hb : m.Buffers)
    (hl : l.IsRotated m.ring) (hlhead : l.head? = some m.mpWritePos) (he : m.Holds p l e)
    (hle : (p.bytes.length : Int) ≤ m.nLeftBufSize) :
    (((m.taken p).written (l.take p.bytes.length) p.bytes pw).accept e).Intact := by
  have hlen : (l.take p.bytes.length).length = p.bytes.length := by
    have htotal := hb.total
    have hroom := hlayout.room hb
    rw [List.length_take, hl.perm.length_eq, Nat.min_eq_left]
    unfold nLeftBufSize at hle
    omega
  intro x hx
  have hx' : x ∈ m.live ∨ x = e := by
    change x ∈ m.mUsingPacketList ++ (m.mReadyPacketList ++ [e]) at hx
    rw [← List.append_assoc, List.mem_append, List.mem_singleton] at hx
    exact hx
  change load (store m.mem (l.take p.bytes.length) p.bytes) x.cells = x.bytes
  rcases hx' with hx | rfl
  · refine h.stored (hlayout.disjoint hb hl hlhead (List.take_prefix ..) ?_) _ hx
    rw [hlen]
    exact hle
  · rw [he.cells, he.bytes]
    refine load_store ?_ hlen
    exact (List.take_sublist ..).nodup (hl.perm.nodup_iff.mpr hb.nodup)

/-- What a packet holds and where. -/
def content (e : RecSinkPacket β) : List Nat × List β := (e.cells, e.bytes)

theorem liveCells_eq (m : RsPacketCacheManager β) :
    m.liveCells = (m.live.map content).flatMap Prod.fst := by
  rw [List.flatMap_map]
  rfl

/-- The same packets in the same memory. -/
theorem Layout.congr (h : m.Layout) (hlive : m'.live.map content = m.live.map content)
    (hring : m'.mDataBufList = m.mDataBufList) (hwrite : m'.mpWritePos = m.mpWritePos)
    (hused : m'.mUsedBufSize = m.mUsedBufSize) : m'.Layout := by
  have hcells : m'.liveCells = m.liveCells := by rw [liveCells_eq, hlive, ← liveCells_eq]
  have hring' : m'.ring = m.ring := by
    unfold RsPacketCacheManager.ring
    rw [hring]
  refine ⟨?_, ?_⟩
  · rw [hcells, hring', hwrite]
    exact h.ring
  · rw [hcells, hused]
    exact h.used

theorem Intact.congr (h : m.Intact) (hlive : m'.live.map content = m.live.map content)
    (hmem : m'.mem = m.mem) : m'.Intact := by
  intro e he
  have hmem' : content e ∈ m.live.map content := hlive ▸ List.mem_map_of_mem he
  obtain ⟨x, hx, heq⟩ := List.mem_map.mp hmem'
  have hcells : x.cells = e.cells := congrArg Prod.fst heq
  have hbytes : x.bytes = e.bytes := congrArg Prod.snd heq
  rw [hmem, ← hcells, ← hbytes]
  exact h x hx

/-- A buffer may be added where no live packet lies behind the write position. -/
theorem Layout.grown (h : m.Layout) (hb : m.Buffers)
    (hbefore : ∀ x ∈ m.liveCells, m.ring.idxOf x < m.ring.idxOf m.mpWritePos) (a n : Nat) :
    (m.grown a n).Layout := by
  obtain ⟨free, hrot, hhead⟩ := h.ring
  obtain ⟨X, Y, hring⟩ := List.append_of_mem hb.write
  have hnodup := hring ▸ hb.nodup
  have hX : m.mpWritePos ∉ X := fun hx =>
    (List.nodup_append.mp hnodup).2.2 _ hx _ (List.mem_cons_self ..) rfl
  have hlive : ∀ x ∈ m.liveCells, x ∈ X := by
    intro x hx
    have hlt := hbefore x hx
    rw [hring, List.idxOf_append_of_notMem hX, List.idxOf_cons_self] at hlt
    by_contra hnot
    rw [List.idxOf_append_of_notMem hnot] at hlt
    omega
  have hsplit : free ++ m.liveCells = m.mpWritePos :: Y ++ X := by
    rw [hring] at hrot
    exact eq_of_isRotated_cons hnodup (hrot.symm.trans List.isRotated_append) hhead
  -- the live packets are the end of the part before the write position
  obtain ⟨E, rfl⟩ : ∃ E, X = E ++ m.liveCells := by
    rcases List.append_eq_append_iff.mp hsplit with ⟨E, hE, hlive'⟩ | ⟨E, -, hE⟩
    · cases E with
      | nil => exact ⟨[], hlive'.symm⟩
      | cons x E =>
        have hx : x ∈ X := hlive x (hlive' ▸ List.mem_cons_self ..)
        have hx' : x ∈ m.mpWritePos :: Y :=
          hE ▸ List.mem_append_right _ (List.mem_cons_self ..)
        exact absurd rfl ((List.nodup_append.mp hnodup).2.2 x hx x hx')
    · exact ⟨E, hE⟩
  refine ⟨⟨m.mpWritePos :: Y ++ List.range' a n ++ E, ?_, rfl⟩, h.used⟩
  change (m.liveCells ++ _).IsRotated _
  rw [ring_grown, hring]
  have hmove : (m.liveCells ++ (m.mpWritePos :: Y ++ List.range' a n) ++ E).IsRotated
      (E ++ (m.liveCells ++ (m.mpWritePos :: Y ++ List.range' a n))) := List.isRotated_append
  simpa only [List.append_assoc] using hmove

/-! ## Release -/

/-- The first packet goes. -/
theorem Layout.freed (h : m.Layout) (hlive : m.live = e :: m'.live)
    (hring : m'.mDataBufList = m.mDataBufList) (hwrite : m'.mpWritePos = m.mpWritePos)
    (hused : m'.mUsedBufSize = m.mUsedBufSize - (e.mSize0 + e.mSize1)) : m'.Layout := by
  obtain ⟨free, hrot, hhead⟩ := h.ring
  have hcells : m.liveCells = e.cells ++ m'.liveCells := by
    unfold liveCells
    rw [hlive, List.flatMap_cons]
  have hring' : m'.ring = m.ring := by
    unfold RsPacketCacheManager.ring
    rw [hring]
  rw [hcells] at hrot hhead
  refine ⟨⟨free ++ e.cells, ?_, ?_⟩, ?_⟩
  · rw [hring', ← List.append_assoc]
    refine List.isRotated_append.trans ?_
    rwa [← List.append_assoc]
  · rwa [hwrite, List.append_assoc]
  · have hused' := h.used
    rw [hcells, List.length_append, RecSinkPacket.length_cells] at hused'
    omega

theorem Intact.freed (h : m.Intact) (hlive : m.live = e :: m'.live) (hmem : m'.mem = m.mem) :
    m'.Intact := by
  intro x hx
  rw [hmem]
  exact h x (hlive ▸ List.mem_cons_of_mem e hx)

/-! ## A push as a whole -/

/-- No live packet lies behind the write position if the push adds a buffer. -/
def Growable (m : RsPacketCacheManager β) (p : PushedPacket β) (buffer : Option Nat) : Prop :=
  m.nLeftBufSize < p.size ∧ buffer ≠ none →
    ∀ x ∈ m.liveCells, m.ring.idxOf x < m.ring.idxOf m.mpWritePos

/-- The push changes what is at `x`, in some memory. -/
def Writes (m : RsPacketCacheManager β) (p : PushedPacket β) (k : Nat) (buffer : Option Nat)
    (x : Nat) : Prop :=
  ∃ mem, ({ m with mem := mem }.pushPacket p k buffer).1.mem x ≠ mem x

variable {buffer : Option Nat} {I : RsPacketCacheManager β → Prop}

/-- The packet is placed among the same packets, in the same memory. -/
theorem Layout.push_inv (h : m.Layout) (hb : m.Buffers) (hgrow : m.Growable p buffer)
    (hfresh : ∀ a ∈ buffer, m.Fresh a (m.nEnlargeSize p)) (hnone : I (m.refilled k))
    (hplace : ∀ m' : RsPacketCacheManager β, m'.Buffers → m'.Layout → m'.live = m.live →
      m'.mem = m.mem → p.size ≤ m'.nLeftBufSize → I (m'.place p).1) : I (m.pushPacket p k buffer).1 := by
  obtain ⟨idle, n, heq⟩ := refilled_eq (m := m) (k := k)
  have hb' : (m.refilled k).Buffers := hb.refilled
  have hl' : (m.refilled k).Layout := by
    rw [heq]
    exact h.congr rfl rfl rfl rfl
  have hlive : (m.refilled k).live = m.live := by
    rw [heq]
    rfl
  have hmem : (m.refilled k).mem = m.mem := by rw [heq]
  refine pushPacket_inv hnone (hplace _ hb' hl' hlive hmem) ?_
  intro a ha hlt hfits
  have hpos : 0 < m.nEnlargeSize p := by
    have hle := nEnlargeSize_le hlt
    omega
  have hfresh' : (m.refilled k).Fresh a (m.nEnlargeSize p) := by
    rw [heq]
    exact hfresh a ha
  have hbuffer : buffer ≠ none := fun hnil => by
    rw [hnil] at ha
    exact nomatch ha
  have hbefore : ∀ x ∈ (m.refilled k).liveCells, (m.refilled k).ring.idxOf x <
      (m.refilled k).ring.idxOf (m.refilled k).mpWritePos := by
    rw [heq]
    exact hgrow ⟨hlt, hbuffer⟩
  exact hplace _ (hb'.grown hpos hfresh') (hl'.grown hb' hbefore a _) hlive hmem hfits

theorem Layout.place_mem (h : m.Layout) (hb : m.Buffers) (hfits : p.size ≤ m.nLeftBufSize)
    {x : Nat} (hx : x ∈ m.liveCells) : (m.place p).1.mem x = m.mem x := by
  obtain ⟨hused, hroom⟩ := h.room hb
  refine hb.place_inv (I := fun m' => m'.mem x = m.mem x) hused hroom hfits ?_ ?_
  · intro l as hl hlhead hpre _ hle
    exact store_of_notMem fun ha => h.disjoint hb hl hlhead hpre hle ha hx
  · intro _ l e pw hl hlhead _ _ hle
    refine store_of_notMem fun ha => h.disjoint hb hl hlhead (List.take_prefix ..) ?_ ha hx
    rw [List.length_take]
    omega

/-- A push does not write to live packets. -/
theorem Layout.not_writes (h : m.Layout) (hb : m.Buffers) (hgrow : m.Growable p buffer)
    (hfresh : ∀ a ∈ buffer, m.Fresh a (m.nEnlargeSize p)) {x : Nat} (hx : x ∈ m.liveCells) :
    ¬ m.Writes p k buffer x := by
  rintro ⟨mem, hne⟩
  have hb' : Buffers { m with mem := mem } := hb.congr rfl rfl hb.write
  have hl' : Layout { m with mem := mem } := h.congr rfl rfl rfl rfl
  obtain ⟨idle, n, heq⟩ := refilled_eq (m := { m with mem := mem }) (k := k)
  refine hne (hl'.push_inv (I := fun m' => m'.mem x = mem x) hb' hgrow hfresh (by rw [heq]) ?_)
  intro m' hb'' hl'' hlive hmem hfits
  have hx' : x ∈ m'.liveCells := by
    unfold liveCells
    rw [hlive]
    exact hx
  rw [hl''.place_mem hb'' hfits hx', hmem]

/-- The invariant of the run. -/
structure Content (m : RsPacketCacheManager β) : Prop where
  buffers : m.Buffers
  layout : m.Layout
  intact : m.Intact

theorem Content.congr (h : m.Content) (hlive : m'.live.map content = m.live.map content)
    (hring : m'.mDataBufList = m.mDataBufList) (hsize : m'.mBufSize = m.mBufSize)
    (hwrite : m'.mpWritePos = m.mpWritePos) (hused : m'.mUsedBufSize = m.mUsedBufSize)
    (hmem : m'.mem = m.mem) : m'.Content where
  buffers := h.buffers.congr hring hsize (hwrite ▸ h.buffers.write)
  layout := h.layout.congr hlive hring hwrite hused
  intact := h.intact.congr hlive hmem

theorem Content.freed (h : m.Content) (hlive : m.live = e :: m'.live)
    (hring : m'.mDataBufList = m.mDataBufList) (hsize : m'.mBufSize = m.mBufSize)
    (hwrite : m'.mpWritePos = m.mpWritePos)
    (hused : m'.mUsedBufSize = m.mUsedBufSize - (e.mSize0 + e.mSize1))
    (hmem : m'.mem = m.mem) : m'.Content where
  buffers := h.buffers.congr hring hsize (hwrite ▸ h.buffers.write)
  layout := h.layout.freed hlive hring hwrite hused
  intact := h.intact.freed hlive hmem

theorem Content.place (h : m.Content) (hfits : p.size ≤ m.nLeftBufSize) :
    (m.place p).1.Content := by
  obtain ⟨hused, hroom⟩ := h.layout.room h.buffers
  refine h.buffers.place_inv hused hroom hfits ?_ ?_
  · intro l as hl hlhead hpre _ hle
    refine ⟨h.buffers.congr rfl rfl h.buffers.write, h.layout.congr rfl rfl rfl rfl, ?_⟩
    intro x hx
    exact h.intact.stored (h.layout.disjoint h.buffers hl hlhead hpre hle) _ hx
  · intro _ l e pw hl hlhead he hpw hle
    have hring : pw ∈ m.ring := by
      apply hl.perm.mem_iff.mp
      have hmem := List.mem_of_mem_head? hpw
      rw [List.mem_append] at hmem
      exact hmem.elim (fun h => List.mem_of_mem_drop h) (fun h => List.mem_of_mem_take h)
    exact ⟨h.buffers.congr rfl rfl hring, h.layout.placed h.buffers hl hlhead he hpw hle,
      h.intact.placed h.layout h.buffers hl hlhead he hle⟩

end RsPacketCacheManager

/-! ## The run -/

/-- A push adds a buffer only where no live packet lies behind the write position,
and a release by an id frees the first packet only. -/
def Orderly (s : State β) : Input β → Prop
  | .push p _ buffer => s.m.Growable p buffer
  | i => ∀ nId ∈ s.named i, ∀ e ∈ s.m.mUsingPacketList.find? (·.mId == nId), e.mRefCnt = 1 →
      s.m.mUsingPacketList.head? = some e

theorem content_kept : Kept (β := β) Orderly Content where
  push s p k buffer hC hfresh h := by
    obtain ⟨idle, n, heq⟩ := refilled_eq (m := s.m) (k := k)
    refine h.layout.push_inv h.buffers hC hfresh ?_ ?_
    · rw [heq]
      exact h.congr rfl rfl rfl rfl rfl rfl
    · intro m' hb hl hlive hmem hfits
      refine Content.place ⟨hb, hl, h.intact.congr (by rw [hlive]) hmem⟩ hfits
  get m h := by
    unfold getPacket
    cases hready : m.mReadyPacketList with
    | nil => exact h
    | cons e es =>
      refine h.congr ?_ rfl rfl rfl rfl rfl
      change ((m.mUsingPacketList ++ [{ e with mRefCnt := 1 }]) ++ es).map content =
        (m.mUsingPacketList ++ m.mReadyPacketList).map content
      rw [hready, List.append_assoc]
      simp only [List.map_append, List.map_cons]
      rfl
  waiting m flag nId h := h.congr rfl rfl rfl rfl rfl rfl
  setRefCnt m e i h := by
    refine h.congr ?_ rfl rfl rfl rfl rfl
    have hmap : (m.setRefCnt e i).mUsingPacketList.map content =
        m.mUsingPacketList.map content := by
      change (m.mUsingPacketList.map _).map content = _
      rw [List.map_map]
      refine List.map_congr_left fun x _ => ?_
      dsimp only [Function.comp]
      split <;> rfl
    unfold live
    rw [List.map_append, hmap, List.map_append]
    rfl
  named s i nId e A B pos hC hnamed husing hid hone hA h := by
    have hfind : s.m.mUsingPacketList.find? (·.mId == nId) = some e :=
      List.find?_eq_some_iff_append.mpr ⟨beq_iff_eq.mpr hid, A, B, husing, by simpa using hA⟩
    have hhead : s.m.mUsingPacketList.head? = some e := by
      cases i with
      | push => exact nomatch hnamed
      | _ => exact hC nId hnamed e hfind hone
    cases A with
    | nil =>
      rw [husing, List.nil_append, List.eraseP_cons_of_pos (by simp)]
      refine h.freed (e := e) ?_ rfl rfl rfl rfl rfl
      unfold live
      rw [husing]
      rfl
    | cons x A =>
      rw [husing] at hhead
      obtain rfl := Option.some.inj hhead
      exact absurd hid (hA x (List.mem_cons_self ..))
  first m e es pos husing h := by
    refine h.freed (e := e) ?_ rfl rfl rfl rfl rfl
    unfold live
    rw [husing]
    rfl
  firstReady m e es pos husing hready h := by
    refine h.freed (e := e) ?_ rfl rfl rfl rfl rfl
    unfold live
    rw [husing, hready]
    change e :: es = e :: (m.mUsingPacketList ++ es)
    rw [husing]
    rfl

theorem content_init {nCacheTime : Int} {mem : Nat → β} {a k : Nat} {s : State β}
    (hinit : rsPacketCacheManagerInit nCacheTime mem a k = some s) : s.m.Content := by
  obtain ⟨hbuffers, -⟩ := books_init hinit
  unfold rsPacketCacheManagerInit at hinit
  split at hinit
  · exact nomatch hinit
  · obtain rfl := Option.some.inj hinit
    refine ⟨hbuffers, ⟨⟨List.range' a avpacketCacheSize, ?_, ?_⟩, rfl⟩, nofun⟩
    · change (List.range' a avpacketCacheSize).IsRotated (List.range' a avpacketCacheSize ++ [])
      rw [List.append_nil]
    · rfl

section

variable (nCacheTime : Int) (mem : Nat → β) (a k : Nat) {s₀ s : State β} (is : List (Input β))

/-- **The packets stay as they were pushed** in every state of a run whose steps are
orderly, and no such push writes to one. -/
theorem packetCache_intact (hinit : rsPacketCacheManagerInit nCacheTime mem a k = some s₀)
    (hm : (packetCache β).Meets Orderly s₀ is) (hrun : (packetCache β).run s₀ is = some s) :
    s.m.Intact ∧ s.m.liveCells.Nodup ∧
      ∀ p k buffer, Orderly s (.push p k buffer) →
        (∀ a ∈ buffer, s.m.Fresh a (s.m.nEnlargeSize p)) →
        ∀ e ∈ s.m.live, ∀ x ∈ e.cells, ¬ s.m.Writes p k buffer x := by
  have h : s.m.Content :=
    Machine.run_inv (I := fun s => s.m.Content) (fun _ _ _ h hC hs => content_kept.next h hC hs)
      (content_init hinit) hm hrun
  obtain ⟨free, hrot, -⟩ := h.layout.ring
  refine ⟨h.intact, (List.nodup_append.mp (h.buffers.free_nodup hrot)).1, ?_⟩
  intro p k buffer hC hfresh e he x hx
  exact h.layout.not_writes h.buffers hC hfresh (cells_subset he hx)

end

theorem packetCache_intact_oneByte :
    ∃ s₀ s, rsPacketCacheManagerInit 1000 (fun _ => (0 : UInt8)) 1 1 = some s₀ ∧
      (packetCache UInt8).run s₀ [.push oneByte 0 none, .get] = some s ∧
      s.m.mUsingPacketList.length = 1 ∧ s.m.Intact := by
  refine ⟨_, _, rfl, rfl, rfl, ?_⟩
  refine (packetCache_intact 1000 (fun _ => 0) 1 1 [.push oneByte 0 none, .get] rfl ?_ rfl).1
  refine ⟨fun hlt => absurd rfl hlt.2, fun _ _ => ⟨?_, fun _ _ => trivial⟩⟩
  exact fun nId hnamed => nomatch hnamed

namespace RsPacketCacheManager

variable {m : RsPacketCacheManager β} {p : PushedPacket β} {b : DynamicBuffer}
  {bs : List DynamicBuffer}

theorem loops_first (hbufs : m.mDataBufList = b :: bs) (hwrite : m.mpWritePos = b.mpBuffer)
    (hpos : 0 < p.data0.length) (h1 : p.data1 = []) (hfits : p.data0.length ≤ b.mSize) :
    m.startCopy.loops p m.mDataBufList =
      (⟨memcpy m.mem b.mpBuffer p.data0,
        if p.data0.length = b.mSize then (nextEntry m.mDataBufList b).mpBuffer
          else b.mpBuffer + p.data0.length,
        p.data0.length, 0, update (fun _ => 0) 0 p.data0.length,
        update (fun _ => 0) 0 b.mpBuffer, 0⟩, .done) := by
  have hin : b.contains m.mpWritePos = true := by
    rw [hwrite]
    exact DynamicBuffer.mem_cells.mp (List.mem_range'_1.mpr ⟨Nat.le_refl _, by omega⟩)
  have hdrop : (m.mDataBufList.dropWhile fun x => !x.contains m.startCopy.pWritePos) = b :: bs := by
    rw [hbufs, List.dropWhile_cons_of_neg]
    change ¬(!b.contains m.mpWritePos) = true
    rw [hin]
    exact Bool.false_ne_true
  have hpass : m.startCopy.pass p b.stop (nextEntry m.mDataBufList b).mpBuffer =
      (⟨memcpy m.mem b.mpBuffer p.data0,
        if p.data0.length = b.mSize then (nextEntry m.mDataBufList b).mpBuffer
          else b.mpBuffer + p.data0.length,
        p.data0.length, 0, update (fun _ => 0) 0 p.data0.length,
        update (fun _ => 0) 0 b.mpBuffer, 0⟩, .done) := by
    simp only [Copy.pass, Copy.pass0, Copy.begun, Copy.copy0, startCopy, hwrite,
      DynamicBuffer.stop, h1, List.length_nil]
    have hleft : b.mpBuffer + b.mSize - b.mpBuffer = b.mSize := Nat.add_sub_cancel_left ..
    simp only [hpos, hleft, hfits, Nat.le_zero_eq, reduceCtorEq, ↓reduceIte, Nat.sub_zero,
      Nat.add_left_cancel_iff, List.drop_zero, List.take_length, Nat.zero_add]
    split <;> rfl
  unfold Copy.loops
  rw [hdrop]
  dsimp only
  unfold Copy.loop
  rw [hpass]

theorem place_first (hbufs : m.mDataBufList = b :: bs) (hwrite : m.mpWritePos = b.mpBuffer)
    (hlegal : ¬p.Illegal) (hsize : p.size = p.data0.length) (hpos : 0 < p.data0.length)
    (h1 : p.data1 = []) (hfits : p.data0.length ≤ b.mSize) :
    (m.place p).1 =
      { m.taken p with
        mem := memcpy m.mem b.mpBuffer p.data0
        mpWritePos := if p.data0.length = b.mSize then (nextEntry m.mDataBufList b).mpBuffer
          else b.mpBuffer + p.data0.length
        mUsedBufSize := m.mUsedBufSize + p.size }.accept
      { m.entry p with mpData0 := b.mpBuffer, mSize0 := p.data0.length, mpData1 := 0, mSize1 := 0 } := by
  have hloops := loops_first hbufs hwrite hpos h1 hfits
  unfold startCopy at hloops
  unfold place startCopy
  dsimp only
  rw [if_neg hlegal, if_neg (by omega), hloops]
  rfl

end RsPacketCacheManager

/-- A packet that fills the first buffer. -/
def fourMegabytes : PushedPacket UInt8 := ⟨0, 0, 0, fun _ => 0, avpacketCacheSize, fun _ => 0, 0⟩

theorem length_fourMegabytes : fourMegabytes.data0.length = avpacketCacheSize := by
  rw [PushedPacket.data0, List.length_map, List.length_range]
  rfl

/-- After the packet that fills the buffer the write position is its start again. -/
theorem fourMegabytes_pushed :
    ∃ s₀ s, rsPacketCacheManagerInit 1000 (fun _ => (0 : UInt8)) 1 2 = some s₀ ∧
      next s₀ (.push fourMegabytes 0 none) = some s ∧
      s.m.mDataBufList = [⟨1, avpacketCacheSize⟩] ∧ s.m.mpWritePos = 1 ∧
      s.m.nLeftBufSize = 0 ∧ s.m.nodesOnly = true ∧ s.m.mIdlePacketList ≠ [] ∧
      ∃ e ∈ s.m.mReadyPacketList, e.cells = List.range' 1 avpacketCacheSize ++ [] ∧
        e.bytes = fourMegabytes.bytes := by
  obtain ⟨s₀, hinit, hs₀⟩ : ∃ s₀, rsPacketCacheManagerInit 1000 (fun _ => (0 : UInt8)) 1 2 =
      some s₀ ∧ s₀.m = RsPacketCacheManager.increaseIdlePacketList
        ⟨fun _ => 0, [⟨1, avpacketCacheSize⟩], 1, 1, 0, avpacketCacheSize, 0, 1000, -1, false,
          false, -1, [], [], [], 0, 0, 0, []⟩ 2 := ⟨_, rfl, rfl⟩
  have hplace := place_first (m := s₀.m) (p := fourMegabytes) (b := ⟨1, avpacketCacheSize⟩)
    (show _ = _ :: [] by rw [hs₀]; rfl) (by rw [hs₀]; rfl) (by decide)
    (by rw [length_fourMegabytes]; rfl) (by rw [length_fourMegabytes]; decide) rfl
    (by rw [length_fourMegabytes])
  have hidle : s₀.m.mIdlePacketList ≠ [] := by
    rw [hs₀]
    exact nofun
  have hfits : fourMegabytes.size ≤ s₀.m.nLeftBufSize := by
    rw [hs₀]
    decide
  have hpush : (s₀.m.pushPacket fourMegabytes 0 none).1 = (s₀.m.place fourMegabytes).1 := by
    rw [pushPacket_fits hfits, refilled_of_ne_nil hidle]
  have hnodes : s₀.m.nodesOnly = true := by
    rw [hs₀]
    rfl
  have hnext : next s₀ (.push fourMegabytes 0 none) =
      some (s₀.did (s₀.m.pushPacket fourMegabytes 0 none)) := by
    unfold next
    rw [if_pos hnodes]
    exact if_pos nofun
  refine ⟨s₀, _, hinit, hnext, ?_⟩
  change (s₀.m.pushPacket fourMegabytes 0 none).1.mDataBufList = _ ∧
    (s₀.m.pushPacket fourMegabytes 0 none).1.mpWritePos = _ ∧
    (s₀.m.pushPacket fourMegabytes 0 none).1.nLeftBufSize = _ ∧
    (s₀.m.pushPacket fourMegabytes 0 none).1.nodesOnly = _ ∧
    (s₀.m.pushPacket fourMegabytes 0 none).1.mIdlePacketList ≠ [] ∧
    ∃ e ∈ (s₀.m.pushPacket fourMegabytes 0 none).1.mReadyPacketList, _
  rw [hpush, hplace, hs₀, length_fourMegabytes]
  exact ⟨rfl, rfl, rfl, rfl, nofun, _, List.mem_singleton.mpr rfl, rfl, rfl⟩

/-- The second packet is written to the start of the first one, though the list grew
for it. -/
theorem packetCache_overwritten :
    ∃ s₀ s, rsPacketCacheManagerInit 1000 (fun _ => (0 : UInt8)) 1 2 = some s₀ ∧
      (packetCache UInt8).run s₀
        [.push fourMegabytes 0 none, .push oneByte 0 (some (8 * 1024 * 1024))] = some s ∧
      ¬ s.m.Intact := by
  obtain ⟨s₀, s₁, hinit, hnext, hbufs, hwrite, hleft, hnodes, hidle, e, he, hcells, hbytes⟩ :=
    fourMegabytes_pushed
  have hlt : s₁.m.nLeftBufSize < oneByte.size := by
    rw [hleft]
    decide
  have hfresh : ∀ a ∈ some (8 * 1024 * 1024), s₁.m.Fresh a (s₁.m.nEnlargeSize oneByte) := by
    unfold Fresh nEnlargeSize
    rw [hbufs, hleft]
    decide
  have hplace := place_first (m := s₁.m.grown (8 * 1024 * 1024) (s₁.m.nEnlargeSize oneByte))
    (p := oneByte) (b := ⟨1, avpacketCacheSize⟩)
    (show _ = _ :: [⟨8 * 1024 * 1024, s₁.m.nEnlargeSize oneByte⟩] by
      unfold RsPacketCacheManager.grown
      rw [hbufs]
      rfl) hwrite (by decide) (by decide)
    (by decide) rfl (by decide)
  have hpush := pushPacket_grows (k := 0) (a := 8 * 1024 * 1024) hlt
  rw [refilled_of_ne_nil hidle] at hpush
  have hnext' : next s₁ (.push oneByte 0 (some (8 * 1024 * 1024))) =
      some (s₁.did (s₁.m.pushPacket oneByte 0 (some (8 * 1024 * 1024)))) := by
    unfold next
    rw [if_pos hnodes]
    exact if_pos hfresh
  refine ⟨s₀, s₁.did (s₁.m.pushPacket oneByte 0 (some (8 * 1024 * 1024))), hinit, ?_, ?_⟩
  · exact Machine.run_cons_eq_some.mpr ⟨s₁, hnext, Machine.run_cons_eq_some.mpr ⟨_, hnext', rfl⟩⟩
  · change ¬ (s₁.m.pushPacket oneByte 0 (some (8 * 1024 * 1024))).1.Intact
    rw [hpush, hplace]
    intro hintact
    have hload := hintact e (List.mem_append_right _ (List.mem_append_left _ he))
    have hbyte := congrArg List.head? hload
    rw [hcells, hbytes] at hbyte
    change some (1 : UInt8) = _ at hbyte
    have hzero : fourMegabytes.bytes.head? = some 0 := by
      rw [PushedPacket.bytes, PushedPacket.data0, List.range_eq_range']
      rfl
    rw [hzero] at hbyte
    exact absurd hbyte (by decide)

end Melis.RecRender
