import Melis.RecRender.Calls

/-!
# The accounts of the packet cache

The used size, the packet count, the three lists, the ids and the order of the
packets stay right as long as a push that finds no idle node is given one and the
id of the next packet is not in use. `RPCMIncreaseIdlePacketList` does not say
that it got no node; the push then takes the head of the list for a packet.
-/

namespace Melis.RecRender

open Lib RsPacketCacheManager

variable {β : Type}

namespace RsPacketCacheManager

/-- The accounts are right. -/
structure Accounted (m : RsPacketCacheManager β) : Prop where
  used : m.mUsedBufSize = totalSize (m.mReadyPacketList ++ m.mUsingPacketList)
  fits : m.mUsedBufSize ≤ m.mBufSize
  count : m.mPacketCount = (m.mReadyPacketList ++ m.mUsingPacketList).length
  nodes : ((m.mIdlePacketList ++ m.mReadyPacketList ++ m.mUsingPacketList).map (·.node)).Perm
    (List.range' 1 m.nodes)
  ids : ((m.mReadyPacketList ++ m.mUsingPacketList).map (·.mId)).Nodup
  order : m.left ++ m.mReadyPacketList.map (·.seq) = List.range m.pushed

variable {m : RsPacketCacheManager β} {p : PushedPacket β} {e : RecSinkPacket β}
  {es A B : List (RecSinkPacket β)} {k pos a n : Nat}

theorem totalSize_append (es fs : List (RecSinkPacket β)) :
    totalSize (es ++ fs) = totalSize es + totalSize fs := by
  rw [totalSize, totalSize, totalSize, List.map_append, List.sum_append]

theorem totalSize_cons (e : RecSinkPacket β) (es : List (RecSinkPacket β)) :
    totalSize (e :: es) = e.mSize0 + e.mSize1 + totalSize es := rfl

theorem totalSize_nil : totalSize ([] : List (RecSinkPacket β)) = 0 := rfl

theorem Accounted.room (h : m.Accounted) : 0 ≤ m.mUsedBufSize ∧ 0 ≤ m.nLeftBufSize := by
  have hfits := h.fits
  have hused := h.used
  unfold nLeftBufSize
  omega

theorem Accounted.nodup (h : m.Accounted) :
    ((m.mIdlePacketList ++ m.mReadyPacketList ++ m.mUsingPacketList).map (·.node)).Nodup :=
  h.nodes.nodup_iff.mpr List.nodup_range'

/-! ## Push -/

theorem Accounted.refilled (h : m.Accounted) : (m.refilled k).Accounted := by
  unfold RsPacketCacheManager.refilled
  split
  · refine ⟨h.used, h.fits, h.count, ?_, h.ids, h.order⟩
    let new := (List.range' (m.nodes + 1) (min k packetNumInRspacketbuf)).map
      (RecSinkPacket.malloced (β := β))
    have hnew : new.map RecSinkPacket.node =
        List.range' (m.nodes + 1) (min k packetNumInRspacketbuf) := by
      rw [List.map_map]
      exact List.map_id _
    have hmove : (m.mIdlePacketList ++ new ++ m.mReadyPacketList ++ m.mUsingPacketList).Perm
        (m.mIdlePacketList ++ m.mReadyPacketList ++ m.mUsingPacketList ++ new) := by
      simp only [List.append_assoc]
      apply List.Perm.append_left
      rw [← List.append_assoc m.mReadyPacketList]
      exact List.perm_append_comm
    apply (hmove.map RecSinkPacket.node).trans
    have hnodes := h.nodes.append_right (new.map RecSinkPacket.node)
    rw [hnew, Nat.add_comm m.nodes 1, List.range'_append_1] at hnodes
    rw [List.map_append, hnew, Nat.add_comm m.nodes 1]
    exact hnodes
  · exact h

theorem refilled_idle (hk : m.mIdlePacketList = [] → 0 < k) :
    (m.refilled k).mIdlePacketList ≠ [] := by
  unfold RsPacketCacheManager.refilled
  split
  · next hempty =>
    have hpos := hk (List.isEmpty_iff.mp hempty)
    intro hnil
    have hlen := congrArg List.length (List.append_eq_nil_iff.mp hnil).2
    rw [List.length_map, List.length_range', List.length_nil] at hlen
    unfold packetNumInRspacketbuf at hlen
    omega
  · next hidle => exact fun hnil => hidle (List.isEmpty_iff.mpr hnil)

theorem Accounted.grown (h : m.Accounted) (a n : Nat) : (m.grown a n).Accounted :=
  ⟨h.used, Int.le_trans h.fits (Int.le_add_of_nonneg_right (Int.natCast_nonneg n)), h.count,
    h.nodes, h.ids, h.order⟩

theorem Buffers.refilled (h : m.Buffers) : (m.refilled k).Buffers := by
  obtain ⟨idle, n, heq⟩ := refilled_eq (m := m) (k := k)
  rw [heq]
  exact h.congr rfl rfl h.write

theorem Accounted.refused (h : m.Accounted) (hidle : m.mIdlePacketList ≠ []) (as : List Nat)
    (xs : List β) : ((m.taken p).spoilt as xs).Accounted := by
  refine ⟨h.used, h.fits, h.count, ?_, h.ids, h.order⟩
  have hnodes := h.nodes
  obtain ⟨x, xs, hx⟩ := List.exists_cons_of_ne_nil hidle
  rw [hx] at hnodes
  change ((m.entry p :: m.mIdlePacketList.tail ++ m.mReadyPacketList ++
    m.mUsingPacketList).map RecSinkPacket.node).Perm _
  unfold entry
  rw [hx]
  exact hnodes

theorem Accounted.placed {l : List Nat} {pw : Nat} (h : m.Accounted)
    (hidle : m.mIdlePacketList ≠ [])
    (hids : ∀ x ∈ m.mReadyPacketList ++ m.mUsingPacketList, x.mId ≠ m.mPacketIdCounter)
    (he : m.Holds p l e) (hl : p.bytes.length ≤ l.length)
    (hfits : (p.bytes.length : Int) ≤ m.nLeftBufSize) :
    (((m.taken p).written (l.take p.bytes.length) p.bytes pw).accept e).Accounted := by
  have hsize : e.mSize0 + e.mSize1 = p.bytes.length := by
    rw [← RecSinkPacket.length_cells, he.cells, List.length_take, Nat.min_eq_left hl]
  obtain ⟨x, xs, hx⟩ := List.exists_cons_of_ne_nil hidle
  have hperm : (m.mReadyPacketList ++ [e] ++ m.mUsingPacketList).Perm
      (e :: (m.mReadyPacketList ++ m.mUsingPacketList)) := by
    rw [List.append_assoc]
    exact List.perm_middle
  refine ⟨?_, ?_, ?_, ?_, ?_, ?_⟩
  · change m.mUsedBufSize + (p.bytes.length : Int) =
      (totalSize (m.mReadyPacketList ++ [e] ++ m.mUsingPacketList) : Nat)
    have htotal : totalSize (m.mReadyPacketList ++ [e] ++ m.mUsingPacketList) =
        totalSize (m.mReadyPacketList ++ m.mUsingPacketList) + p.bytes.length := by
      simp only [totalSize_append, totalSize_cons, totalSize_nil, hsize]
      omega
    rw [htotal, h.used]
    omega
  · change m.mUsedBufSize + (p.bytes.length : Int) ≤ m.mBufSize
    unfold nLeftBufSize at hfits
    omega
  · change m.mPacketCount + 1 = ((m.mReadyPacketList ++ [e] ++ m.mUsingPacketList).length : Nat)
    rw [hperm.length_eq, List.length_cons, h.count]
    omega
  · change ((m.mIdlePacketList.tail ++ (m.mReadyPacketList ++ [e]) ++
      m.mUsingPacketList).map RecSinkPacket.node).Perm (List.range' 1 m.nodes)
    have hnode : e.node = x.node := by
      rw [he.node, hx]
      rfl
    have hnodes := h.nodes
    rw [hx, List.cons_append, List.cons_append, List.map_cons, ← hnode] at hnodes
    rw [hx, List.tail_cons, List.append_assoc xs]
    apply ((hperm.append_left xs).map RecSinkPacket.node).trans
    apply (List.perm_middle.map RecSinkPacket.node).trans
    rw [List.map_cons, ← List.append_assoc]
    exact hnodes
  · change ((m.mReadyPacketList ++ [e] ++ m.mUsingPacketList).map RecSinkPacket.mId).Nodup
    rw [(hperm.map RecSinkPacket.mId).nodup_iff, List.map_cons, List.nodup_cons]
    refine ⟨fun hmem => ?_, h.ids⟩
    obtain ⟨y, hy, hid⟩ := List.mem_map.mp hmem
    exact hids y hy (hid.trans he.mId)
  · change m.left ++ (m.mReadyPacketList ++ [e]).map RecSinkPacket.seq =
      List.range (m.pushed + 1)
    rw [List.map_append, ← List.append_assoc, h.order, List.range_succ, List.map_singleton, he.seq]

/-! ## Get and release -/

/-- What the accounts know of a packet. -/
def account (e : RecSinkPacket β) : Nat × Int × Nat := (e.node, e.mId, e.mSize0 + e.mSize1)

theorem totalSize_eq (es : List (RecSinkPacket β)) :
    totalSize es = ((es.map account).map (·.2.2)).sum := by
  rw [List.map_map]
  rfl

/-- A packet may go from one list to the other. -/
theorem Accounted.congr {m' : RsPacketCacheManager β} (h : m.Accounted)
    (hlive : ((m'.mReadyPacketList ++ m'.mUsingPacketList).map account).Perm
      ((m.mReadyPacketList ++ m.mUsingPacketList).map account))
    (hidle : m'.mIdlePacketList = m.mIdlePacketList) (hused : m'.mUsedBufSize = m.mUsedBufSize)
    (hsize : m'.mBufSize = m.mBufSize) (hcount : m'.mPacketCount = m.mPacketCount)
    (hnodes : m'.nodes = m.nodes)
    (horder : m'.left ++ m'.mReadyPacketList.map (·.seq) = List.range m'.pushed) :
    m'.Accounted := by
  refine ⟨?_, ?_, ?_, ?_, ?_, horder⟩
  · rw [hused, h.used, totalSize_eq, totalSize_eq, (hlive.map (·.2.2)).sum_nat]
  · rw [hused, hsize]
    exact h.fits
  · have hlen := hlive.length_eq
    rw [List.length_map, List.length_map] at hlen
    rw [hcount, h.count, hlen]
  · have hmap := hlive.map (·.1)
    rw [List.map_map, List.map_map] at hmap
    rw [hidle, hnodes, List.append_assoc, List.map_append]
    have hkeep := h.nodes
    rw [List.append_assoc, List.map_append] at hkeep
    exact (hmap.append_left _).trans hkeep
  · have hmap := hlive.map (·.2.1)
    rw [List.map_map, List.map_map] at hmap
    exact hmap.nodup_iff.mpr h.ids

theorem Accounted.get (h : m.Accounted) : m.getPacket.1.Accounted := by
  unfold getPacket
  cases hready : m.mReadyPacketList with
  | nil => exact h
  | cons e es =>
    refine h.congr ?_ rfl rfl rfl rfl rfl ?_
    · change ((es ++ (m.mUsingPacketList ++ [{ e with mRefCnt := 1 }])).map account).Perm _
      rw [hready, ← List.append_assoc, List.map_append]
      exact List.perm_append_comm
    · have horder := h.order
      rw [hready] at horder
      change m.left ++ [e.seq] ++ es.map (·.seq) = List.range m.pushed
      rw [← horder, List.append_assoc]
      rfl

theorem Accounted.waiting (h : m.Accounted) (flag : Bool) (nId : Int) :
    (m.waiting flag nId).Accounted :=
  ⟨h.used, h.fits, h.count, h.nodes, h.ids, h.order⟩

theorem Accounted.setRefCnt (h : m.Accounted) (e : RecSinkPacket β) (i : Int) :
    (m.setRefCnt e i).Accounted := by
  have hmap : (m.setRefCnt e i).mUsingPacketList.map account = m.mUsingPacketList.map account := by
    change (m.mUsingPacketList.map _).map account = _
    rw [List.map_map]
    refine List.map_congr_left fun x _ => ?_
    dsimp only [Function.comp]
    split <;> rfl
  refine h.congr ?_ rfl rfl rfl rfl rfl h.order
  rw [List.map_append, hmap, List.map_append]
  exact .refl _

/-- A packet is freed; the rest of the live packets stay. -/
theorem Accounted.freed {m' : RsPacketCacheManager β} (h : m.Accounted)
    (hlive : (m.mReadyPacketList ++ m.mUsingPacketList).Perm
      (e :: (m'.mReadyPacketList ++ m'.mUsingPacketList)))
    (hnode : (m'.mIdlePacketList.map (·.node)).Perm
      (e.node :: m.mIdlePacketList.map (·.node)))
    (hused : m'.mUsedBufSize = m.mUsedBufSize - (e.mSize0 + e.mSize1))
    (hsize : m'.mBufSize = m.mBufSize) (hcount : m'.mPacketCount = m.mPacketCount - 1)
    (hnodes : m'.nodes = m.nodes)
    (horder : m'.left ++ m'.mReadyPacketList.map (·.seq) = List.range m'.pushed) :
    m'.Accounted := by
  have hfits := h.fits
  have hused' := h.used
  have htotal : totalSize (m.mReadyPacketList ++ m.mUsingPacketList) =
      e.mSize0 + e.mSize1 + totalSize (m'.mReadyPacketList ++ m'.mUsingPacketList) := by
    rw [totalSize_eq, ((hlive.map account).map (·.2.2)).sum_nat, ← totalSize_eq, totalSize_cons]
  refine ⟨?_, ?_, ?_, ?_, ?_, horder⟩
  · rw [hused, hused', htotal]
    omega
  · rw [hused, hsize]
    omega
  · have hlen := hlive.length_eq
    rw [List.length_cons] at hlen
    rw [hcount, h.count, hlen]
    omega
  · have hkeep := h.nodes
    rw [List.append_assoc, List.map_append] at hkeep
    rw [hnodes, List.append_assoc, List.map_append]
    refine ((hnode.append_right _).trans ?_).trans hkeep
    have hmap := (hlive.map RecSinkPacket.node).symm
    rw [List.map_cons] at hmap
    exact List.perm_middle.symm.trans (hmap.append_left _)
  · have hids := ((hlive.map RecSinkPacket.mId).nodup_iff.mp h.ids)
    rw [List.map_cons] at hids
    exact (List.nodup_cons.mp hids).2

/-- The node says which packet of the using list goes. -/
theorem Accounted.eraseP (h : m.Accounted) (husing : m.mUsingPacketList = A ++ e :: B) :
    m.mUsingPacketList.eraseP (·.node == e.node) = A ++ B := by
  have hnodup := (List.nodup_append.mp (List.map_append ▸ h.nodup)).2.1
  rw [husing, List.map_append, List.map_cons] at hnodup
  have hA : ∀ x ∈ A, ¬(x.node == e.node) = true := by
    intro x hx hnode
    exact (List.nodup_append.mp hnodup).2.2 x.node (List.mem_map_of_mem hx) e.node
      (List.mem_cons_self ..) (beq_iff_eq.mp hnode)
  rw [husing, List.eraseP_append_right _ hA, List.eraseP_cons_of_pos (by simp)]

theorem Accounted.freedUsing (h : m.Accounted) (husing : m.mUsingPacketList = A ++ e :: B) :
    (m.freedUsing { e with mRefCnt := 0 } pos (A ++ B)).Accounted := by
  refine h.freed (e := e) ?_ ?_ rfl rfl rfl rfl h.order
  · change (m.mReadyPacketList ++ m.mUsingPacketList).Perm
      (e :: (m.mReadyPacketList ++ (A ++ B)))
    rw [husing, ← List.append_assoc, ← List.append_assoc]
    exact List.perm_middle
  · change ((m.mIdlePacketList ++ [{ e with mRefCnt := 0 }]).map RecSinkPacket.node).Perm _
    rw [List.map_append]
    exact List.perm_append_singleton ..

theorem Accounted.freedReady (h : m.Accounted) (hready : m.mReadyPacketList = e :: es) :
    (m.freedReady e pos es).Accounted := by
  refine h.freed (e := e) ?_ ?_ rfl rfl rfl rfl ?_
  · rw [hready]
    exact .refl _
  · change ((m.mIdlePacketList ++ [e]).map RecSinkPacket.node).Perm _
    rw [List.map_append]
    exact List.perm_append_singleton ..
  · have horder := h.order
    rw [hready] at horder
    change m.left ++ [e.seq] ++ es.map (·.seq) = List.range m.pushed
    rw [← horder, List.append_assoc]
    rfl

end RsPacketCacheManager

/-! ## The run -/

/-- A push that finds no idle node is given one, and no packet in the cache has
the id that is next. -/
def Supplied (s : State β) : Input β → Prop
  | .push _ k _ =>
    (s.m.mIdlePacketList = [] → 0 < k) ∧
      ∀ e ∈ s.m.mReadyPacketList ++ s.m.mUsingPacketList, e.mId ≠ s.m.mPacketIdCounter
  | _ => True

/-- The invariant of the run. -/
def Books (m : RsPacketCacheManager β) : Prop := m.Buffers ∧ m.Accounted

theorem Books.place {m : RsPacketCacheManager β} {p : PushedPacket β} (h : Books m)
    (hidle : m.mIdlePacketList ≠ [])
    (hids : ∀ x ∈ m.mReadyPacketList ++ m.mUsingPacketList, x.mId ≠ m.mPacketIdCounter)
    (hfits : p.size ≤ m.nLeftBufSize) : Books (m.place p).1 := by
  obtain ⟨hbuffers, haccounted⟩ := h
  obtain ⟨hused, hroom⟩ := haccounted.room
  refine hbuffers.place_inv hused hroom hfits ?_ ?_
  · intro l as _ _ _ _ _
    exact ⟨hbuffers.congr rfl rfl hbuffers.write,
      haccounted.refused hidle as _⟩
  · intro _ l e pw hl _ he hpw hle
    have hlen : p.bytes.length ≤ l.length := by
      have htotal := hbuffers.total
      rw [hl.perm.length_eq]
      unfold nLeftBufSize at hle
      omega
    have hring : pw ∈ m.ring := by
      apply hl.perm.mem_iff.mp
      have hmem := List.mem_of_mem_head? hpw
      rw [List.mem_append] at hmem
      exact hmem.elim (fun h => List.mem_of_mem_drop h) (fun h => List.mem_of_mem_take h)
    exact ⟨hbuffers.congr rfl rfl hring,
      haccounted.placed hidle hids he hlen hle⟩

theorem books_kept : Kept (β := β) Supplied Books where
  push s p k buffer hC hfresh h := by
    obtain ⟨hk, hids⟩ := hC
    obtain ⟨hbuffers, haccounted⟩ := h
    have hbooks : Books (s.m.refilled k) := ⟨hbuffers.refilled, haccounted.refilled⟩
    have hidle := refilled_idle hk
    obtain ⟨idle, n, heq⟩ := refilled_eq (m := s.m) (k := k)
    have hids' : ∀ x ∈ (s.m.refilled k).mReadyPacketList ++ (s.m.refilled k).mUsingPacketList,
        x.mId ≠ (s.m.refilled k).mPacketIdCounter := by
      rw [heq]
      exact hids
    refine pushPacket_inv hbooks (hbooks.place hidle hids') ?_
    intro a ha hlt hfits
    have hpos : 0 < s.m.nEnlargeSize p := by
      have hle := nEnlargeSize_le hlt
      omega
    have hfresh' : (s.m.refilled k).Fresh a (s.m.nEnlargeSize p) := by
      rw [heq]
      exact hfresh a ha
    exact Books.place ⟨hbooks.1.grown hpos hfresh', hbooks.2.grown a _⟩ hidle hids' hfits
  get m h := by
    refine ⟨?_, h.2.get⟩
    unfold getPacket
    split <;> exact h.1.congr rfl rfl h.1.write
  waiting m flag nId h :=
    ⟨h.1.congr rfl rfl h.1.write, h.2.waiting flag nId⟩
  setRefCnt m e n h := ⟨h.1.congr rfl rfl h.1.write, h.2.setRefCnt e n⟩
  named s i nId e A B pos _ _ husing _ _ _ h := by
    rw [h.2.eraseP husing]
    exact ⟨h.1.congr rfl rfl h.1.write, h.2.freedUsing husing⟩
  first m e es pos husing h :=
    ⟨h.1.congr rfl rfl h.1.write, h.2.freedUsing (A := []) husing⟩
  firstReady m e es pos _ hready h :=
    ⟨h.1.congr rfl rfl h.1.write, h.2.freedReady hready⟩

theorem buffers_init {m : RsPacketCacheManager β} {a : Nat}
    (hlist : m.mDataBufList = [⟨a, avpacketCacheSize⟩]) (hsize : m.mBufSize = avpacketCacheSize)
    (hwrite : m.mpWritePos = a) : m.Buffers := by
  have hring : m.ring = List.range' a avpacketCacheSize := by
    unfold ring
    rw [hlist, List.flatMap_cons, List.flatMap_nil, List.append_nil]
    rfl
  refine ⟨?_, ?_, ?_, ?_⟩
  · intro b hb
    rw [hlist, List.mem_singleton] at hb
    rw [hb]
    exact (by decide : 0 < avpacketCacheSize)
  · rw [hring]
    exact List.nodup_range'
  · rw [hring, hsize, List.length_range']
  · rw [hring, hwrite, List.mem_range'_1]
    exact ⟨Nat.le_refl _, Nat.lt_add_of_pos_right (by decide)⟩

theorem books_init {nCacheTime : Int} {mem : Nat → β} {a k : Nat} {s : State β}
    (hinit : rsPacketCacheManagerInit nCacheTime mem a k = some s) : Books s.m := by
  unfold rsPacketCacheManagerInit at hinit
  split at hinit
  · exact nomatch hinit
  · obtain rfl := Option.some.inj hinit
    refine ⟨buffers_init rfl rfl rfl, ?_⟩
    refine Accounted.refilled (m := ⟨mem, [⟨a, avpacketCacheSize⟩], a, a, 0, avpacketCacheSize, 0,
      nCacheTime, -1, false, false, -1, [], [], [], 0, 0, 0, []⟩) (k := k) ?_
    exact ⟨rfl, Int.natCast_nonneg _, rfl, .refl _, List.nodup_nil, rfl⟩

section

variable (nCacheTime : Int) (mem : Nat → β) (a k : Nat) {s₀ s : State β} (is : List (Input β))

/-- **The accounts of the packet cache are right** in every state of a run whose
pushes are supplied. -/
theorem packetCache_accounted (hinit : rsPacketCacheManagerInit nCacheTime mem a k = some s₀)
    (hm : (packetCache β).Meets Supplied s₀ is) (hrun : (packetCache β).run s₀ is = some s) :
    s.m.Accounted :=
  (Machine.run_inv (fun _ _ _ h hC hs => books_kept.next h hC hs) (books_init hinit) hm hrun).2

end

/-- A packet of one byte. -/
def oneByte : PushedPacket UInt8 := ⟨0, 0, 0, fun _ => 1, 1, fun _ => 0, 0⟩

theorem packetCache_accounted_oneByte :
    ∃ s₀ s, rsPacketCacheManagerInit 1000 (fun _ => (0 : UInt8)) 1 1 = some s₀ ∧
      (packetCache UInt8).run s₀ [.push oneByte 0 none, .get] = some s ∧
      s.m.mUsingPacketList.length = 1 ∧ s.m.Accounted := by
  refine ⟨_, _, rfl, rfl, rfl, ?_⟩
  refine packetCache_accounted 1000 (fun _ => 0) 1 1 [.push oneByte 0 none, .get] rfl ?_ rfl
  refine ⟨⟨?_, ?_⟩, fun _ _ => ⟨trivial, fun _ _ => trivial⟩⟩
  · exact fun hnil => nomatch hnil
  · exact fun e he => nomatch he

/-- The second push takes the head of the idle list for a packet. -/
theorem packetCache_unaccounted :
    ∃ s₀ s, rsPacketCacheManagerInit 1000 (fun _ => (0 : UInt8)) 1 1 = some s₀ ∧
      (packetCache UInt8).run s₀ [.push oneByte 0 none, .push oneByte 0 none] = some s ∧
      ¬ s.m.Accounted := by
  refine ⟨_, _, rfl, rfl, fun h => ?_⟩
  exact absurd h.nodes.length_eq (by decide)

end Melis.RecRender
