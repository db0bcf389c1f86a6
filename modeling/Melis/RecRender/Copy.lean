import Mathlib.Data.List.Chain
import Melis.RecRender.PacketCache

/-!
# The copy loops of a push

However a packet is split over its two pieces and the data buffers, the loops
write its bytes one after the other to the addresses from the write position on,
through the list of buffers and on from its start. `Advances` is what a part of
the loops does; it composes.
-/

namespace Melis.RecRender

open Lib Memory Function

variable {β : Type}

namespace Copy

/-- The bytes that are still to be copied. -/
def rest (p : PushedPacket β) (c : Copy β) : List β :=
  p.data0.drop c.nCopyLen0 ++ p.data1.drop c.nCopyLen1

/-- The addresses of the pieces so far. -/
def cells (c : Copy β) : List Nat :=
  List.range' (c.pArrayDBPacketPtr 0) (c.nArrayDBPacketSize 0) ++
    List.range' (c.pArrayDBPacketPtr 1) (c.nArrayDBPacketSize 1)

/-- The first piece goes first. -/
structure InOrder (p : PushedPacket β) (c : Copy β) : Prop where
  len0 : c.nCopyLen0 ≤ p.data0.length
  len1 : c.nCopyLen1 ≤ p.data1.length
  first : 0 < c.nCopyLen1 → c.nCopyLen0 = p.data0.length

/-- Before a pass: no piece is begun in the next buffer. -/
structure Ready (p : PushedPacket β) (c : Copy β) : Prop extends InOrder p c where
  empty : ∀ k, c.nDataBufNum ≤ k → c.nArrayDBPacketSize k = 0

/-- In a pass: the piece of this buffer ends at the write position. -/
structure Open (p : PushedPacket β) (c : Copy β) : Prop extends InOrder p c where
  num : c.nDataBufNum < 2
  at_end : c.pArrayDBPacketPtr c.nDataBufNum + c.nArrayDBPacketSize c.nDataBufNum = c.pWritePos
  empty : ∀ k, c.nDataBufNum < k → c.nArrayDBPacketSize k = 0

/-- The next bytes were copied to the addresses `as`. -/
structure Advances (p : PushedPacket β) (c c' : Copy β) (as : List Nat) : Prop where
  fits : as.length ≤ (c.rest p).length
  mem : c'.mem = store c.mem as ((c.rest p).take as.length)
  rest : c'.rest p = (c.rest p).drop as.length
  cells : c'.cells = c.cells ++ as

section

variable {p : PushedPacket β} {c c' c'' : Copy β} {as bs : List Nat} {n stop a : Nat}

theorem Advances.refl (p : PushedPacket β) (c : Copy β) : Advances p c c [] where
  fits := Nat.zero_le _
  mem := by simp
  rest := rfl
  cells := (List.append_nil _).symm

theorem Advances.trans (h : Advances p c c' as) (h' : Advances p c' c'' bs) :
    Advances p c c'' (as ++ bs) where
  fits := by
    have hb := h'.fits
    have ha := h.fits
    rw [h.rest, List.length_drop] at hb
    rw [List.length_append]
    omega
  mem := by
    have htake : as.length = ((c.rest p).take as.length).length := by
      rw [List.length_take, Nat.min_eq_left h.fits]
    rw [h'.mem, h.mem, h.rest, List.length_append, List.take_add, store_append htake]
  rest := by rw [h'.rest, h.rest, List.drop_drop, List.length_append]
  cells := by rw [h'.cells, h.cells, List.append_assoc]

/-- The piece of this buffer grows by what is copied behind its end. -/
theorem Open.cells_grow (h : Open p c) (hptr : c'.pArrayDBPacketPtr = c.pArrayDBPacketPtr)
    (hsize : c'.nArrayDBPacketSize =
      update c.nArrayDBPacketSize c.nDataBufNum (c.nArrayDBPacketSize c.nDataBufNum + n)) :
    c'.cells = c.cells ++ List.range' c.pWritePos n := by
  have hgrow : ∀ x k : Nat, List.range' x (k + n) = List.range' x k ++ List.range' (x + k) n :=
    fun x k => List.range'_append_1.symm
  have hend := h.at_end
  unfold cells
  rw [hptr, hsize]
  obtain hnum | hnum : c.nDataBufNum = 0 ∨ c.nDataBufNum = 1 := by
    have := h.num
    omega
  · have hone := h.empty 1 (by omega)
    rw [hnum] at hend ⊢
    rw [update_self, update_of_ne (by decide), hone, hgrow, hend]
    simp
  · rw [hnum] at hend ⊢
    rw [update_self, update_of_ne (by decide), hgrow, hend, List.append_assoc]

theorem Open.copy0 (h : Open p c) (hfirst : c.nCopyLen1 = 0)
    (hn : c.nCopyLen0 + n ≤ p.data0.length) :
    Advances p c (c.copy0 p n) (List.range' c.pWritePos n) ∧ Open p (c.copy0 p n) := by
  have hlen : n ≤ (p.data0.drop c.nCopyLen0).length := by
    rw [List.length_drop]
    omega
  have htake : (c.rest p).take n = (p.data0.drop c.nCopyLen0).take n :=
    List.take_append_of_le_length hlen
  have hcopied : ((p.data0.drop c.nCopyLen0).take n).length = n := by
    rw [List.length_take, Nat.min_eq_left hlen]
  refine ⟨⟨?_, ?_, ?_, h.cells_grow rfl rfl⟩, ⟨⟨hn, h.len1, ?_⟩, h.num, ?_, ?_⟩⟩
  · rw [List.length_range', rest, List.length_append]
    omega
  · rw [List.length_range', htake]
    change memcpy _ _ _ = _
    rw [memcpy, hcopied]
  · rw [List.length_range', rest, rest, List.drop_append_of_le_length hlen, List.drop_drop]
    rfl
  · intro hpos
    exact absurd hfirst (Nat.ne_of_gt hpos)
  · change c.pArrayDBPacketPtr c.nDataBufNum + update c.nArrayDBPacketSize c.nDataBufNum
      (c.nArrayDBPacketSize c.nDataBufNum + n) c.nDataBufNum = c.pWritePos + n
    rw [update_self, ← Nat.add_assoc, h.at_end]
  · intro k hk
    have hk' : c.nDataBufNum < k := hk
    change update c.nArrayDBPacketSize c.nDataBufNum _ k = 0
    rw [update_of_ne (Nat.ne_of_gt hk')]
    exact h.empty k hk'

theorem Open.copy1 (h : Open p c) (hfirst : c.nCopyLen0 = p.data0.length)
    (hn : c.nCopyLen1 + n ≤ p.data1.length) :
    Advances p c (c.copy1 p n) (List.range' c.pWritePos n) ∧ Open p (c.copy1 p n) := by
  have hlen : n ≤ (p.data1.drop c.nCopyLen1).length := by
    rw [List.length_drop]
    omega
  have hrest : c.rest p = p.data1.drop c.nCopyLen1 := by
    rw [rest, hfirst, List.drop_length, List.nil_append]
  have hcopied : ((p.data1.drop c.nCopyLen1).take n).length = n := by
    rw [List.length_take, Nat.min_eq_left hlen]
  refine ⟨⟨?_, ?_, ?_, h.cells_grow rfl rfl⟩, ⟨⟨h.len0, hn, fun _ => hfirst⟩, h.num, ?_, ?_⟩⟩
  · rw [List.length_range', hrest]
    exact hlen
  · rw [List.length_range', hrest]
    change memcpy _ _ _ = _
    rw [memcpy, hcopied]
  · rw [List.length_range', hrest, List.drop_drop, rest]
    change p.data0.drop c.nCopyLen0 ++ p.data1.drop (c.nCopyLen1 + n) = _
    rw [hfirst, List.drop_length, List.nil_append]
  · change c.pArrayDBPacketPtr c.nDataBufNum + update c.nArrayDBPacketSize c.nDataBufNum
      (c.nArrayDBPacketSize c.nDataBufNum + n) c.nDataBufNum = c.pWritePos + n
    rw [update_self, ← Nat.add_assoc, h.at_end]
  · intro k hk
    have hk' : c.nDataBufNum < k := hk
    change update c.nArrayDBPacketSize c.nDataBufNum _ k = 0
    rw [update_of_ne (Nat.ne_of_gt hk')]
    exact h.empty k hk'

/-- The write position may move once the bytes are there. -/
theorem Advances.moved (h : Advances p c c' as) (hmem : c''.mem = c'.mem)
    (h0 : c''.nCopyLen0 = c'.nCopyLen0) (h1 : c''.nCopyLen1 = c'.nCopyLen1)
    (hptr : c''.pArrayDBPacketPtr = c'.pArrayDBPacketPtr)
    (hsize : c''.nArrayDBPacketSize = c'.nArrayDBPacketSize) : Advances p c c'' as where
  fits := h.fits
  mem := hmem.trans h.mem
  rest := by
    rw [← h.rest, Copy.rest, Copy.rest, h0, h1]
  cells := by
    rw [← h.cells, Copy.cells, Copy.cells, hptr, hsize]

/-- What a pass does, if it is not refused. -/
structure Passes (p : PushedPacket β) (c : Copy β) (stop a : Nat) (r : Copy β × Flow) : Prop where
  advances : Advances p c r.1
    (List.range' c.pWritePos (min (c.rest p).length (stop - c.pWritePos)))
  done : (c.rest p).length ≤ stop - c.pWritePos → r.2 = .done ∧
    r.1.pWritePos =
      if c.pWritePos + (c.rest p).length = stop then a else c.pWritePos + (c.rest p).length
  next : stop - c.pWritePos < (c.rest p).length →
    r.2 = .next ∧ r.1.pWritePos = a ∧ Ready p r.1

theorem Open.toBuffer (h : Open p c) (a : Nat) : Ready p (c.toBuffer a) :=
  ⟨⟨h.len0, h.len1, h.first⟩, fun k hk => h.empty k hk⟩

theorem Open.pass1 (h : Open p c) (hfirst : c.nCopyLen0 = p.data0.length)
    (hrest : c.nCopyLen1 < p.data1.length) (hstop : c.pWritePos ≤ stop) :
    Passes p c stop a (c.pass1 p stop a) := by
  have hlen : (c.rest p).length = p.data1.length - c.nCopyLen1 := by
    rw [rest, hfirst, List.drop_length, List.nil_append, List.length_drop]
  unfold Copy.pass1
  dsimp only
  rw [if_pos hrest]
  by_cases hle : p.data1.length - c.nCopyLen1 ≤ stop - c.pWritePos
  · rw [if_pos hle]
    obtain ⟨hadv, -⟩ := h.copy1 hfirst (n := p.data1.length - c.nCopyLen1) (by omega)
    refine ⟨?_, fun _ => ⟨rfl, ?_⟩, fun hlt => by omega⟩
    · rw [hlen, Nat.min_eq_left hle]
      dsimp only
      split
      · exact hadv.moved rfl rfl rfl rfl rfl
      · exact hadv
    · rw [hlen]
      change (if c.pWritePos + _ = stop then _ else _ : Copy β).pWritePos = _
      split <;> rfl
  · rw [if_neg hle]
    obtain ⟨hadv, hopen⟩ := h.copy1 hfirst (n := stop - c.pWritePos) (by omega)
    refine ⟨?_, fun hle' => by omega, fun _ => ⟨rfl, rfl, hopen.toBuffer a⟩⟩
    rw [hlen, Nat.min_eq_right (by omega)]
    exact hadv.moved rfl rfl rfl rfl rfl

/-- The rest of a pass after some bytes. -/
theorem Passes.after {r : Copy β × Flow} (h : Passes p c' stop a r)
    (hadv : Advances p c c' (List.range' c.pWritePos n)) (hpw : c'.pWritePos = c.pWritePos + n)
    (hn : n ≤ stop - c.pWritePos) : Passes p c stop a r := by
  have hfits := hadv.fits
  rw [List.length_range'] at hfits
  have hrest : (c'.rest p).length = (c.rest p).length - n := by
    rw [hadv.rest, List.length_drop, List.length_range']
  have hmin : n + min ((c.rest p).length - n) (stop - (c.pWritePos + n)) =
      min (c.rest p).length (stop - c.pWritePos) := by omega
  refine ⟨?_, fun hle => ?_, fun hlt => h.next (by omega)⟩
  · have := hadv.trans h.advances
    rwa [hpw, hrest, List.range'_append_1, hmin] at this
  · obtain ⟨hdone, hend⟩ := h.done (by omega)
    have hsum : c'.pWritePos + (c'.rest p).length = c.pWritePos + (c.rest p).length := by omega
    exact ⟨hdone, by rw [hend, hsum]⟩

theorem Open.pass0 (h : Open p c) (hrest : c.rest p ≠ []) (hstop : c.pWritePos ≤ stop) :
    Passes p c stop a (c.pass0 p stop a) := by
  have hlen : (c.rest p).length =
      p.data0.length - c.nCopyLen0 + (p.data1.length - c.nCopyLen1) := by
    rw [rest, List.length_append, List.length_drop, List.length_drop]
  have hpos := List.length_pos_of_ne_nil hrest
  unfold Copy.pass0
  dsimp only
  by_cases hmore : c.nCopyLen0 < p.data0.length
  · rw [if_pos hmore]
    have hfirst : c.nCopyLen1 = 0 := by
      have := h.first
      omega
    by_cases hle : p.data0.length - c.nCopyLen0 ≤ stop - c.pWritePos
    · rw [if_pos hle]
      obtain ⟨hadv, hopen⟩ := h.copy0 hfirst (n := p.data0.length - c.nCopyLen0) (by omega)
      have hpw : (c.copy0 p (p.data0.length - c.nCopyLen0)).pWritePos =
          c.pWritePos + (p.data0.length - c.nCopyLen0) := rfl
      rw [hpw]
      by_cases hend : c.pWritePos + (p.data0.length - c.nCopyLen0) = stop
      · rw [if_pos hend]
        have hleft : p.data0.length - c.nCopyLen0 = stop - c.pWritePos := by omega
        by_cases hnone : p.data1.length = 0
        · rw [if_pos hnone]
          have hr : (c.rest p).length = p.data0.length - c.nCopyLen0 := by omega
          refine ⟨?_, fun _ => ⟨rfl, ?_⟩, fun hlt => by omega⟩
          · rw [hr, Nat.min_eq_left hle]
            exact hadv.moved rfl rfl rfl rfl rfl
          · rw [hr, if_pos hend]
        · rw [if_neg hnone]
          refine ⟨?_, fun hle' => by omega, fun _ => ⟨rfl, rfl, hopen.toBuffer a⟩⟩
          rw [Nat.min_eq_right (by omega), ← hleft]
          exact hadv.moved rfl rfl rfl rfl rfl
      · rw [if_neg hend]
        by_cases hnone : p.data1.length = 0
        · rw [if_pos hnone]
          have hr : (c.rest p).length = p.data0.length - c.nCopyLen0 := by omega
          refine ⟨?_, fun _ => ⟨rfl, ?_⟩, fun hlt => by omega⟩
          · rw [hr, Nat.min_eq_left hle]
            exact hadv
          · rw [hr, if_neg hend]
            exact hpw
        · rw [if_neg hnone]
          have hall : (c.copy0 p (p.data0.length - c.nCopyLen0)).nCopyLen0 = p.data0.length :=
            Nat.add_sub_cancel' h.len0
          have hsecond : (c.copy0 p (p.data0.length - c.nCopyLen0)).nCopyLen1 < p.data1.length := by
            change c.nCopyLen1 < _
            omega
          exact (hopen.pass1 hall hsecond (by omega)).after hadv hpw hle
    · rw [if_neg hle]
      obtain ⟨hadv, hopen⟩ := h.copy0 hfirst (n := stop - c.pWritePos) (by omega)
      refine ⟨?_, fun hle' => by omega, fun _ => ⟨rfl, rfl, hopen.toBuffer a⟩⟩
      rw [Nat.min_eq_right (by omega)]
      exact hadv.moved rfl rfl rfl rfl rfl
  · rw [if_neg hmore]
    have hlen0 := h.len0
    exact h.pass1 (by omega) (by omega) hstop

theorem Ready.begun (h : Ready p c) (hnum : c.nDataBufNum < 2) : Open p c.begun := by
  refine ⟨⟨h.len0, h.len1, h.first⟩, hnum, ?_, fun k hk => h.empty k (Nat.le_of_lt hk)⟩
  change update c.pArrayDBPacketPtr c.nDataBufNum c.pWritePos c.nDataBufNum +
    c.nArrayDBPacketSize c.nDataBufNum = c.pWritePos
  rw [update_self, h.empty _ (Nat.le_refl _), Nat.add_zero]

theorem Ready.cells_begun (h : Ready p c) (hnum : c.nDataBufNum < 2) :
    c.begun.cells = c.cells := by
  have hempty := h.empty c.nDataBufNum (Nat.le_refl _)
  change List.range' (update c.pArrayDBPacketPtr c.nDataBufNum c.pWritePos 0)
      (c.nArrayDBPacketSize 0) ++
    List.range' (update c.pArrayDBPacketPtr c.nDataBufNum c.pWritePos 1)
      (c.nArrayDBPacketSize 1) = _
  unfold cells
  obtain hn | hn : c.nDataBufNum = 0 ∨ c.nDataBufNum = 1 := by omega
  · rw [hn] at hempty ⊢
    rw [update_of_ne (by decide : (1 : Nat) ≠ 0), hempty]
    rfl
  · rw [hn] at hempty ⊢
    rw [update_of_ne (by decide : (0 : Nat) ≠ 1), hempty]
    rfl

theorem Ready.pass (h : Ready p c) (hnum : c.nDataBufNum < 2) (hrest : c.rest p ≠ [])
    (hstop : c.pWritePos ≤ stop) : Passes p c stop a (c.pass p stop a) := by
  have hp : Passes p c.begun stop a (c.begun.pass0 p stop a) := (h.begun hnum).pass0 hrest hstop
  have hadv := hp.advances
  unfold Copy.pass
  rw [if_neg (by omega)]
  exact ⟨⟨hadv.fits, hadv.mem, hadv.rest, hadv.cells.trans (by rw [h.cells_begun hnum]; rfl)⟩,
    hp.done, hp.next⟩

end

/-! ## The loops -/

/-- The addresses from `pw` on through the buffers. -/
def path (pw : Nat) : List DynamicBuffer → List Nat
  | [] => []
  | b :: bs => List.range' pw (b.stop - pw) ++ bs.flatMap DynamicBuffer.cells

theorem path_start (b : DynamicBuffer) (bs : List DynamicBuffer) :
    path b.mpBuffer (b :: bs) = (b :: bs).flatMap DynamicBuffer.cells := by
  have hlen : b.stop - b.mpBuffer = b.mSize := Nat.add_sub_cancel_left ..
  rw [path, hlen, List.flatMap_cons, DynamicBuffer.cells]

/-- What follows a part of the loops unless the copy is over. -/
def andThen (r : Copy β × Flow) (k : Copy β → Copy β × Flow) : Copy β × Flow :=
  match r with
  | (c, .next) => k c
  | r => r

/-- What the loops do: they go along the path, and stop early only when all is
copied or the packet is refused. -/
structure Follows (p : PushedPacket β) (c : Copy β) (path : List Nat) (after : Nat)
    (r : Copy β × Flow) : Prop where
  advances : ∃ as, as <+: path ∧ Advances p c r.1 as
  done : r.2 = .done → (c.rest p).length ≤ path.length ∧
    Advances p c r.1 (path.take (c.rest p).length) ∧
    r.1.pWritePos = (path.drop (c.rest p).length).headD after
  next : r.2 = .next → Advances p c r.1 path ∧ Ready p r.1 ∧ r.1.rest p ≠ [] ∧
    r.1.pWritePos = after
  exist : r.2 ≠ .unexist

section

variable {p : PushedPacket β} {c c' : Copy β} {as bs : List Nat} {after : Nat}
  {r : Copy β × Flow} {bufs vs B : List DynamicBuffer} {v n b : DynamicBuffer}

theorem Follows.refused (p : PushedPacket β) (c : Copy β) (as : List Nat) (after : Nat) :
    Follows p c as after (c, .notSupport) where
  advances := ⟨[], List.nil_prefix, .refl p c⟩
  done h := nomatch h
  next h := nomatch h
  exist := nofun

/-- The rest of the loops after some addresses. -/
theorem Advances.follows (h : Advances p c c' as) (hr : Follows p c' bs after r) :
    Follows p c (as ++ bs) after r := by
  have hfits := h.fits
  have hrest : (c'.rest p).length = (c.rest p).length - as.length := by
    rw [h.rest, List.length_drop]
  refine ⟨?_, fun hdone => ?_, fun hnext => ?_, hr.exist⟩
  · obtain ⟨bs', hpre, hadv⟩ := hr.advances
    exact ⟨as ++ bs', (List.prefix_append_right_inj as).mpr hpre, h.trans hadv⟩
  · obtain ⟨hle, hadv, hpw⟩ := hr.done hdone
    have hlen : (c.rest p).length = as.length + (c'.rest p).length := by omega
    refine ⟨?_, ?_, ?_⟩
    · rw [List.length_append]
      omega
    · rw [hlen, List.take_length_add_append]
      exact h.trans hadv
    · rw [hlen, List.drop_length_add_append]
      exact hpw
  · obtain ⟨hadv, hready, hmore, hpw⟩ := hr.next hnext
    exact ⟨h.trans hadv, hready, hmore, hpw⟩

theorem Passes.follows {stop a : Nat} (h : Passes p c stop a r) (hstop : c.pWritePos ≤ stop) :
    Follows p c (List.range' c.pWritePos (stop - c.pWritePos)) a r := by
  have hadv := h.advances
  have hlen : (List.range' c.pWritePos (stop - c.pWritePos)).length = stop - c.pWritePos :=
    List.length_range'
  by_cases hle : (c.rest p).length ≤ stop - c.pWritePos
  · obtain ⟨hdone, hpw⟩ := h.done hle
    rw [Nat.min_eq_left hle] at hadv
    have hsplit : List.range' c.pWritePos (stop - c.pWritePos) =
        List.range' c.pWritePos (c.rest p).length ++
          List.range' (c.pWritePos + (c.rest p).length)
            (stop - c.pWritePos - (c.rest p).length) := by
      rw [List.range'_append_1, Nat.add_sub_cancel' hle]
    have hlen' : (List.range' c.pWritePos (c.rest p).length).length = (c.rest p).length :=
      List.length_range'
    refine ⟨⟨_, ?_, hadv⟩, fun _ => ⟨by rwa [hlen], ?_, ?_⟩, fun hnext => ?_, ?_⟩
    · rw [hsplit]
      exact List.prefix_append ..
    · rw [hsplit, List.take_left' hlen']
      exact hadv
    · rw [hsplit, List.drop_left' hlen', hpw]
      by_cases hend : c.pWritePos + (c.rest p).length = stop
      · have hzero : stop - c.pWritePos - (c.rest p).length = 0 := by omega
        rw [if_pos hend, hzero]
        rfl
      · obtain ⟨k, hk⟩ : ∃ k, stop - c.pWritePos - (c.rest p).length = k + 1 :=
          ⟨stop - c.pWritePos - (c.rest p).length - 1, by omega⟩
        rw [if_neg hend, hk, List.range'_succ]
        rfl
    · rw [hdone] at hnext
      exact nomatch hnext
    · rw [hdone]
      exact nofun
  · obtain ⟨hnext, hpw, hready⟩ := h.next (by omega)
    rw [Nat.min_eq_right (by omega)] at hadv
    have hleft : r.1.rest p ≠ [] := by
      rw [hadv.rest, hlen, Ne, List.drop_eq_nil_iff]
      exact hle
    refine ⟨⟨_, List.prefix_rfl, hadv⟩, fun hdone => ?_, fun _ => ⟨hadv, hready, hleft, hpw⟩, ?_⟩
    · rw [hnext] at hdone
      exact nomatch hdone
    · rw [hnext]
      exact nofun

theorem Follows.andThen {k : Copy β → Copy β × Flow} {a : Nat} (h : Follows p c as a r)
    (hhead : bs.headD after = a)
    (hk : ∀ c', Ready p c' → c'.rest p ≠ [] → c'.pWritePos = a →
      Follows p c' bs after (k c')) :
    Follows p c (as ++ bs) after (andThen r k) := by
  obtain ⟨c', flow⟩ := r
  by_cases hflow : flow = .next
  · subst hflow
    obtain ⟨hadv, hready, hleft, hpw⟩ := h.next rfl
    exact hadv.follows (hk c' hready hleft hpw)
  · have hr : Copy.andThen (c', flow) k = (c', flow) := by
      cases flow <;> first | rfl | exact absurd rfl hflow
    rw [hr]
    refine ⟨?_, fun hdone => ?_, fun hnext => absurd hnext hflow, h.exist⟩
    · obtain ⟨as', hpre, hadv⟩ := h.advances
      exact ⟨as', hpre.trans (List.prefix_append ..), hadv⟩
    · obtain ⟨hle, hadv, hpw⟩ := h.done hdone
      refine ⟨?_, ?_, ?_⟩
      · rw [List.length_append]
        omega
      · rwa [List.take_append_of_le_length hle]
      · rw [List.drop_append_of_le_length hle, hpw, ← hhead]
        cases as.drop (c.rest p).length <;> rfl

/-- A pass, and what follows it unless it was the last one. -/
theorem Ready.pass_follows (h : Ready p c) (hrest : c.rest p ≠ []) (hstop : c.pWritePos ≤ v.stop)
    (a : Nat) :
    Follows p c (List.range' c.pWritePos (v.stop - c.pWritePos)) a (c.pass p v.stop a) := by
  by_cases hnum : 2 ≤ c.nDataBufNum
  · unfold Copy.pass
    rw [if_pos hnum]
    exact .refused ..
  · exact (h.pass (by omega) hrest hstop).follows hstop

theorem cells_headD (hpos : 0 < v.mSize) :
    ((v :: vs).flatMap DynamicBuffer.cells).headD after = v.mpBuffer := by
  obtain ⟨k, hk⟩ : ∃ k, v.mSize = k + 1 := ⟨v.mSize - 1, by omega⟩
  rw [List.flatMap_cons, DynamicBuffer.cells, hk, List.range'_succ]
  rfl

theorem Ready.loop (h : Ready p c) (hrest : c.rest p ≠ []) (hstop : c.pWritePos ≤ v.stop)
    (hchain : (v :: vs ++ [n]).IsChain fun x y => nextEntry bufs x = y)
    (hsize : ∀ x ∈ vs, 0 < x.mSize) :
    Follows p c (path c.pWritePos (v :: vs)) n.mpBuffer (c.loop p bufs (v :: vs)) := by
  induction vs generalizing v c with
  | nil =>
    obtain ⟨hnext, -⟩ := List.isChain_cons_cons.mp hchain
    change Follows p c (_ ++ []) _
      (andThen (c.pass p v.stop (nextEntry bufs v).mpBuffer) (Copy.loop p bufs []))
    rw [hnext]
    refine (h.pass_follows hrest hstop n.mpBuffer).andThen rfl fun c' hready hleft hpw => ?_
    exact ⟨⟨[], List.nil_prefix, .refl p c'⟩, nofun, fun _ => ⟨.refl p c', hready, hleft, hpw⟩,
      nofun⟩
  | cons v' vs ih =>
    obtain ⟨hnext, hchain'⟩ := List.isChain_cons_cons.mp hchain
    have hpos : 0 < v'.mSize := hsize v' (List.mem_cons_self ..)
    change Follows p c (_ ++ (v' :: vs).flatMap DynamicBuffer.cells) _
      (andThen (c.pass p v.stop (nextEntry bufs v).mpBuffer) (Copy.loop p bufs (v' :: vs)))
    rw [hnext]
    refine (h.pass_follows hrest hstop v'.mpBuffer).andThen (cells_headD hpos)
      fun c' hready hleft hpw => ?_
    have hstop' : c'.pWritePos ≤ v'.stop := hpw ▸ Nat.le_add_right ..
    have hrec := ih hready hleft hstop' hchain' fun x hx => hsize x (List.mem_cons_of_mem _ hx)
    rwa [hpw, path_start] at hrec

/-! ## The order of the buffers -/

theorem nextEntry_append {X Y : List DynamicBuffer} (hv : v ∉ X) :
    nextEntry (X ++ v :: Y) v = (Y ++ (X ++ v :: Y)).headD v := by
  have hdrop : (X ++ v :: Y).dropWhile (· ≠ v) = v :: Y := by
    rw [List.dropWhile_append_of_pos fun x hx => by
      have hne : x ≠ v := fun h => hv (h ▸ hx)
      simpa using hne, List.dropWhile_cons_of_neg (by simp)]
  rw [nextEntry, hdrop, List.tail_cons]

/-- Around the list, each buffer is followed by its next entry. -/
theorem isChain_nextEntry {X Y : List DynamicBuffer} (hbufs : bufs = X ++ Y)
    (hnodup : bufs.Nodup) :
    (Y ++ [bufs.headD b]).IsChain fun x y => nextEntry bufs x = y := by
  induction Y generalizing X with
  | nil => exact .singleton _
  | cons v Y ih =>
    have hrec := ih (X := X ++ [v]) (by rw [hbufs, List.append_assoc]; rfl)
    have hv : v ∉ X := by
      rw [hbufs] at hnodup
      exact fun hx => (List.nodup_append.mp hnodup).2.2 v hx v (List.mem_cons_self ..) rfl
    have hnext : nextEntry bufs v = (Y ++ bufs).headD v := by
      rw [hbufs]
      exact nextEntry_append hv
    cases Y with
    | nil =>
      refine List.isChain_cons_cons.mpr ⟨?_, hrec⟩
      rw [hnext, hbufs]
      cases X <;> rfl
    | cons w Y => exact List.isChain_cons_cons.mpr ⟨hnext, hrec⟩

/-- Both loops go once around the ring, from the write position in `b` on. -/
theorem Ready.loops (h : Ready p c) (hrest : c.rest p ≠ []) (hbufs : bufs = B ++ b :: vs)
    (hnodup : bufs.Nodup) (hsize : ∀ x ∈ bufs, 0 < x.mSize) (hin : b.contains c.pWritePos = true)
    (hout : ∀ x ∈ B, x.contains c.pWritePos = false) :
    ∃ after, Follows p c
      (List.range' c.pWritePos (b.stop - c.pWritePos) ++
        (vs ++ B ++ [b]).flatMap DynamicBuffer.cells) after (c.loops p bufs) := by
  have hstop : c.pWritePos ≤ b.stop := by
    simp only [DynamicBuffer.contains, Bool.and_eq_true, decide_eq_true_eq] at hin
    exact Nat.le_of_lt hin.2
  have hb : b ∉ B := by
    rw [hbufs] at hnodup
    exact fun hx => (List.nodup_append.mp hnodup).2.2 b hx b (List.mem_cons_self ..) rfl
  have hdrop : (bufs.dropWhile fun x => !x.contains c.pWritePos) = b :: vs := by
    rw [hbufs, List.dropWhile_append_of_pos fun x hx => by simp [hout x hx],
      List.dropWhile_cons_of_neg (by simp [hin])]
  have htake : bufs.takeWhile (· ≠ b) = B := by
    rw [hbufs, List.takeWhile_append_of_pos fun x hx => by
      have hne : x ≠ b := fun h => hb (h ▸ hx)
      simpa using hne, List.takeWhile_cons_of_neg (by simp), List.append_nil]
  have hchain₁ : (b :: vs ++ [bufs.headD b]).IsChain fun x y => nextEntry bufs x = y :=
    isChain_nextEntry hbufs hnodup
  have hmem : ∀ x, x ∈ B ∨ x = b ∨ x ∈ vs → x ∈ bufs := by
    intro x hx
    rw [hbufs]
    simpa using hx
  have hloop := h.loop hrest hstop hchain₁ fun x hx => hsize x (hmem x (.inr (.inr hx)))
  obtain ⟨w, ws, hw⟩ : ∃ w ws, B ++ [b] = w :: ws := by
    cases B
    · exact ⟨b, [], rfl⟩
    · exact ⟨_, _, rfl⟩
  have hsplit : bufs = w :: ws ++ vs := by
    rw [hbufs, ← hw, List.append_assoc]
    rfl
  have hhead : bufs.headD b = w := by
    rw [hsplit]
    rfl
  have hpos : ∀ x ∈ w :: ws, 0 < x.mSize := fun x hx =>
    hsize x (hsplit ▸ List.mem_append_left vs hx)
  have hchain₂ : (w :: ws ++ [(vs ++ [w]).headD b]).IsChain fun x y => nextEntry bufs x = y := by
    have hchain := isChain_nextEntry (b := b) (List.nil_append bufs).symm hnodup
    have hring : bufs ++ [w] = w :: ws ++ [(vs ++ [w]).headD b] ++ (vs ++ [w]).tail := by
      rw [hsplit]
      cases vs <;> simp
    rw [hhead, hring] at hchain
    exact hchain.prefix (List.prefix_append ..)
  refine ⟨((vs ++ [w]).headD b).mpBuffer, ?_⟩
  have hpath : List.range' c.pWritePos (b.stop - c.pWritePos) ++
      (vs ++ B ++ [b]).flatMap DynamicBuffer.cells =
      path c.pWritePos (b :: vs) ++ (w :: ws).flatMap DynamicBuffer.cells := by
    rw [path, List.append_assoc vs, hw, List.flatMap_append, List.append_assoc]
  have hloops : c.loops p bufs = andThen (c.loop p bufs (b :: vs)) fun c =>
      if 2 ≤ c.nDataBufNum then (c, .notSupport) else c.loop p bufs (w :: ws) := by
    rw [← hw, ← htake, Copy.loops, hdrop]
    rfl
  rw [hpath, hloops]
  rw [hhead] at hchain₁ hloop
  refine hloop.andThen (cells_headD (hpos w (List.mem_cons_self ..))) fun c' hready hleft hpw => ?_
  split
  · exact .refused ..
  · have hstop' : c'.pWritePos ≤ w.stop := hpw ▸ Nat.le_add_right ..
    have hrec := hready.loop hleft hstop' hchain₂ fun x hx => hpos x (List.mem_cons_of_mem _ hx)
    rwa [hpw, path_start] at hrec

end

end Copy

end Melis.RecRender
