import Melis.RecRender.Content

/-!
# The level of the packet cache

The thread that keeps the cache short frees packets from its front: while the time
from the first to the last video packet is too long, and then on to a key frame.
While it runs the readers give back what they hold (`Readers`). It lets go of the
lock between its steps; each one uses up a rank (`level`), so it returns.
-/

namespace Melis.RecRender

open Lib RsPacketCacheManager

variable {β : Type}

namespace RsPacketCacheManager

/-! ## The duration -/

/-- The first video packet, if there is one, is a key frame. -/
def KeyFirst (m : RsPacketCacheManager β) : Prop :=
  ∀ e ∈ m.live.find? (·.isVideo), e.isKeyframe = true

/-- A reader holds the first packet: the cache has one reference of its own. -/
def HeldFirst (m : RsPacketCacheManager β) : Prop :=
  ∃ e ∈ m.mUsingPacketList.head?, 1 < e.mRefCnt

/-- The video packets have times, and are in their order. -/
structure InOrder (m : RsPacketCacheManager β) : Prop where
  nonneg : ∀ e ∈ m.live.filter (·.isVideo), 0 ≤ e.mPts
  sorted : (m.live.filter (·.isVideo)).Pairwise (·.mPts ≤ ·.mPts)

/-- The time from the first to the last of some packets. -/
def span (vs : List (RecSinkPacket β)) : Int :=
  match vs.head?, vs.getLast? with
  | some e, some e' => (e'.mPts - e.mPts).tdiv 1000
  | _, _ => 0

section

variable {m m' : RsPacketCacheManager β} {e e' : RecSinkPacket β}
  {es vs ws : List (RecSinkPacket β)}

theorem ptsRange_eq (h : ∀ e ∈ es.filter (·.isVideo), 0 ≤ e.mPts) :
    ptsRange es = match (es.filter (·.isVideo)).head?, (es.filter (·.isVideo)).getLast? with
      | some e, some e' => some (e.mPts, e'.mPts)
      | _, _ => none := by
  unfold ptsRange
  rw [← List.head?_filter, ← List.getLast?_filter]
  generalize es.filter (·.isVideo) = vs at h
  cases vs with
  | nil => rfl
  | cons e vs =>
    obtain ⟨e', hlast⟩ : ∃ e', (e :: vs).getLast? = some e' :=
      ⟨_, List.getLast?_cons⟩
    have hfirst : 0 ≤ e.mPts := h e (List.mem_cons_self ..)
    have hmem : 0 ≤ e'.mPts := h e' (List.mem_of_getLast? hlast)
    simp only [hlast, List.head?_cons, hfirst, hmem, and_self, ↓reduceIte]

/-- Where the packets have times, the two lists are measured as one. -/
theorem InOrder.getDuration (h : m.InOrder) :
    m.getDuration = span (m.live.filter (·.isVideo)) := by
  have hnonneg := h.nonneg
  unfold live at hnonneg ⊢
  rw [List.filter_append] at hnonneg ⊢
  unfold RsPacketCacheManager.getDuration
  rw [ptsRange_eq fun e he => hnonneg e (List.mem_append_left _ he),
    ptsRange_eq fun e he => hnonneg e (List.mem_append_right _ he)]
  generalize m.mUsingPacketList.filter (·.isVideo) = us
  generalize m.mReadyPacketList.filter (·.isVideo) = rs
  unfold span
  cases us with
  | nil =>
    cases rs with
    | nil => rfl
    | cons e rs =>
      obtain ⟨e', hlast⟩ : ∃ e', (e :: rs).getLast? = some e' :=
        ⟨_, List.getLast?_cons⟩
      simp only [List.nil_append, List.head?_nil, List.head?_cons, hlast]
  | cons e us =>
    obtain ⟨e', hlast⟩ : ∃ e', (e :: us).getLast? = some e' :=
      ⟨_, List.getLast?_cons⟩
    cases rs with
    | nil => simp only [List.append_nil, List.head?_nil, List.head?_cons, hlast]
    | cons x rs =>
      obtain ⟨x', hlast'⟩ : ∃ x', (x :: rs).getLast? = some x' :=
        ⟨_, List.getLast?_cons⟩
      have happ : (e :: us ++ x :: rs).getLast? = some x' := by
        rw [List.getLast?_append, hlast']
        rfl
      simp only [List.cons_append, List.head?_cons, hlast, hlast'] at happ ⊢
      simp only [happ]

theorem span_nonneg (h : vs.Pairwise (·.mPts ≤ ·.mPts)) : 0 ≤ span vs := by
  cases vs with
  | nil => exact Int.le_refl 0
  | cons e vs =>
    obtain ⟨e', hlast⟩ : ∃ e', (e :: vs).getLast? = some e' :=
      ⟨_, List.getLast?_cons⟩
    have hle : e.mPts ≤ e'.mPts := by
      rcases List.mem_cons.mp (List.mem_of_getLast? hlast) with rfl | hmem
      · exact Int.le_refl _
      · exact (List.pairwise_cons.mp h).1 e' hmem
    simp only [span, List.head?_cons, hlast]
    exact Int.tdiv_nonneg (by omega) (by decide)

/-- Without the first packets the time is no longer. -/
theorem span_le (h : (ws ++ vs).Pairwise (·.mPts ≤ ·.mPts)) : span vs ≤ span (ws ++ vs) := by
  cases ws with
  | nil => exact Int.le_refl _
  | cons e ws =>
    cases vs with
    | nil => exact span_nonneg h
    | cons x vs =>
      obtain ⟨x', hlast⟩ : ∃ x', (x :: vs).getLast? = some x' :=
        ⟨_, List.getLast?_cons⟩
      have happ : (e :: ws ++ x :: vs).getLast? = some x' := by
        rw [List.getLast?_append, hlast]
        rfl
      have hle : e.mPts ≤ x.mPts := by
        rw [List.cons_append, List.pairwise_cons] at h
        apply h.1
        simp
      have hle' : x.mPts ≤ x'.mPts := by
        have hsorted := (List.pairwise_append.mp h).2.1
        rcases List.mem_cons.mp (List.mem_of_getLast? hlast) with rfl | hmem
        · exact Int.le_refl _
        · exact (List.pairwise_cons.mp hsorted).1 x' hmem
      simp only [span, List.cons_append, List.head?_cons, hlast] at happ ⊢
      simp only [happ]
      rw [Int.tdiv_eq_ediv_of_nonneg (by omega), Int.tdiv_eq_ediv_of_nonneg (by omega)]
      omega

end

/-! ## What a release leaves -/

/-- The packets that readers hold stay as they are. -/
structure Keeps (m m' : RsPacketCacheManager β) : Prop where
  held : ∀ e ∈ m.mUsingPacketList, 1 < e.mRefCnt → e ∈ m'.mUsingPacketList
  le : m'.live.length ≤ m.live.length

/-- Packets went from the front that no reader held, and the rest is as it was. -/
structure Shed (m m' : RsPacketCacheManager β) : Prop where
  mUsingPacketList : ∃ A, m.mUsingPacketList = A ++ m'.mUsingPacketList ∧ ∀ e ∈ A, e.mRefCnt = 1
  mReadyPacketList : ∃ B, m.mReadyPacketList = B ++ m'.mReadyPacketList ∧
    (B = [] ∨ m'.mUsingPacketList = [])
  mCacheTime : m'.mCacheTime = m.mCacheTime

section

variable {m m' m'' : RsPacketCacheManager β} {e : RecSinkPacket β} {es : List (RecSinkPacket β)}

theorem Keeps.refl (m : RsPacketCacheManager β) : Keeps m m := ⟨fun _ he _ => he, Nat.le_refl _⟩

theorem Keeps.trans (h : Keeps m m') (h' : Keeps m' m'') : Keeps m m'' :=
  ⟨fun e he hheld => h'.held e (h.held e he hheld) hheld, Nat.le_trans h'.le h.le⟩

theorem Shed.refl (m : RsPacketCacheManager β) : Shed m m :=
  ⟨⟨[], rfl, nofun⟩, ⟨[], rfl, .inl rfl⟩, rfl⟩

/-- The packets that are left are the last ones. -/
theorem Shed.live (h : Shed m m') : ∃ A, m.live = A ++ m'.live := by
  obtain ⟨A, husing, -⟩ := h.mUsingPacketList
  obtain ⟨B, hready, hnil⟩ := h.mReadyPacketList
  refine ⟨A ++ B, ?_⟩
  unfold RsPacketCacheManager.live
  rcases hnil with rfl | hnil
  · simp only [husing, hready, List.append_assoc, List.nil_append]
  · simp only [husing, hready, hnil, List.append_assoc, List.nil_append]

theorem Shed.keeps (h : Shed m m') : Keeps m m' := by
  constructor
  · obtain ⟨A, husing, hone⟩ := h.mUsingPacketList
    intro e he hheld
    rw [husing, List.mem_append] at he
    apply he.resolve_left
    intro hA
    have hrefs := hone e hA
    omega
  · obtain ⟨A, hlive⟩ := h.live
    simp [hlive]

theorem Shed.trans (h : Shed m m') (h' : Shed m' m'') : Shed m m'' := by
  obtain ⟨A, husing, hA⟩ := h.mUsingPacketList
  obtain ⟨A', husing', hA'⟩ := h'.mUsingPacketList
  obtain ⟨B, hready, hB⟩ := h.mReadyPacketList
  obtain ⟨B', hready', hB'⟩ := h'.mReadyPacketList
  refine ⟨⟨A ++ A', ?_, ?_⟩, ⟨B ++ B', ?_, ?_⟩, h'.mCacheTime.trans h.mCacheTime⟩
  · rw [husing, husing', List.append_assoc]
  · intro e he
    exact (List.mem_append.mp he).elim (hA e) (hA' e)
  · rw [hready, hready', List.append_assoc]
  · rcases hB with rfl | hnil
    · exact hB'
    · right
      rw [hnil] at husing'
      exact (List.append_eq_nil_iff.mp husing'.symm).2

/-- The duration gets no longer where the packets are in order. -/
theorem Shed.getDuration_le (h : Shed m m') (horder : m.InOrder) :
    m'.getDuration ≤ m.getDuration := by
  obtain ⟨A, hlive⟩ := h.live
  have hfilter : m.live.filter (·.isVideo) = A.filter (·.isVideo) ++ m'.live.filter (·.isVideo) := by
    rw [hlive, List.filter_append]
  have hsorted := horder.sorted
  rw [hfilter] at hsorted
  have horder' : m'.InOrder := by
    refine ⟨fun e he => horder.nonneg e ?_, (List.pairwise_append.mp hsorted).2.1⟩
    rw [hfilter]
    exact List.mem_append_right _ he
  rw [horder.getDuration, horder'.getDuration, hfilter]
  exact span_le hsorted

/-- A packet that is not held keeps those that are when its count goes. -/
theorem keeps_setRefCnt (hnodup : (m.mUsingPacketList.map (·.node)).Nodup)
    (he : e ∈ m.mUsingPacketList) (hone : e.mRefCnt ≤ 1) (n : Int) : Keeps m (m.setRefCnt e n) := by
  constructor
  · intro x hx hheld
    have hne : x.node ≠ e.node := by
      intro hnode
      obtain rfl := List.inj_on_of_nodup_map hnodup hx he hnode
      omega
    apply List.mem_map.mpr
    exact ⟨x, hx, if_neg hne⟩
  · simp [RsPacketCacheManager.live, setRefCnt]

theorem Keeps.waiting (h : Keeps m m') (flag : Bool) (nId : Int) : Keeps m (m'.waiting flag nId) :=
  ⟨h.held, h.le⟩

/-- The release of the first packet, which no reader holds. -/
theorem releasePacket_first (husing : m.mUsingPacketList = e :: es) (hone : e.mRefCnt = 1) :
    (∃ m', m.releasePacket e.mId = (m', .success) ∧ m'.mUsingPacketList = es ∧
      m'.mReadyPacketList = m.mReadyPacketList ∧ m'.mCacheTime = m.mCacheTime) ∨
    ∃ flag id, m.releasePacket e.mId = ((m.setRefCnt e 0).waiting flag id, .unexist) := by
  have hfind : m.mUsingPacketList.find? (·.mId == e.mId) = some e := by
    rw [husing]
    simp
  have herase : m.mUsingPacketList.eraseP (·.node == e.node) = es := by
    rw [husing]
    simp
  unfold releasePacket
  rw [hfind]
  dsimp only
  rw [if_pos hone]
  cases hdata : m.releaseData { e with mRefCnt := 0 } with
  | none =>
    right
    obtain ⟨flag, id, heq⟩ := signalRelease_eq (m := m.setRefCnt e 0) e.mId 0
    exact ⟨flag, id, congrArg (·, ErrorType.unexist) heq⟩
  | some m₀ =>
    left
    obtain ⟨pos, rfl⟩ := releaseData_eq hdata
    dsimp only
    rw [herase]
    obtain ⟨flag, id, heq⟩ := signalRelease_eq
      (m := m.freedUsing { e with mRefCnt := 0 } pos es) e.mId 0
    refine ⟨_, rfl, ?_⟩
    rw [show ({ m.freed { e with mRefCnt := 0 } pos with mUsingPacketList := es } :
      RsPacketCacheManager β) = m.freedUsing { e with mRefCnt := 0 } pos es from rfl, heq]
    exact ⟨rfl, rfl, rfl⟩

theorem releaseReadyPacket_first (hready : m.mReadyPacketList = e :: es) :
    (∃ m', m.releaseReadyPacket e.mId = (m', .success) ∧ m'.mReadyPacketList = es ∧
      m'.mUsingPacketList = m.mUsingPacketList ∧ m'.mCacheTime = m.mCacheTime) ∨
    m.releaseReadyPacket e.mId = (m, .unexist) := by
  have hfind : m.mReadyPacketList.find? (·.mId == e.mId) = some e := by
    rw [hready]
    simp
  have herase : m.mReadyPacketList.eraseP (·.node == e.node) = es := by
    rw [hready]
    simp
  unfold releaseReadyPacket
  rw [hfind]
  dsimp only
  cases hdata : m.releaseData e with
  | none => exact .inr rfl
  | some m₀ =>
    left
    obtain ⟨pos, rfl⟩ := releaseData_eq hdata
    rw [herase]
    exact ⟨_, rfl, rfl, rfl, rfl⟩

/-- The first packet, if no reader holds it, is freed or the release fails. -/
theorem shed_first (hnodup : (m.mUsingPacketList.map (·.node)).Nodup)
    (husing : m.mUsingPacketList = e :: es) (hone : e.mRefCnt = 1) :
    ((m.releasePacket e.mId).2 = .success ∧ Shed m (m.releasePacket e.mId).1 ∧
      (m.releasePacket e.mId).1.mUsingPacketList = es ∧
      (m.releasePacket e.mId).1.mReadyPacketList = m.mReadyPacketList) ∨
    ((m.releasePacket e.mId).2 = .unexist ∧ Keeps m (m.releasePacket e.mId).1) := by
  rcases releasePacket_first husing hone with ⟨m', hr, hes, hready, htime⟩ | ⟨flag, id, hr⟩
  · left
    rw [hr]
    refine ⟨rfl, ⟨⟨[e], ?_, ?_⟩, ⟨[], hready.symm, .inl rfl⟩, htime⟩, hes, hready⟩
    · rw [hes]
      exact husing
    · simpa using hone
  · right
    rw [hr]
    have he : e ∈ m.mUsingPacketList := by simp [husing]
    exact ⟨rfl, (keeps_setRefCnt hnodup he (Int.le_of_eq hone) 0).waiting flag id⟩

theorem shed_firstReady (husing : m.mUsingPacketList = []) (hready : m.mReadyPacketList = e :: es) :
    ((m.releaseReadyPacket e.mId).2 = .success ∧ Shed m (m.releaseReadyPacket e.mId).1 ∧
      (m.releaseReadyPacket e.mId).1.mReadyPacketList = es ∧
      (m.releaseReadyPacket e.mId).1.mUsingPacketList = []) ∨
    m.releaseReadyPacket e.mId = (m, .unexist) := by
  rcases releaseReadyPacket_first hready with ⟨m', hr, hes, husing', htime⟩ | hr
  · left
    rw [hr]
    refine ⟨rfl, ⟨⟨[], husing'.symm, nofun⟩, ⟨[e], ?_, .inr (husing'.trans husing)⟩, htime⟩, hes,
      husing'.trans husing⟩
    rw [hes]
    exact hready
  · exact .inr hr

/-! ## On to a key frame -/

theorem releaseUsingFrames_spec (hnodup : (m.mUsingPacketList.map (·.node)).Nodup)
    (husing : m.mUsingPacketList = es) :
    Keeps m (releaseUsingFrames es m).1 ∧
      ((releaseUsingFrames es m).2.1 = .success → Shed m (releaseUsingFrames es m).1 ∧
        if (releaseUsingFrames es m).2.2 then
          KeyFirst (releaseUsingFrames es m).1 ∨ HeldFirst (releaseUsingFrames es m).1
        else (releaseUsingFrames es m).1.mUsingPacketList = []) ∧
      ((releaseUsingFrames es m).2.2 = false → (releaseUsingFrames es m).2.1 = .success) := by
  induction es generalizing m with
  | nil => exact ⟨.refl m, fun _ => ⟨.refl m, husing⟩, fun _ => rfl⟩
  | cons e es ih =>
    unfold releaseUsingFrames
    by_cases hkey : (e.isVideo && e.isKeyframe) = true
    · obtain ⟨hvideo, hflag⟩ := Bool.and_eq_true_iff.mp hkey
      rw [if_pos hkey]
      refine ⟨.refl m, fun _ => ⟨.refl m, .inl ?_⟩, by rintro ⟨⟩⟩
      unfold KeyFirst RsPacketCacheManager.live
      simp [husing, hvideo, hflag]
    · rw [if_neg hkey]
      by_cases hheld : 1 < e.mRefCnt
      · rw [if_pos hheld]
        refine ⟨.refl m, fun _ => ⟨.refl m, .inr ⟨e, ?_, hheld⟩⟩, by rintro ⟨⟩⟩
        simp [husing]
      · rw [if_neg hheld]
        by_cases hnone : e.mRefCnt < 1
        · rw [if_pos hnone]
          exact ⟨.refl m, by rintro ⟨⟩, by rintro ⟨⟩⟩
        · rw [if_neg hnone]
          rcases shed_first hnodup husing (by omega) with ⟨hok, hshed, hes, -⟩ | ⟨herr, hkeeps⟩
          · generalize m.releasePacket e.mId = r at hok hshed hes
            obtain ⟨m', err⟩ := r
            obtain rfl : err = .success := hok
            have hnodup' : (m'.mUsingPacketList.map (·.node)).Nodup := by
              rw [husing, List.map_cons] at hnodup
              rw [show m'.mUsingPacketList = es from hes]
              exact (List.nodup_cons.mp hnodup).2
            obtain ⟨hkeeps, hdone, hstop⟩ := ih hnodup' hes
            refine ⟨hshed.keeps.trans hkeeps, fun hsuccess => ?_, hstop⟩
            obtain ⟨hshed', hends⟩ := hdone hsuccess
            exact ⟨hshed.trans hshed', hends⟩
          · generalize m.releasePacket e.mId = r at herr hkeeps
            obtain ⟨m', err⟩ := r
            obtain rfl : err = .unexist := herr
            exact ⟨hkeeps, by rintro ⟨⟩, by rintro ⟨⟩⟩

theorem releaseReadyFrames_spec (husing : m.mUsingPacketList = [])
    (hready : m.mReadyPacketList = es) :
    Keeps m (releaseReadyFrames es m).1 ∧
      ((releaseReadyFrames es m).2 = .success → Shed m (releaseReadyFrames es m).1 ∧
        KeyFirst (releaseReadyFrames es m).1) := by
  induction es generalizing m with
  | nil =>
    refine ⟨.refl m, fun _ => ⟨.refl m, ?_⟩⟩
    unfold KeyFirst RsPacketCacheManager.live releaseReadyFrames
    simp [husing, hready]
  | cons e es ih =>
    unfold releaseReadyFrames
    by_cases hkey : (e.isVideo && e.isKeyframe) = true
    · obtain ⟨hvideo, hflag⟩ := Bool.and_eq_true_iff.mp hkey
      rw [if_pos hkey]
      refine ⟨.refl m, fun _ => ⟨.refl m, ?_⟩⟩
      unfold KeyFirst RsPacketCacheManager.live
      simp [husing, hready, hvideo, hflag]
    · rw [if_neg hkey]
      rcases shed_firstReady husing hready with ⟨hok, hshed, hes, husing'⟩ | herr
      · generalize m.releaseReadyPacket e.mId = r at hok hshed hes husing'
        obtain ⟨m', err⟩ := r
        obtain rfl : err = .success := hok
        obtain ⟨hkeeps, hdone⟩ := ih husing' hes
        refine ⟨hshed.keeps.trans hkeeps, fun hsuccess => ?_⟩
        obtain ⟨hshed', hends⟩ := hdone hsuccess
        exact ⟨hshed.trans hshed', hends⟩
      · rw [herr]
        exact ⟨.refl m, by rintro ⟨⟩⟩

/-- The end of the control: a success leaves a key frame first, or stops at a packet that is held. -/
theorem releaseFrames_spec (hnodup : (m.mUsingPacketList.map (·.node)).Nodup) :
    Keeps m m.releaseFrames.1 ∧
      (m.releaseFrames.2 = .success → Shed m m.releaseFrames.1 ∧
        (KeyFirst m.releaseFrames.1 ∨ HeldFirst m.releaseFrames.1)) := by
  unfold releaseFrames
  by_cases hcut : m.firstFrameCut = true
  · rw [if_pos hcut]
    obtain ⟨hkeeps, hdone, hstop⟩ := releaseUsingFrames_spec hnodup rfl
    generalize releaseUsingFrames m.mUsingPacketList m = r at hkeeps hdone hstop
    obtain ⟨m', err, stop⟩ := r
    cases stop with
    | true => exact ⟨hkeeps, hdone⟩
    | false =>
      obtain ⟨hshed, hnil⟩ := hdone (hstop rfl)
      obtain ⟨hkeeps', hdone'⟩ := releaseReadyFrames_spec hnil rfl
      refine ⟨hkeeps.trans hkeeps', fun hsuccess => ?_⟩
      obtain ⟨hshed', hkey⟩ := hdone' hsuccess
      exact ⟨hshed.trans hshed', .inl hkey⟩
  · rw [if_neg hcut]
    refine ⟨.refl m, fun _ => ⟨.refl m, .inl ?_⟩⟩
    intro e he
    have hfind : m.live.find? (·.isVideo) = some e := he
    unfold firstFrameCut at hcut
    unfold RsPacketCacheManager.live at hfind
    rw [hfind] at hcut
    simpa using hcut

end

end RsPacketCacheManager

end Melis.RecRender
