import Melis.Libcore.MessagePlaces

/-!
# A delayed message is moved once, after the ticks of its delay

The list of the timer holds the events that no post has left half-way (`Shape`), and what
an event still counts down is what is left of its ticks (`Counts`). A tick goes through the
list of the timer one event after the other; `Ticking` says which of them it has counted
down.
-/

namespace Melis.Libcore

open Lib Function

variable {s s' : DeliverTimer} {m ev d t : Nat} {e : CdxEvent} {place : Nat → Place}

/-! ## What is claimed -/

/-- Moved at the tick that its delay says, and so at most one tick too early by the clock. -/
structure MovedOk (r : Moved) : Prop where
  tick : r.tick = r.listed + delayTicks r.delay
  movedAt : r.postedAt + (delayTicks r.delay - 1) * tickUs ≤ r.movedAt

/-- What holds in every state. -/
structure DeliveryOk (s : DeliverTimer) : Prop where
  once : ∃ place, Placed s place
  lists : ∀ ev, (∃ d, ev ∈ s.timeoutList d) ↔ ev ∈ s.timer ∨ ∃ t, s.pc t = some ev
  due : ∀ ev ∈ s.timer, ∃ e, s.events ev = some e ∧ s.ticks < e.listed + delayTicks e.delay
  moved : ∀ r ∈ s.moved, MovedOk r

/-- A delay is none or at least a tick, and its ticks fit in 32 bits; and no post to the
deliver that is cleared is half-way. -/
def Whole (s : DeliverTimer) : DeliverAct → Prop
  | .post _ _ timeout _ => timeout = 0 ∨ 0 < delayTicks timeout ∧ delayTicks timeout < 2 ^ 32
  | .clear d => ∀ ev ∈ s.timeoutList d, ev ∈ s.timer
  | _ => True

instance decidableWhole : ∀ i, Decidable (Whole s i)
  | .post _ _ timeout _ =>
    inferInstanceAs (Decidable (timeout = 0 ∨ 0 < delayTicks timeout ∧ delayTicks timeout < 2 ^ 32))
  | .clear d => inferInstanceAs (Decidable (∀ ev ∈ s.timeoutList d, ev ∈ s.timer))
  | .pass _ | .postTimer _ | .tick | .take _ | .deliver _ => .isTrue trivial

/-! ## The two lists -/

/-- The list of the timer holds the events that no post has left half-way, and each is on
the list of its deliver. -/
structure Shape (s : DeliverTimer) : Prop where
  timer_nodup : s.timer.Nodup
  list_nodup : ∀ d, (s.timeoutList d).Nodup
  timer : ∀ ev, ev ∈ s.timer ↔ s.events ev ≠ none ∧ ∀ t, s.pc t ≠ some ev
  list : ∀ d ev, ev ∈ s.timeoutList d ↔ (s.events ev).map CdxEvent.deliver = some d
  half : ∀ t ev, s.pc t = some ev → s.events ev ≠ none
  half_inj : ∀ t u ev, s.pc t = some ev → s.pc u = some ev → t = u

theorem Shape.frame (h : Shape s) (htimer : s'.timer = s.timer)
    (hlist : s'.timeoutList = s.timeoutList)
    (hevents : ∀ ev, (s'.events ev).map CdxEvent.deliver = (s.events ev).map CdxEvent.deliver)
    (hpc : s'.pc = s.pc) : Shape s' := by
  have hnone : ∀ ev, s'.events ev ≠ none ↔ s.events ev ≠ none := fun ev => by
    rw [ne_eq, ne_eq, ← Option.map_eq_none_iff (f := CdxEvent.deliver), hevents,
      Option.map_eq_none_iff]
  exact {
    timer_nodup := by rw [htimer]; exact h.timer_nodup
    list_nodup := fun d => by rw [hlist]; exact h.list_nodup d
    timer := fun ev => by rw [htimer, hnone, hpc]; exact h.timer ev
    list := fun d ev => by rw [hlist, hevents]; exact h.list d ev
    half := fun t ev hp => (hnone ev).2 (h.half t ev (by rw [← hpc]; exact hp))
    half_inj := fun t u ev ht hu =>
      h.half_inj t u ev (by rw [← hpc]; exact ht) (by rw [← hpc]; exact hu) }

/-- A new event is put on the list of its deliver. -/
theorem Shape.postEvent (h : Shape s) (hev : s.events ev = none) (hpc : s.pc t = none)
    {created : Nat} :
    Shape { s with
      created
      events := update s.events ev (some e)
      timeoutList := update s.timeoutList e.deliver (ev :: s.timeoutList e.deliver)
      pc := update s.pc t (some ev) } := by
  have hnopc : ∀ u, s.pc u ≠ some ev := fun u hu => h.half u ev hu hev
  have hnolist : ∀ d, ev ∉ s.timeoutList d := fun d hm => by
    have hd := (h.list d ev).1 hm
    rw [hev] at hd
    cases hd
  have hself : update s.pc t (some ev) t = some ev := update_self ..
  have hother : ∀ {u ev'}, ev' ≠ ev →
      (update s.pc t (some ev) u = some ev' ↔ s.pc u = some ev') := by
    intro u ev' hne
    by_cases hu : u = t
    · rw [hu, hself, hpc]
      exact iff_of_false (fun he => hne (Option.some.inj he).symm) nofun
    · rw [update_of_ne hu]
  exact {
    timer_nodup := h.timer_nodup
    list_nodup := fun d => by
      show (update s.timeoutList e.deliver _ d).Nodup
      by_cases hd : d = e.deliver
      · rw [hd, update_self]
        exact List.nodup_cons.2 ⟨hnolist _, h.list_nodup _⟩
      · rw [update_of_ne hd]
        exact h.list_nodup d
    timer := fun ev' => by
      show ev' ∈ s.timer ↔ update s.events ev (some e) ev' ≠ none ∧ ∀ u, _ ≠ some ev'
      by_cases hev' : ev' = ev
      · rw [hev']
        refine iff_of_false (fun hm => ((h.timer ev).1 hm).1 hev) fun hall => hall.2 t hself
      · rw [update_of_ne hev', h.timer]
        exact and_congr_right fun _ => forall_congr' fun u => not_congr (hother hev').symm
    list := fun d ev' => by
      show ev' ∈ update s.timeoutList e.deliver _ d ↔
        (update s.events ev (some e) ev').map CdxEvent.deliver = some d
      by_cases hev' : ev' = ev
      · rw [hev', update_self, Option.map_some, Option.some_inj]
        by_cases hd : d = e.deliver
        · rw [hd, update_self]
          exact iff_of_true List.mem_cons_self rfl
        · rw [update_of_ne hd]
          exact iff_of_false (hnolist d) (Ne.symm hd)
      · rw [update_of_ne hev', ← h.list]
        by_cases hd : d = e.deliver
        · rw [hd, update_self, List.mem_cons, or_iff_right hev']
        · rw [update_of_ne hd]
    half := fun u ev' hu => by
      show update s.events ev (some e) ev' ≠ none
      by_cases hev' : ev' = ev
      · rw [hev', update_self]
        nofun
      · rw [update_of_ne hev']
        exact h.half u ev' ((hother hev').1 hu)
    half_inj := fun u v ev' hu hv => by
      by_cases hev' : ev' = ev
      · have honly : ∀ w, update s.pc t (some ev) w = some ev' → w = t := by
          intro w hw
          by_contra hwt
          rw [update_of_ne hwt, hev'] at hw
          exact hnopc w hw
        rw [honly u hu, honly v hv]
      · exact h.half_inj u v ev' ((hother hev').1 hu) ((hother hev').1 hv) }

/-- The post puts its event on the list of the timer. -/
theorem Shape.postTimer (h : Shape s) (hpc : s.pc t = some ev) {events : Nat → Option CdxEvent}
    (hevents : ∀ ev', (events ev').map CdxEvent.deliver = (s.events ev').map CdxEvent.deliver) :
    Shape { s with
      timer := s.timer ++ [ev]
      events
      pc := update s.pc t none } := by
  have hnone : ∀ ev', events ev' ≠ none ↔ s.events ev' ≠ none := fun ev' => by
    rw [ne_eq, ne_eq, ← Option.map_eq_none_iff (f := CdxEvent.deliver), hevents,
      Option.map_eq_none_iff]
  have hlive := h.half t ev hpc
  have hnot : ev ∉ s.timer := fun hm => ((h.timer ev).1 hm).2 t hpc
  have hpcs : ∀ u ev', update s.pc t none u = some ev' ↔ s.pc u = some ev' ∧ ev' ≠ ev := by
    intro u ev'
    by_cases hu : u = t
    · rw [hu, update_self, hpc, Option.some_inj]
      exact iff_of_false nofun fun hh => hh.2 hh.1.symm
    · rw [update_of_ne hu]
      refine ⟨fun hue => ⟨hue, fun hev' => hu ?_⟩, And.left⟩
      exact h.half_inj u t ev (hev' ▸ hue) hpc
  exact {
    timer_nodup := List.nodup_append.2 ⟨h.timer_nodup, List.nodup_singleton ev, fun a ha b hb => by
      rw [List.mem_singleton.1 hb]
      exact ne_of_mem_of_not_mem ha hnot⟩
    list_nodup := h.list_nodup
    timer := fun ev' => by
      show ev' ∈ s.timer ++ [ev] ↔ events ev' ≠ none ∧ ∀ u, update s.pc t none u ≠ some ev'
      rw [List.mem_append, List.mem_singleton, hnone]
      by_cases hev' : ev' = ev
      · rw [hev']
        exact iff_of_true (.inr rfl) ⟨hlive, fun u hu => ((hpcs u ev).1 hu).2 rfl⟩
      · rw [or_iff_left hev', h.timer]
        refine and_congr_right fun _ => forall_congr' fun u => not_congr ?_
        rw [hpcs, and_iff_left hev']
    list := fun d ev' => (h.list d ev').trans (by rw [← hevents])
    half := fun u ev' hu => (hnone ev').2 (h.half u ev' ((hpcs u ev').1 hu).1)
    half_inj := fun u v ev' hu hv => h.half_inj u v ev' ((hpcs u ev').1 hu).1 ((hpcs v ev').1 hv).1 }

/-- An event is taken off both lists and freed. -/
theorem Shape.drop (h : Shape s) (hmem : ev ∈ s.timer) (hev : s.events ev = some e) :
    ∃ s', s.drop ev e = some s' ∧ Shape s' := by
  have hlist : ev ∈ s.timeoutList e.deliver := (h.list _ ev).2 (by rw [hev]; rfl)
  have hnopc := ((h.timer ev).1 hmem).2
  refine ⟨_, if_pos ⟨hmem, hlist⟩, ?_⟩
  exact {
    timer_nodup := h.timer_nodup.erase ev
    list_nodup := fun d => by
      show (update s.timeoutList e.deliver _ d).Nodup
      by_cases hd : d = e.deliver
      · rw [hd, update_self]
        exact (h.list_nodup _).erase ev
      · rw [update_of_ne hd]
        exact h.list_nodup d
    timer := fun ev' => by
      show ev' ∈ s.timer.erase ev ↔ update s.events ev none ev' ≠ none ∧ _
      rw [h.timer_nodup.mem_erase_iff]
      by_cases hev' : ev' = ev
      · rw [hev', update_self]
        exact iff_of_false (fun hh => hh.1 rfl) fun hh => hh.1 rfl
      · rw [update_of_ne hev', and_iff_right hev']
        exact h.timer ev'
    list := fun d ev' => by
      show ev' ∈ update s.timeoutList e.deliver _ d ↔
        (update s.events ev none ev').map CdxEvent.deliver = some d
      by_cases hev' : ev' = ev
      · rw [hev', update_self]
        refine iff_of_false (fun hm => ?_) nofun
        by_cases hd : d = e.deliver
        · rw [hd, update_self, (h.list_nodup _).mem_erase_iff] at hm
          exact hm.1 rfl
        · rw [update_of_ne hd, h.list, hev] at hm
          exact hd (Option.some.inj hm).symm
      · rw [update_of_ne hev', ← h.list]
        by_cases hd : d = e.deliver
        · rw [hd, update_self, (h.list_nodup _).mem_erase_iff, and_iff_right hev']
        · rw [update_of_ne hd]
    half := fun u ev' hu => by
      show update s.events ev none ev' ≠ none
      rw [update_of_ne fun hev' : ev' = ev => hnopc u (hev' ▸ hu)]
      exact h.half u ev' hu
    half_inj := h.half_inj }

/-! ## The counts -/

/-- An event after `T` ticks, of which the last was at `L`. -/
structure Counts (T L now : Nat) (e : CdxEvent) : Prop where
  listed : e.listed ≤ T
  left : e.timeout + (T - e.listed) = delayTicks e.delay
  pos : 0 < e.timeout
  fits : delayTicks e.delay < 2 ^ 32
  posted : e.postedAt ≤ now
  since : e.listed < T → e.postedAt + (T - e.listed - 1) * tickUs ≤ L

/-- An event that is not on the list of the timer yet. -/
structure Waits (now : Nat) (e : CdxEvent) : Prop where
  left : e.timeout = delayTicks e.delay
  pos : 0 < delayTicks e.delay
  fits : delayTicks e.delay < 2 ^ 32
  posted : e.postedAt ≤ now

theorem countDown_eq {timeout : Nat} (hpos : 0 < timeout) (hlt : timeout < 2 ^ 32) :
    countDown timeout = timeout - 1 := by
  unfold countDown
  omega

section Counts

variable {T L now now' : Nat}

theorem Counts.lt (h : Counts T L now e) : e.timeout < 2 ^ 32 := by
  have hleft := h.left
  have hfits := h.fits
  omega

theorem Counts.later (h : Counts T L now e) (hle : now ≤ now') : Counts T L now' e :=
  { h with posted := Nat.le_trans h.posted hle }

theorem Counts.before (h : Counts T L now e) : T < e.listed + delayTicks e.delay := by
  have hlisted := h.listed
  have hleft := h.left
  have hpos := h.pos
  omega

theorem Waits.counts (h : Waits now e) : Counts T L now { e with listed := T } where
  listed := Nat.le_refl T
  left := by
    show e.timeout + (T - T) = delayTicks e.delay
    rw [Nat.sub_self]
    exact h.left
  pos := by
    show 0 < e.timeout
    rw [h.left]
    exact h.pos
  fits := h.fits
  posted := h.posted
  since hlt := absurd hlt (Nat.lt_irrefl T)

/-- The time that has passed at the next tick. -/
theorem Counts.elapsed (h : Counts T L now e) (hgap : L + tickUs ≤ now) :
    e.postedAt + (T - e.listed) * tickUs ≤ now := by
  have hlisted := h.listed
  have hposted := h.posted
  have hsince := h.since
  rcases Nat.lt_or_ge e.listed T with hlt | hge
  · have hbound := hsince hlt
    have hsucc : (T - e.listed) * tickUs = (T - e.listed - 1) * tickUs + tickUs := by
      rw [← Nat.succ_mul]
      congr 1
      omega
    omega
  · have hzero : T - e.listed = 0 := by omega
    rw [hzero]
    omega

/-- A tick that is not the last of the delay. -/
theorem Counts.tick (h : Counts T L now e) (hgap : L + tickUs ≤ now)
    (hne : countDown e.timeout ≠ 0) :
    Counts (T + 1) now now { e with timeout := countDown e.timeout } := by
  have hlisted := h.listed
  have hleft := h.left
  have hpos := h.pos
  have helapsed := h.elapsed hgap
  have hdown := countDown_eq hpos h.lt
  exact {
    listed := Nat.le_succ_of_le hlisted
    left := by
      show countDown e.timeout + (T + 1 - e.listed) = delayTicks e.delay
      omega
    pos := Nat.pos_of_ne_zero hne
    fits := h.fits
    posted := h.posted
    since := fun _ => by
      show e.postedAt + (T + 1 - e.listed - 1) * tickUs ≤ now
      rw [show T + 1 - e.listed - 1 = T - e.listed by omega]
      exact helapsed }

/-- The last tick of the delay. -/
theorem Counts.last (h : Counts T L now e) (hgap : L + tickUs ≤ now)
    (hzero : countDown e.timeout = 0) :
    MovedOk ⟨e.msg, e.delay, e.postedAt, e.listed, now, T + 1⟩ := by
  have hlisted := h.listed
  have hleft := h.left
  have hpos := h.pos
  have helapsed := h.elapsed hgap
  have hdown := countDown_eq hpos h.lt
  exact {
    tick := by
      show T + 1 = e.listed + delayTicks e.delay
      omega
    movedAt := by
      show e.postedAt + (delayTicks e.delay - 1) * tickUs ≤ now
      rw [show delayTicks e.delay - 1 = T - e.listed by omega]
      exact helapsed }

end Counts

/-- What the events count. -/
structure Timed (s : DeliverTimer) : Prop where
  waits : ∀ t ev e, s.pc t = some ev → s.events ev = some e → Waits s.now e
  counts : ∀ ev ∈ s.timer, ∀ e, s.events ev = some e → Counts s.ticks s.lastTick s.now e
  last : s.lastTick ≤ s.now
  moved : ∀ r ∈ s.moved, MovedOk r

structure DeliverInv (s : DeliverTimer) : Prop where
  shape : Shape s
  placed : ∃ place, Placed s place
  timed : Timed s

theorem deliverInv_init : DeliverInv DeliverTimerInit where
  shape := {
    timer_nodup := List.nodup_nil
    list_nodup := fun _ => List.nodup_nil
    timer := fun _ => iff_of_false List.not_mem_nil fun h => h.1 rfl
    list := fun _ _ => iff_of_false List.not_mem_nil nofun
    half := nofun
    half_inj := nofun }
  placed := ⟨fun _ => .new, {
    new := fun m => iff_of_true rfl (Nat.zero_le m)
    event := fun _ _ => iff_of_false nofun nofun
    queue := fun _ _ => iff_of_false nofun List.not_mem_nil
    queue_nodup := fun _ => List.nodup_nil
    hand := fun _ _ => iff_of_false nofun nofun
    destroyed := fun _ => iff_of_false nofun List.not_mem_nil
    destroyed_nodup := List.nodup_nil
    delivered := List.Sublist.refl []
    gone := fun _ h => absurd rfl h
    moved := nofun
    moved_nodup := List.nodup_nil }⟩
  timed := ⟨nofun, nofun, Nat.le_refl 0, nofun⟩

theorem DeliverInv.ok (h : DeliverInv s) : DeliveryOk s where
  once := h.placed
  lists ev := by
    have hlist : (∃ d, ev ∈ s.timeoutList d) ↔ s.events ev ≠ none := by
      constructor
      · rintro ⟨d, hd⟩ hnone
        rw [h.shape.list, hnone] at hd
        cases hd
      · intro hsome
        obtain ⟨e, he⟩ := Option.ne_none_iff_exists'.1 hsome
        exact ⟨e.deliver, (h.shape.list _ ev).2 (by rw [he]; rfl)⟩
    rw [hlist, h.shape.timer]
    constructor
    · intro hsome
      by_cases hpc : ∃ t, s.pc t = some ev
      · exact .inr hpc
      · exact .inl ⟨hsome, fun t ht => hpc ⟨t, ht⟩⟩
    · rintro (hlive | ⟨t, ht⟩)
      · exact hlive.1
      · exact h.shape.half t ev ht
  due ev hev := by
    obtain ⟨e, he⟩ := Option.ne_none_iff_exists'.1 ((h.shape.timer ev).1 hev).1
    exact ⟨e, he, (h.timed.counts ev hev e he).before⟩
  moved := h.timed.moved

/-! ## Posts -/

theorem keeps_post (h : DeliverInv s) {timeout fresh : Nat} (hpc : s.pc t = none)
    (hwhole : timeout = 0 ∨ 0 < delayTicks timeout ∧ delayTicks timeout < 2 ^ 32) :
    DeliverInv (CdxDeliverPostUS s t d timeout fresh) := by
  obtain ⟨hshape, ⟨place, hplaced⟩, htimed⟩ := h
  unfold CdxDeliverPostUS
  split
  · refine ⟨hshape.frame rfl rfl (fun _ => rfl) rfl, ⟨_, hplaced.post d rfl⟩, ?_⟩
    refine ⟨htimed.waits, htimed.counts, htimed.last, fun r hr => ?_⟩
    rcases List.mem_append.1 hr with hr | hr
    · exact htimed.moved r hr
    · rw [List.mem_singleton.1 hr]
      have hzero : delayTicks 0 = 0 := Nat.zero_div _
      refine ⟨?_, ?_⟩
      · show s.ticks = s.ticks + delayTicks 0
        rw [hzero, Nat.add_zero]
      · refine Nat.le_of_eq ?_
        show s.now + (delayTicks 0 - 1) * tickUs = s.now
        rw [hzero, Nat.zero_sub, Nat.zero_mul, Nat.add_zero]
  · rename_i hzero
    split
    · exact ⟨hshape, ⟨place, hplaced⟩, htimed⟩
    · rename_i hfresh
      obtain ⟨hpos, hlt⟩ := hwhole.resolve_left hzero
      have hev : s.events fresh = none := not_not.1 hfresh
      have hnot : ∀ ev ∈ s.timer, ev ≠ fresh := fun ev hm he =>
        ((hshape.timer ev).1 hm).1 (he ▸ hev)
      refine ⟨hshape.postEvent (e := ⟨s.created, d, delayTicks timeout % 2 ^ 32, timeout, s.now, s.ticks⟩)
        hev hpc, ⟨_, hplaced.postEvent hev rfl⟩, ?_⟩
      refine ⟨fun u ev e hu he => ?_, fun ev hm e he => ?_, htimed.last, htimed.moved⟩
      · change update s.pc t (some fresh) u = some ev at hu
        change update s.events fresh _ ev = some e at he
        by_cases hut : u = t
        · rw [hut, update_self] at hu
          cases hu
          rw [update_self] at he
          cases he
          exact ⟨Nat.mod_eq_of_lt hlt, hpos, hlt, Nat.le_refl _⟩
        · rw [update_of_ne hut] at hu
          have hne : ev ≠ fresh := fun hne => hshape.half u ev hu (hne ▸ hev)
          rw [update_of_ne hne] at he
          exact htimed.waits u ev e hu he
      · change update s.events fresh _ ev = some e at he
        rw [update_of_ne (hnot ev hm)] at he
        exact htimed.counts ev hm e he

theorem keeps_postTimer (h : DeliverInv s) (t : Nat) :
    ∃ s', postTimer s t = some s' ∧ DeliverInv s' := by
  obtain ⟨hshape, ⟨place, hplaced⟩, htimed⟩ := h
  unfold postTimer
  cases hpc : s.pc t with
  | none => exact ⟨s, rfl, hshape, ⟨place, hplaced⟩, htimed⟩
  | some ev =>
    obtain ⟨e, he⟩ := Option.ne_none_iff_exists'.1 (hshape.half t ev hpc)
    have hwaits := htimed.waits t ev e hpc he
    have hnot : ev ∉ s.timer := fun hm => ((hshape.timer ev).1 hm).2 t hpc
    dsimp only
    rw [he]
    have hsame {β : Type} (f : CdxEvent → β) (hf : f { e with listed := s.ticks } = f e) (ev' : Nat) :
        (update s.events ev (some { e with listed := s.ticks }) ev').map f =
          (s.events ev').map f := by
      by_cases hev' : ev' = ev
      · rw [hev', update_self, he, Option.map_some, Option.map_some, hf]
      · rw [update_of_ne hev']
    refine ⟨_, rfl, hshape.postTimer hpc (hsame CdxEvent.deliver rfl),
      ⟨place, hplaced.frame rfl (hsame CdxEvent.msg rfl) rfl rfl rfl rfl rfl rfl⟩, ?_⟩
    refine ⟨fun u ev' e' hu he' => ?_, fun ev' hm e' he' => ?_, htimed.last, htimed.moved⟩
    · change update s.pc t none u = some ev' at hu
      change update s.events ev _ ev' = some e' at he'
      by_cases hut : u = t
      · rw [hut, update_self] at hu
        cases hu
      · rw [update_of_ne hut] at hu
        have hne : ev' ≠ ev := fun hne => hut (hshape.half_inj u t ev (hne ▸ hu) hpc)
        rw [update_of_ne hne] at he'
        exact htimed.waits u ev' e' hu he'
    · change update s.events ev _ ev' = some e' at he'
      rcases List.mem_append.1 hm with hm | hm
      · rw [update_of_ne (ne_of_mem_of_not_mem hm hnot)] at he'
        exact htimed.counts ev' hm e' he'
      · rw [List.mem_singleton.1 hm, update_self] at he'
        cases he'
        exact hwaits.counts

/-! ## Ticks -/

/-- In tick `T + 1`, when the events of `evs` are still to be counted down. The tick before
was at `L`. -/
structure Ticking (T L : Nat) (s : DeliverTimer) (evs : List Nat) : Prop where
  shape : Shape s
  placed : ∃ place, Placed s place
  ticks : s.ticks = T + 1
  lastTick : s.lastTick = s.now
  gap : L + tickUs ≤ s.now
  nodup : evs.Nodup
  mem : ∀ ev ∈ evs, ev ∈ s.timer
  old : ∀ ev ∈ evs, ∀ e, s.events ev = some e → Counts T L s.now e
  new : ∀ ev ∈ s.timer, ev ∉ evs → ∀ e, s.events ev = some e → Counts (T + 1) s.now s.now e
  waits : ∀ t ev e, s.pc t = some ev → s.events ev = some e → Waits s.now e
  moved : ∀ r ∈ s.moved, MovedOk r

variable {T L : Nat} {evs : List Nat}

/-- An event runs out in this tick. -/
theorem Ticking.expire (h : Ticking T L s (ev :: evs)) (he : s.events ev = some e)
    (hzero : countDown e.timeout = 0) :
    ∃ s₀, s.drop ev e = some s₀ ∧ Ticking T L { s₀.push e.deliver e.msg with
      moved := s₀.moved ++ [⟨e.msg, e.delay, e.postedAt, e.listed, s₀.now, s₀.ticks⟩] } evs := by
  have hmem := h.mem ev List.mem_cons_self
  obtain ⟨hnot, hnodup⟩ := List.nodup_cons.1 h.nodup
  obtain ⟨s₀, hs₀, hshape⟩ := h.shape.drop hmem he
  obtain ⟨place, hplaced⟩ := h.placed
  refine ⟨s₀, hs₀, ?_⟩
  have hlist : ev ∈ s.timeoutList e.deliver := (h.shape.list _ ev).2 (by rw [he]; rfl)
  cases (if_pos ⟨hmem, hlist⟩ : s.drop ev e = _).symm.trans hs₀
  have hother : ∀ {ev' e'}, update s.events ev none ev' = some e' →
      ev' ≠ ev ∧ s.events ev' = some e' := by
    intro ev' e' he'
    by_cases hev' : ev' = ev
    · rw [hev', update_self] at he'
      cases he'
    · rw [update_of_ne hev'] at he'
      exact ⟨hev', he'⟩
  exact {
    shape := hshape.frame rfl rfl (fun _ => rfl) rfl
    placed := ⟨_, hplaced.expire he rfl⟩
    ticks := h.ticks
    lastTick := h.lastTick
    gap := h.gap
    nodup := hnodup
    mem := fun ev' hm => (h.shape.timer_nodup.mem_erase_iff).2
      ⟨ne_of_mem_of_not_mem hm hnot, h.mem ev' (List.mem_cons_of_mem _ hm)⟩
    old := fun ev' hm e' he' => h.old ev' (List.mem_cons_of_mem _ hm) e' (hother he').2
    new := fun ev' hm hno e' he' => by
      obtain ⟨hne, he'⟩ := hother he'
      refine h.new ev' (List.mem_of_mem_erase hm) (fun hm' => ?_) e' he'
      exact hno ((List.mem_cons.1 hm').resolve_left hne)
    waits := fun u ev' e' hu he' => h.waits u ev' e' hu (hother he').2
    moved := fun r hr => by
      rcases List.mem_append.1 hr with hr | hr
      · exact h.moved r hr
      · have hlast := (h.old ev List.mem_cons_self e he).last h.gap hzero
        rw [List.mem_singleton.1 hr]
        show MovedOk ⟨e.msg, e.delay, e.postedAt, e.listed, s.now, s.ticks⟩
        rw [h.ticks]
        exact hlast }

/-- An event is counted down. -/
theorem Ticking.count (h : Ticking T L s (ev :: evs)) (he : s.events ev = some e)
    (hne : countDown e.timeout ≠ 0) :
    Ticking T L { s with
      events := update s.events ev (some { e with timeout := countDown e.timeout }) }
      evs := by
  have hmem := h.mem ev List.mem_cons_self
  obtain ⟨hnot, hnodup⟩ := List.nodup_cons.1 h.nodup
  obtain ⟨place, hplaced⟩ := h.placed
  have hsame {β : Type} (f : CdxEvent → β) (hf : f { e with timeout := countDown e.timeout } = f e)
      (ev' : Nat) :
      (update s.events ev (some { e with timeout := countDown e.timeout }) ev').map f =
        (s.events ev').map f := by
    by_cases hev' : ev' = ev
    · rw [hev', update_self, he, Option.map_some, Option.map_some, hf]
    · rw [update_of_ne hev']
  exact {
    shape := h.shape.frame rfl rfl (hsame CdxEvent.deliver rfl) rfl
    placed := ⟨place, hplaced.frame rfl (hsame CdxEvent.msg rfl) rfl rfl rfl rfl rfl rfl⟩
    ticks := h.ticks
    lastTick := h.lastTick
    gap := h.gap
    nodup := hnodup
    mem := fun ev' hm => h.mem ev' (List.mem_cons_of_mem _ hm)
    old := fun ev' hm e' he' => by
      change update s.events ev _ ev' = some e' at he'
      rw [update_of_ne (ne_of_mem_of_not_mem hm hnot)] at he'
      exact h.old ev' (List.mem_cons_of_mem _ hm) e' he'
    new := fun ev' hm hno e' he' => by
      change update s.events ev _ ev' = some e' at he'
      by_cases hev' : ev' = ev
      · rw [hev', update_self] at he'
        cases he'
        exact (h.old ev List.mem_cons_self e he).tick h.gap hne
      · rw [update_of_ne hev'] at he'
        refine h.new ev' hm (fun hm' => ?_) e' he'
        exact hno ((List.mem_cons.1 hm').resolve_left hev')
    waits := fun u ev' e' hu he' => by
      change update s.events ev _ ev' = some e' at he'
      rw [update_of_ne fun hev' : ev' = ev => ((h.shape.timer ev).1 hmem).2 u (hev' ▸ hu)]
        at he'
      exact h.waits u ev' e' hu he'
    moved := h.moved }

theorem Ticking.event (h : Ticking T L s (ev :: evs)) :
    ∃ s', timerEvent s ev = some s' ∧ Ticking T L s' evs := by
  have hmem := h.mem ev List.mem_cons_self
  obtain ⟨e, he⟩ := Option.ne_none_iff_exists'.1 ((h.shape.timer ev).1 hmem).1
  unfold timerEvent
  rw [he, Option.bind_eq_bind, Option.bind_some]
  dsimp only
  by_cases hzero : countDown e.timeout = 0
  · obtain ⟨s₀, hs₀, hnext⟩ := h.expire he hzero
    rw [if_pos hzero, hs₀]
    exact ⟨_, rfl, hnext⟩
  · rw [if_neg hzero]
    exact ⟨_, rfl, h.count he hzero⟩

/-- The loop over the list of the timer. -/
theorem Ticking.events (h : Ticking T L s evs) :
    ∃ s', timerEvents s evs = some s' ∧ Ticking T L s' [] := by
  induction evs generalizing s with
  | nil => exact ⟨s, rfl, h⟩
  | cons ev evs ih =>
    obtain ⟨s₁, hs₁, h₁⟩ := h.event
    obtain ⟨s', hs', h'⟩ := ih h₁
    refine ⟨s', ?_, h'⟩
    rw [timerEvents, hs₁, Option.bind_some, hs']

theorem keeps_tick (h : DeliverInv s) : ∃ s', DeliverTimerProcess s = some s' ∧ DeliverInv s' := by
  unfold DeliverTimerProcess
  split
  · exact ⟨s, rfl, h⟩
  · rename_i hgap
    obtain ⟨hshape, hplaced, htimed⟩ := h
    have hstart : Ticking s.ticks s.lastTick { s with ticks := s.ticks + 1, lastTick := s.now }
        s.timer := {
      shape := hshape.frame rfl rfl (fun _ => rfl) rfl
      placed := hplaced.imp fun _ hp => hp.frame rfl (fun _ => rfl) rfl rfl rfl rfl rfl rfl
      ticks := rfl
      lastTick := rfl
      gap := Nat.le_of_not_lt hgap
      nodup := hshape.timer_nodup
      mem := fun _ => id
      old := htimed.counts
      new := fun _ hm hno => absurd hm hno
      waits := htimed.waits
      moved := htimed.moved }
    obtain ⟨s', hs', h'⟩ := hstart.events
    refine ⟨s', hs', h'.shape, h'.placed, h'.waits, fun ev hm e he => ?_, ?_, h'.moved⟩
    · rw [h'.ticks, h'.lastTick]
      exact h'.new ev hm List.not_mem_nil e he
    · exact Nat.le_of_eq h'.lastTick

/-! ## Clearing -/

/-- The loop over the list of the deliver. -/
theorem clears (hevs : evs = s.timeoutList d) (h : DeliverInv s) (hmem : ∀ ev ∈ evs, ev ∈ s.timer) :
    ∃ s', clearEvents s evs = some s' ∧ DeliverInv s' := by
  induction evs generalizing s with
  | nil => exact ⟨s, rfl, h⟩
  | cons ev evs ih =>
    obtain ⟨hshape, ⟨place, hplaced⟩, htimed⟩ := h
    have htimer := hmem ev List.mem_cons_self
    have hlist : ev ∈ s.timeoutList d := hevs ▸ List.mem_cons_self
    have hdeliver := (hshape.list d ev).1 hlist
    obtain ⟨e, he, rfl⟩ := Option.map_eq_some_iff.1 hdeliver
    have hnodup := hshape.list_nodup e.deliver
    obtain ⟨s₀, hs₀, hshape'⟩ := hshape.drop htimer he
    cases (if_pos ⟨htimer, hlist⟩ : s.drop ev e = _).symm.trans hs₀
    rw [clearEvents, he, Option.bind_eq_bind, Option.bind_some, hs₀, Option.bind_eq_bind,
      Option.bind_some]
    have hother : ∀ {ev' e'}, update s.events ev none ev' = some e' →
        s.events ev' = some e' := by
      intro ev' e' he'
      by_cases hev' : ev' = ev
      · rw [hev', update_self] at he'
        cases he'
      · rwa [update_of_ne hev'] at he'
    refine ih ?_ ⟨hshape'.frame rfl rfl (fun _ => rfl) rfl, ⟨_, hplaced.clear he⟩, ?_⟩ ?_
    · show evs = update s.timeoutList e.deliver _ e.deliver
      rw [update_self, ← hevs, List.erase_cons_head]
    · exact ⟨fun t ev' e' ht he' => htimed.waits t ev' e' ht (hother he'), fun ev' hm e' he' =>
        htimed.counts ev' (List.mem_of_mem_erase hm) e' (hother he'), htimed.last, htimed.moved⟩
    · intro ev' hm
      rw [← hevs] at hnodup
      exact (hshape.timer_nodup.mem_erase_iff).2 ⟨ne_of_mem_of_not_mem hm (List.nodup_cons.1 hnodup).1,
        hmem ev' (List.mem_cons_of_mem _ hm)⟩

theorem keeps_clear (h : DeliverInv s) (hwhole : ∀ ev ∈ s.timeoutList d, ev ∈ s.timer) :
    ∃ s', CdxDeliverClearMsg s d = some s' ∧ DeliverInv s' := by
  obtain ⟨s', hs', hshape, ⟨place, hplaced⟩, htimed⟩ := clears rfl h hwhole
  unfold CdxDeliverClearMsg
  rw [hs', Option.map_some]
  exact ⟨_, rfl, hshape.frame rfl rfl (fun _ => rfl) rfl, ⟨_, hplaced.clearQueue d⟩,
    htimed.waits, htimed.counts, htimed.last, htimed.moved⟩

/-! ## Runs -/

theorem deliver_step {i : DeliverAct} (h : DeliverInv s) (hwhole : Whole s i) :
    ∃ s', deliverNext s i = some s' ∧ DeliverInv s' := by
  cases i with
  | pass us =>
    obtain ⟨hshape, ⟨place, hplaced⟩, htimed⟩ := h
    refine ⟨_, rfl, hshape.frame rfl rfl (fun _ => rfl) rfl,
      ⟨place, hplaced.frame rfl (fun _ => rfl) rfl rfl rfl rfl rfl rfl⟩, ?_⟩
    refine ⟨fun t ev e ht he => ?_, fun ev hm e he => ?_, ?_, htimed.moved⟩
    · have hwaits := htimed.waits t ev e ht he
      exact { hwaits with posted := Nat.le_add_right_of_le hwaits.posted }
    · exact (htimed.counts ev hm e he).later (Nat.le_add_right _ _)
    · exact Nat.le_add_right_of_le htimed.last
  | post t d timeout fresh =>
    refine ⟨_, rfl, ?_⟩
    split
    · rename_i hpc
      exact keeps_post h hpc hwhole
    · exact h
  | postTimer t => exact keeps_postTimer h t
  | tick => exact keeps_tick h
  | take d =>
    refine ⟨_, rfl, ?_⟩
    unfold takeMessage
    split
    · rename_i m ms hhand hqueue
      obtain ⟨hshape, ⟨place, hplaced⟩, htimed⟩ := h
      exact ⟨hshape.frame rfl rfl (fun _ => rfl) rfl, ⟨_, hplaced.take hhand hqueue⟩,
        htimed.waits, htimed.counts, htimed.last, htimed.moved⟩
    · exact h
  | deliver d =>
    refine ⟨_, rfl, ?_⟩
    unfold deliverMessage
    split
    · exact h
    · rename_i m hhand
      obtain ⟨hshape, ⟨place, hplaced⟩, htimed⟩ := h
      exact ⟨hshape.frame rfl rfl (fun _ => rfl) rfl, ⟨_, hplaced.deliver hhand⟩,
        htimed.waits, htimed.counts, htimed.last, htimed.moved⟩
  | clear d => exact keeps_clear h hwhole

/-- A message with a delay of two ticks and a half, one without a delay, and a clear. -/
def postTwo : List DeliverAct :=
  [.post 0 0 250000 0, .postTimer 0, .pass 100000, .tick, .pass 100000, .tick, .take 0, .deliver 0,
    .post 1 0 0 0, .clear 0]

end Melis.Libcore
