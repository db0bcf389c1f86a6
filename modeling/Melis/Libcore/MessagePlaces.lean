import Mathlib.Data.List.Nodup
import Melis.Libcore.CdxMessage

/-!
# The places of the messages

Each message is in one place, an event, a queue, the hand of a delivery thread, or it is
destroyed (`Placed`). A post, a tick, a delivery and a clear each move messages from one
place to another.
-/

namespace Melis.Libcore

open Lib Function

variable {s s' : DeliverTimer} {m ev d t : Nat} {e : CdxEvent}

inductive Place
  | new
  | event (ev : Nat)
  | queue (d : Nat)
  | hand (d : Nat)
  | destroyed
  deriving DecidableEq

/-- Every message is in one place. It leaves its event once, when it is moved to a queue or
cleared, and is delivered at most once, right before it is destroyed. -/
structure Placed (s : DeliverTimer) (place : Nat → Place) : Prop where
  new : ∀ m, place m = .new ↔ s.created ≤ m
  event : ∀ m ev, place m = .event ev ↔ (s.events ev).map CdxEvent.msg = some m
  queue : ∀ m d, place m = .queue d ↔ m ∈ s.eventQueue d
  queue_nodup : ∀ d, (s.eventQueue d).Nodup
  hand : ∀ m d, place m = .hand d ↔ s.hand d = some m
  destroyed : ∀ m, place m = .destroyed ↔ m ∈ s.destroyed
  destroyed_nodup : s.destroyed.Nodup
  delivered : s.delivered.Sublist s.destroyed
  gone : ∀ m, place m ≠ .new → (∀ ev, place m ≠ .event ev) →
    m ∈ s.moved.map Moved.msg ∨ m ∈ s.cleared
  moved : ∀ m ∈ s.moved.map Moved.msg, place m ≠ .new ∧ ∀ ev, place m ≠ .event ev
  moved_nodup : (s.moved.map Moved.msg).Nodup

/-! ## Places -/

section Moves

variable {place : Nat → Place} {p q : Place} {m' : Nat}

theorem update_place_iff (hold : place m ≠ q) (hnew : p ≠ q) :
    update place m p m' = q ↔ place m' = q := by
  by_cases hm : m' = m
  · rw [hm, update_self]
    exact iff_of_false hnew hold
  · rw [update_of_ne hm]

/-- Another message than those of `q` is put in another place. -/
theorem kept_iff {P : Prop} {old : Place} (h : place m' = q ↔ P) (hold : place m = old)
    (hq : old ≠ q) (hp : p ≠ q) : update place m p m' = q ↔ P :=
  (update_place_iff (fun he => hq (hold.symm.trans he)) hp).trans h

theorem update_place_self :
    update place m p m' = p ↔ m' = m ∨ place m' = p := by
  by_cases hm : m' = m
  · rw [hm, update_self]
    exact iff_of_true rfl (.inl rfl)
  · rw [update_of_ne hm, or_iff_right hm]

theorem update_place_from (hnew : p ≠ place m) :
    update place m p m' = place m ↔ place m' = place m ∧ m' ≠ m := by
  by_cases hm : m' = m
  · rw [hm, update_self]
    exact iff_of_false hnew fun h => h.2 rfl
  · rw [update_of_ne hm, and_iff_left hm]

/-- The messages that have left their events, when one is put in a place. -/
theorem Placed.left (h : Placed s place) (hm : place m ≠ .new) (hev : ∀ ev, place m ≠ .event ev)
    (hp : p ≠ .new ∧ ∀ ev, p ≠ .event ev) :
    (∀ m', update place m p m' ≠ .new →
        (∀ ev, update place m p m' ≠ .event ev) →
        m' ∈ s.moved.map Moved.msg ∨ m' ∈ s.cleared) ∧
      ∀ m' ∈ s.moved.map Moved.msg, update place m p m' ≠ .new ∧
        ∀ ev, update place m p m' ≠ .event ev := by
  have hiff : ∀ m' q, (q = .new ∨ ∃ ev, q = .event ev) →
      (update place m p m' = q ↔ place m' = q) := by
    rintro m' q (rfl | ⟨ev, rfl⟩)
    · exact update_place_iff hm hp.1
    · exact update_place_iff (hev ev) (hp.2 ev)
  refine ⟨fun m' hnew hevent => ?_, fun m' hmem => ?_⟩
  · refine h.gone m' (fun hn => hnew ((hiff m' _ (.inl rfl)).2 hn)) fun ev he => ?_
    exact hevent ev ((hiff m' _ (.inr ⟨ev, rfl⟩)).2 he)
  · obtain ⟨hnew, hevent⟩ := h.moved m' hmem
    exact ⟨fun hn => hnew ((hiff m' _ (.inl rfl)).1 hn), fun ev he =>
      hevent ev ((hiff m' _ (.inr ⟨ev, rfl⟩)).1 he)⟩

/-- A step that leaves the messages where they are. -/
theorem Placed.frame (h : Placed s place) (hcreated : s'.created = s.created)
    (hevents : ∀ ev, (s'.events ev).map CdxEvent.msg = (s.events ev).map CdxEvent.msg)
    (hqueue : s'.eventQueue = s.eventQueue) (hhand : s'.hand = s.hand)
    (hmoved : s'.moved = s.moved) (hcleared : s'.cleared = s.cleared)
    (hdelivered : s'.delivered = s.delivered) (hdestroyed : s'.destroyed = s.destroyed) :
    Placed s' place where
  new m := by rw [hcreated]; exact h.new m
  event m ev := by rw [hevents]; exact h.event m ev
  queue m d := by rw [hqueue]; exact h.queue m d
  queue_nodup d := by rw [hqueue]; exact h.queue_nodup d
  hand m d := by rw [hhand]; exact h.hand m d
  destroyed m := by rw [hdestroyed]; exact h.destroyed m
  destroyed_nodup := by rw [hdestroyed]; exact h.destroyed_nodup
  delivered := by rw [hdelivered, hdestroyed]; exact h.delivered
  gone m := by rw [hmoved, hcleared]; exact h.gone m
  moved m := by rw [hmoved]; exact h.moved m
  moved_nodup := by rw [hmoved]; exact h.moved_nodup

/-- A queue with one message more. -/
theorem Placed.queue_push (h : Placed s place) (hm : ∀ d, place m ≠ .queue d) :
    (∀ m' d', update place m (.queue d) m' = .queue d' ↔
        m' ∈ update s.eventQueue d (s.eventQueue d ++ [m]) d') ∧
      ∀ d', (update s.eventQueue d (s.eventQueue d ++ [m]) d').Nodup := by
  have hnot : m ∉ s.eventQueue d := fun hmem => hm d ((h.queue m d).2 hmem)
  refine ⟨fun m' d' => ?_, fun d' => ?_⟩
  · by_cases hd : d' = d
    · rw [hd, update_self, update_place_self, List.mem_append, List.mem_singleton,
        ← h.queue, or_comm]
    · rw [update_of_ne hd, ← h.queue]
      exact update_place_iff (hm d') fun hq => hd (Place.queue.inj hq).symm
  · by_cases hd : d' = d
    · rw [hd, update_self]
      refine List.nodup_append.2 ⟨h.queue_nodup d, List.nodup_singleton m, fun a ha b hb => ?_⟩
      rw [List.mem_singleton.1 hb]
      exact ne_of_mem_of_not_mem ha hnot
    · rw [update_of_ne hd]
      exact h.queue_nodup d'

/-- The message is destroyed. -/
theorem Placed.destroys (h : Placed s place) (hm : place m ≠ .destroyed) :
    (∀ m', update place m .destroyed m' = .destroyed ↔ m' ∈ s.destroyed ++ [m]) ∧
      (s.destroyed ++ [m]).Nodup := by
  have hnot : m ∉ s.destroyed := fun hmem => hm ((h.destroyed m).2 hmem)
  refine ⟨fun m' => ?_, List.nodup_append.2 ⟨h.destroyed_nodup, List.nodup_singleton m, ?_⟩⟩
  · rw [update_place_self, List.mem_append, List.mem_singleton, ← h.destroyed, or_comm]
  · intro a ha b hb
    rw [List.mem_singleton.1 hb]
    exact ne_of_mem_of_not_mem ha hnot

/-- The event of a message is freed. -/
theorem Placed.event_drop (h : Placed s place) (hplace : place m = .event ev)
    (hp : ∀ ev, p ≠ .event ev) (m' ev' : Nat) :
    update place m p m' = .event ev' ↔
      (update s.events ev none ev').map CdxEvent.msg = some m' := by
  by_cases hev : ev' = ev
  · rw [hev, update_self]
    refine iff_of_false (fun hm' => ?_) nofun
    by_cases hmm : m' = m
    · rw [hmm, update_self] at hm'
      exact hp ev hm'
    · rw [update_of_ne hmm, h.event] at hm'
      have hmsg := (h.event m ev).1 hplace
      exact hmm (Option.some.inj (hm'.symm.trans hmsg))
  · rw [update_of_ne hev, ← h.event]
    refine update_place_iff (fun hm => hev ?_) (hp ev')
    exact (Place.event.inj (hplace.symm.trans hm)).symm

/-- A message that has left its event. -/
theorem Placed.gone_of_event (h : Placed s place) (hp : p ≠ .new ∧ ∀ ev, p ≠ .event ev)
    (moved cleared : List Nat)
    (hmoved : ∀ m', m' ∈ moved ∨ m' ∈ cleared ↔
      (m' ∈ s.moved.map Moved.msg ∨ m' ∈ s.cleared) ∨ m' = m)
    (hsub : ∀ m' ∈ moved, m' ∈ s.moved.map Moved.msg ∨ m' = m) :
    (∀ m', update place m p m' ≠ .new →
        (∀ ev, update place m p m' ≠ .event ev) → m' ∈ moved ∨ m' ∈ cleared) ∧
      ∀ m' ∈ moved, update place m p m' ≠ .new ∧
        ∀ ev, update place m p m' ≠ .event ev := by
  refine ⟨fun m' hnew hevent => (hmoved m').2 ?_, fun m' hm' => ?_⟩
  · by_cases hmm : m' = m
    · exact .inr hmm
    · rw [update_of_ne hmm] at hnew
      refine .inl (h.gone m' hnew fun ev he => hevent ev ?_)
      rw [update_of_ne hmm]
      exact he
  · by_cases hmm : m' = m
    · rw [hmm, update_self]
      exact hp
    · rw [update_of_ne hmm]
      exact h.moved m' ((hsub m' hm').resolve_right hmm)

/-! ## The steps move one message -/

/-- A post without a delay. -/
theorem Placed.post (h : Placed s place) (d : Nat) {r : Moved} (hr : r.msg = s.created) :
    Placed { s.push d s.created with created := s.created + 1, moved := s.moved ++ [r] }
      (update place s.created (.queue d)) := by
  have hnew : place s.created = .new := (h.new s.created).2 (Nat.le_refl _)
  have hother : ∀ {q}, q ≠ .new → place s.created ≠ q := fun hq he => hq (he.symm.trans hnew)
  obtain ⟨hqueue, hnodup⟩ := h.queue_push (m := s.created) (d := d) fun _ => hother nofun
  have hmsgs : (s.moved ++ [r]).map Moved.msg = s.moved.map Moved.msg ++ [s.created] := by
    rw [List.map_append, List.map_singleton, hr]
  exact {
    new := fun m => by
      show _ ↔ s.created + 1 ≤ m
      rw [← hnew, update_place_from (by rw [hnew]; nofun), hnew, h.new]
      omega
    event := fun m ev => kept_iff (h.event m ev) hnew nofun nofun
    queue := hqueue
    queue_nodup := hnodup
    hand := fun m d' => kept_iff (h.hand m d') hnew nofun nofun
    destroyed := fun m => kept_iff (h.destroyed m) hnew nofun nofun
    destroyed_nodup := h.destroyed_nodup
    delivered := h.delivered
    gone := fun m hm hev => by
      show m ∈ (s.moved ++ [r]).map Moved.msg ∨ m ∈ s.cleared
      rw [hmsgs, List.mem_append, List.mem_singleton]
      by_cases hmm : m = s.created
      · exact .inl (.inr hmm)
      · rw [update_of_ne hmm] at hm
        refine (h.gone m hm fun ev he => hev ev ?_).imp_left .inl
        rw [update_of_ne hmm]
        exact he
    moved := fun m hm => by
      change m ∈ (s.moved ++ [r]).map Moved.msg at hm
      rw [hmsgs, List.mem_append, List.mem_singleton] at hm
      by_cases hmm : m = s.created
      · rw [hmm, update_self]
        exact ⟨nofun, nofun⟩
      · rw [update_of_ne hmm]
        exact h.moved m (hm.resolve_right hmm)
    moved_nodup := by
      show ((s.moved ++ [r]).map Moved.msg).Nodup
      rw [hmsgs]
      refine List.nodup_append.2 ⟨h.moved_nodup, List.nodup_singleton _, fun a ha b hb hab => ?_⟩
      rw [List.mem_singleton.1 hb] at hab
      exact (h.moved a ha).1 (by rw [hab]; exact hnew) }

/-- A post with a delay. -/
theorem Placed.postEvent (h : Placed s place) (hev : s.events ev = none) (he : e.msg = s.created)
    {timeoutList : Nat → List Nat} {pc : Nat → Option Nat} :
    Placed { s with
        created := s.created + 1
        events := update s.events ev (some e)
        timeoutList
        pc } (update place s.created (.event ev)) := by
  have hnew : place s.created = .new := (h.new s.created).2 (Nat.le_refl _)
  have hother : ∀ {q}, q ≠ .new → place s.created ≠ q := fun hq he => hq (he.symm.trans hnew)
  exact {
    new := fun m => by
      show _ ↔ s.created + 1 ≤ m
      rw [← hnew, update_place_from (by rw [hnew]; nofun), hnew, h.new]
      omega
    event := fun m ev' => by
      show _ ↔ (update s.events ev (some e) ev').map CdxEvent.msg = some m
      by_cases hev' : ev' = ev
      · rw [hev', update_self, update_place_self, h.event, hev, Option.map_some, he,
          Option.some_inj, or_iff_left nofun, eq_comm]
      · rw [update_of_ne hev', ← h.event]
        exact update_place_iff (hother nofun) fun hq => hev' (Place.event.inj hq).symm
    queue := fun m d => kept_iff (h.queue m d) hnew nofun nofun
    queue_nodup := h.queue_nodup
    hand := fun m d => kept_iff (h.hand m d) hnew nofun nofun
    destroyed := fun m => kept_iff (h.destroyed m) hnew nofun nofun
    destroyed_nodup := h.destroyed_nodup
    delivered := h.delivered
    gone := fun m hm hevent => by
      by_cases hmm : m = s.created
      · rw [hmm, update_self] at hevent
        exact absurd rfl (hevent ev)
      · rw [update_of_ne hmm] at hm
        refine h.gone m hm fun ev' he' => hevent ev' ?_
        rw [update_of_ne hmm]
        exact he'
    moved := fun m hm => by
      have hmm : m ≠ s.created := fun hmm => (h.moved m hm).1 (hmm ▸ hnew)
      rw [update_of_ne hmm]
      exact h.moved m hm
    moved_nodup := h.moved_nodup }

/-- An event that has run out: its message goes to the queue. -/
theorem Placed.expire (h : Placed s place) (hev : s.events ev = some e) {r : Moved}
    (hr : r.msg = e.msg) {timer : List Nat} {timeoutList : Nat → List Nat} :
    Placed { s.push e.deliver e.msg with
        timer
        timeoutList
        events := update s.events ev none
        moved := s.moved ++ [r] } (update place e.msg (.queue e.deliver)) := by
  have hplace : place e.msg = .event ev := (h.event _ _).2 (by rw [hev]; rfl)
  have hother : ∀ {q}, q ≠ .event ev → place e.msg ≠ q := fun hq he => hq (he.symm.trans hplace)
  obtain ⟨hqueue, hnodup⟩ := h.queue_push (m := e.msg) (d := e.deliver) fun _ => hother nofun
  have hmsgs : (s.moved ++ [r]).map Moved.msg = s.moved.map Moved.msg ++ [e.msg] := by
    rw [List.map_append, List.map_singleton, hr]
  obtain ⟨hgone, hmoved⟩ := h.gone_of_event (p := .queue e.deliver) ⟨nofun, nofun⟩
    ((s.moved ++ [r]).map Moved.msg) s.cleared
    (fun m => by rw [hmsgs, List.mem_append, List.mem_singleton, or_right_comm])
    (fun m hm => by rwa [hmsgs, List.mem_append, List.mem_singleton] at hm)
  exact {
    new := fun m => kept_iff (h.new m) hplace nofun nofun
    event := h.event_drop hplace nofun
    queue := hqueue
    queue_nodup := hnodup
    hand := fun m d' => kept_iff (h.hand m d') hplace nofun nofun
    destroyed := fun m => kept_iff (h.destroyed m) hplace nofun nofun
    destroyed_nodup := h.destroyed_nodup
    delivered := h.delivered
    gone := hgone
    moved := hmoved
    moved_nodup := by
      show ((s.moved ++ [r]).map Moved.msg).Nodup
      rw [hmsgs]
      refine List.nodup_append.2 ⟨h.moved_nodup, List.nodup_singleton _, fun a ha b hb hab => ?_⟩
      rw [List.mem_singleton.1 hb] at hab
      exact (h.moved a ha).2 ev (by rw [hab]; exact hplace) }

/-- An event that is cleared: its message is destroyed. -/
theorem Placed.clear (h : Placed s place) (hev : s.events ev = some e) {timer : List Nat}
    {timeoutList : Nat → List Nat} :
    Placed { s with
        timer
        timeoutList
        events := update s.events ev none
        cleared := s.cleared ++ [e.msg]
        destroyed := s.destroyed ++ [e.msg] } (update place e.msg .destroyed) := by
  have hplace : place e.msg = .event ev := (h.event _ _).2 (by rw [hev]; rfl)
  have hother : ∀ {q}, q ≠ .event ev → place e.msg ≠ q := fun hq he => hq (he.symm.trans hplace)
  obtain ⟨hdestroyed, hnodup⟩ := h.destroys (m := e.msg) (hother nofun)
  obtain ⟨hgone, hmoved⟩ := h.gone_of_event (p := .destroyed) ⟨nofun, nofun⟩
    (s.moved.map Moved.msg) (s.cleared ++ [e.msg])
    (fun m => by rw [List.mem_append, List.mem_singleton, or_assoc]) (fun m hm => .inl hm)
  exact {
    new := fun m => kept_iff (h.new m) hplace nofun nofun
    event := h.event_drop hplace nofun
    queue := fun m d => kept_iff (h.queue m d) hplace nofun nofun
    queue_nodup := h.queue_nodup
    hand := fun m d' => kept_iff (h.hand m d') hplace nofun nofun
    destroyed := hdestroyed
    destroyed_nodup := hnodup
    delivered := h.delivered.trans (List.sublist_append_left _ _)
    gone := hgone
    moved := hmoved
    moved_nodup := h.moved_nodup }

/-- The delivery thread takes the first message. -/
theorem Placed.take (h : Placed s place) {ms : List Nat} (hhand : s.hand d = none)
    (hqueue : s.eventQueue d = m :: ms) :
    Placed { s with
        eventQueue := update s.eventQueue d ms
        hand := update s.hand d (some m) } (update place m (.hand d)) := by
  have hplace : place m = .queue d := (h.queue m d).2 (by rw [hqueue]; exact List.mem_cons_self)
  have hother : ∀ {q}, q ≠ .queue d → place m ≠ q := fun hq he => hq (he.symm.trans hplace)
  have hnodup := h.queue_nodup d
  rw [hqueue] at hnodup
  obtain ⟨hgone, hmoved⟩ := h.left (p := .hand d) (hother nofun) (fun _ => hother nofun)
    ⟨nofun, nofun⟩
  exact {
    new := fun m => kept_iff (h.new m) hplace nofun nofun
    event := fun m ev => kept_iff (h.event m ev) hplace nofun nofun
    queue := fun m' d' => by
      show _ ↔ m' ∈ update s.eventQueue d ms d'
      by_cases hd : d' = d
      · rw [hd, update_self, ← hplace, update_place_from (by rw [hplace]; nofun), hplace,
          h.queue, hqueue, List.mem_cons]
        refine ⟨fun hm => hm.1.resolve_left hm.2, fun hm => ⟨.inr hm, fun hmm => ?_⟩⟩
        exact (List.nodup_cons.1 hnodup).1 (hmm ▸ hm)
      · rw [update_of_ne hd, ← h.queue]
        exact update_place_iff (hother fun hq => hd (Place.queue.inj hq)) nofun
    queue_nodup := fun d' => by
      show (update s.eventQueue d ms d').Nodup
      by_cases hd : d' = d
      · rw [hd, update_self]
        exact (List.nodup_cons.1 hnodup).2
      · rw [update_of_ne hd]
        exact h.queue_nodup d'
    hand := fun m' d' => by
      show _ ↔ update s.hand d (some m) d' = some m'
      by_cases hd : d' = d
      · rw [hd, update_self, update_place_self, h.hand, hhand, Option.some_inj,
          or_iff_left nofun, eq_comm]
      · rw [update_of_ne hd, ← h.hand]
        exact update_place_iff (hother nofun) fun hq => hd (Place.hand.inj hq).symm
    destroyed := fun m => kept_iff (h.destroyed m) hplace nofun nofun
    destroyed_nodup := h.destroyed_nodup
    delivered := h.delivered
    gone := hgone
    moved := hmoved
    moved_nodup := h.moved_nodup }

/-- The message is delivered and destroyed. -/
theorem Placed.deliver (h : Placed s place) (hhand : s.hand d = some m) :
    Placed { s with
        hand := update s.hand d none
        delivered := s.delivered ++ [m]
        destroyed := s.destroyed ++ [m] } (update place m .destroyed) := by
  have hplace : place m = .hand d := (h.hand m d).2 hhand
  have hother : ∀ {q}, q ≠ .hand d → place m ≠ q := fun hq he => hq (he.symm.trans hplace)
  obtain ⟨hdestroyed, hnodup⟩ := h.destroys (m := m) (hother nofun)
  obtain ⟨hgone, hmoved⟩ := h.left (p := .destroyed) (hother nofun) (fun _ => hother nofun)
    ⟨nofun, nofun⟩
  exact {
    new := fun m => kept_iff (h.new m) hplace nofun nofun
    event := fun m ev => kept_iff (h.event m ev) hplace nofun nofun
    queue := fun m d => kept_iff (h.queue m d) hplace nofun nofun
    queue_nodup := h.queue_nodup
    hand := fun m' d' => by
      show _ ↔ update s.hand d none d' = some m'
      by_cases hd : d' = d
      · rw [hd, update_self, ← hplace, update_place_from (by rw [hplace]; nofun), hplace,
          h.hand, hhand, Option.some_inj]
        exact iff_of_false (fun hm => hm.2 hm.1.symm) nofun
      · rw [update_of_ne hd, ← h.hand]
        exact update_place_iff (hother fun hq => hd (Place.hand.inj hq)) nofun
    destroyed := hdestroyed
    destroyed_nodup := hnodup
    delivered := h.delivered.append (List.Sublist.refl [m])
    gone := hgone
    moved := hmoved
    moved_nodup := h.moved_nodup }

/-- The messages of a queue are cleared. -/
theorem Placed.clearQueue (h : Placed s place) (d : Nat) :
    Placed { s with
        eventQueue := update s.eventQueue d []
        cleared := s.cleared ++ s.eventQueue d
        destroyed := s.destroyed ++ s.eventQueue d }
      fun m => if place m = .queue d then .destroyed else place m := by
  have hkept : ∀ {m q}, q ≠ .queue d → q ≠ .destroyed →
      ((if place m = .queue d then Place.destroyed else place m) = q ↔ place m = q) := by
    intro m q hq hq'
    split
    · rename_i hm
      exact iff_of_false hq'.symm fun he => hq (he.symm.trans hm)
    · exact Iff.rfl
  exact {
    new := fun m => (hkept (q := .new) nofun nofun).trans (h.new m)
    event := fun m ev => (hkept (q := .event ev) nofun nofun).trans (h.event m ev)
    queue := fun m d' => by
      show _ ↔ m ∈ update s.eventQueue d [] d'
      by_cases hd : d' = d
      · rw [hd, update_self]
        refine iff_of_false (fun hm => ?_) List.not_mem_nil
        split at hm
        · cases hm
        · rename_i hno
          exact hno hm
      · rw [update_of_ne hd, ← h.queue]
        exact hkept (fun hq => hd (Place.queue.inj hq)) nofun
    queue_nodup := fun d' => by
      show (update s.eventQueue d [] d').Nodup
      by_cases hd : d' = d
      · rw [hd, update_self]
        exact List.nodup_nil
      · rw [update_of_ne hd]
        exact h.queue_nodup d'
    hand := fun m d' => (hkept (q := .hand d') nofun nofun).trans (h.hand m d')
    destroyed := fun m => by
      show _ ↔ m ∈ s.destroyed ++ s.eventQueue d
      rw [List.mem_append, ← h.destroyed, ← h.queue]
      split
      · rename_i hm
        exact iff_of_true rfl (.inr hm)
      · rename_i hm
        exact (or_iff_left hm).symm
    destroyed_nodup := by
      refine List.nodup_append.2 ⟨h.destroyed_nodup, h.queue_nodup d, fun a ha b hb hab => ?_⟩
      have hdes := (h.destroyed a).2 ha
      rw [hab, (h.queue b d).2 hb] at hdes
      cases hdes
    delivered := h.delivered.trans (List.sublist_append_left _ _)
    gone := fun m hm hev => by
      show m ∈ s.moved.map Moved.msg ∨ m ∈ s.cleared ++ s.eventQueue d
      rw [List.mem_append, ← or_assoc]
      refine .inl (h.gone m (fun hn => hm ((hkept (q := .new) nofun nofun).2 hn))
        fun ev he => ?_)
      exact hev ev ((hkept (q := .event ev) nofun nofun).2 he)
    moved := fun m hm => by
      obtain ⟨hn, he⟩ := h.moved m hm
      exact ⟨fun hn' => hn ((hkept (q := .new) nofun nofun).1 hn'), fun ev he' =>
        he ev ((hkept (q := .event ev) nofun nofun).1 he')⟩
    moved_nodup := h.moved_nodup }

end Moves

end Melis.Libcore
