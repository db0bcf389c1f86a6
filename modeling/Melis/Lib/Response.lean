import Melis.Lib.Run

/-!
# Responses in a run

`LeadsTo C D s is` says that in the run from `s` over `is` every step that
satisfies `C` is followed by one that satisfies `D`, which may be the step
itself. A machine may keep the list of its events in its state, the last one
first; `Answered bad good` says of such a list that every bad event has a good
one after it. `answered_iff` connects the two, for a machine whose steps put
their events in front of the list.
-/

namespace Melis.Lib

universe u v w

/-! ## Lists of events -/

section

variable {ε : Type w} {bad good : ε → Prop} {es fs : List ε}

/-- Every bad event has a good one after it. -/
def Answered (bad good : ε → Prop) (es : List ε) : Prop :=
  ∀ post e pre, es = post ++ e :: pre → bad e → ∃ g ∈ post, good g

theorem answered_nil : Answered bad good [] := by
  intro post e pre h
  cases post <;> cases h

theorem answered_append :
    Answered bad good (fs ++ es) ↔
      Answered bad good fs ∧ (Answered bad good es ∨ ∃ g ∈ fs, good g) := by
  constructor
  · intro h
    refine ⟨fun post e pre he hbad => ?_, ?_⟩
    · exact h post e (pre ++ es) (by rw [he, List.append_assoc, List.cons_append]) hbad
    · by_cases hg : ∃ g ∈ fs, good g
      · exact .inr hg
      · refine .inl fun post e pre he hbad => ?_
        obtain ⟨g, hmem, hgood⟩ := h (fs ++ post) e pre (by rw [he, List.append_assoc]) hbad
        rcases List.mem_append.1 hmem with hf | hp
        · exact absurd ⟨g, hf, hgood⟩ hg
        · exact ⟨g, hp, hgood⟩
  · rintro ⟨hf, he⟩ post e pre hsplit hbad
    rcases List.append_eq_append_iff.1 hsplit with ⟨as, hpost, hes⟩ | ⟨bs, hfs, hpre⟩
    · -- the event is in `es`
      rcases he with he | ⟨g, hmem, hgood⟩
      · obtain ⟨g, hmem, hgood⟩ := he as e pre hes hbad
        exact ⟨g, hpost ▸ List.mem_append_right _ hmem, hgood⟩
      · exact ⟨g, hpost ▸ List.mem_append_left _ hmem, hgood⟩
    · cases bs with
      | nil =>
        rw [List.append_nil] at hfs
        rw [List.nil_append] at hpre
        rcases he with he | ⟨g, hmem, hgood⟩
        · obtain ⟨g, hmem, -⟩ := he [] e pre hpre.symm hbad
          cases hmem
        · exact ⟨g, hfs ▸ hmem, hgood⟩
      | cons b bs =>
        rw [List.cons_append] at hpre
        obtain ⟨rfl, -⟩ := List.cons.inj hpre
        exact hf post e bs hfs hbad

/-- Where no good event stands before the head, only the head answers. -/
theorem answered_cons (e : ε) (h : ∀ f ∈ es, ¬ good f) (he : ¬ bad e) :
    Answered bad good (e :: es) ↔ ((∃ f ∈ es, bad f) → good e) := by
  constructor
  · rintro ha ⟨f, hf, hbad⟩
    obtain ⟨as, bs, rfl⟩ := List.append_of_mem hf
    obtain ⟨g, hmem, hgood⟩ := ha (e :: as) f bs rfl hbad
    rcases List.mem_cons.1 hmem with rfl | hmem
    · exact hgood
    · exact absurd hgood (h g (List.mem_append_left _ hmem))
  · intro hg post f pre hsplit hbad
    cases post with
    | nil =>
      cases hsplit
      exact absurd hbad he
    | cons p post =>
      obtain ⟨rfl, rfl⟩ := List.cons.inj hsplit
      exact ⟨e, List.mem_cons_self, hg ⟨f, by simp, hbad⟩⟩

end

namespace Machine

variable {σ : Type u} {ι : Type v} (M : Machine σ ι)

/-- Some step of the run satisfies `D` in the state before it. -/
def Eventually (D : σ → ι → Prop) : σ → List ι → Prop
  | _, [] => False
  | s, i :: is => D s i ∨ ∃ s', M.next s i = some s' ∧ Eventually D s' is

/-- Every step that satisfies `C` is followed by one that satisfies `D`. -/
def LeadsTo (C D : σ → ι → Prop) : σ → List ι → Prop
  | _, [] => True
  | s, i :: is =>
    (C s i → M.Eventually D s (i :: is)) ∧ ∀ s', M.next s i = some s' → LeadsTo C D s' is

/-- What a step does to a list of events: it puts `fs` in front of it, in which a
bad event is answered only if the step satisfies `D`. -/
structure Logs {ε : Type w} (bad good : ε → Prop) (C D : Prop) (es es' fs : List ε) : Prop where
  eq : es' = fs ++ es
  answered : Answered bad good fs ↔ (C → D)
  good : (∃ g ∈ fs, good g) ↔ D

variable {M} {ε : Type w} {bad good : ε → Prop} {C D : σ → ι → Prop} {I : σ → Prop}
  {out : σ → List ε} {s s' : σ} {is : List ι}

/-- The bad events of a run have their answers exactly if the steps do. -/
theorem answered_iff
    (hstep : ∀ s i s', I s → M.next s i = some s' →
      I s' ∧ ∃ fs, Logs bad good (C s i) (D s i) (out s) (out s') fs)
    (h0 : I s) (hr : M.run s is = some s') :
    Answered bad good (out s') ↔
      M.LeadsTo C D s is ∧ (Answered bad good (out s) ∨ M.Eventually D s is) := by
  induction is generalizing s with
  | nil =>
    cases hr
    simp [LeadsTo, Eventually]
  | cons i is ih =>
    obtain ⟨t, ht, hr⟩ := run_cons_eq_some.1 hr
    obtain ⟨hI, fs, hfs⟩ := hstep s i t h0 ht
    have hev : M.Eventually D s (i :: is) ↔ D s i ∨ M.Eventually D t is := by
      simp [Eventually, ht]
    have hlead : M.LeadsTo C D s (i :: is) ↔
        (C s i → D s i ∨ M.Eventually D t is) ∧ M.LeadsTo C D t is := by
      simp [LeadsTo, hev, ht]
    rw [ih hI hr, hfs.eq, answered_append, hfs.answered, hfs.good, hlead, hev]
    tauto

end Machine

end Melis.Lib
