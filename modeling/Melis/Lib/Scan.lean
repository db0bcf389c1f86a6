import Mathlib.Data.List.TakeWhile

/-!
# Scans of a buffer

`scan stop n l` reads from the front of `l` up to an element at which it stops, and no more than
`n` elements; it is `none` where it would read behind the end of `l`. The elements read and the
rest are those of `List.takeWhile` and `List.drop` (`scan_eq_some`).
-/

namespace Melis.Lib

variable {α : Type*} {stop : α → Bool} {n : Nat} {l w r : List α}

def scan (stop : α → Bool) : Nat → List α → Option (List α × List α)
  | 0, l => some ([], l)
  | _ + 1, [] => none
  | n + 1, a :: l =>
    if stop a then some ([], a :: l) else (scan stop n l).map fun x => (a :: x.1, x.2)

/-- A scan without a limit. -/
def scanAll (stop : α → Bool) (l : List α) : Option (List α × List α) :=
  scan stop (l.length + 1) l

/-- What a scan reads. -/
def scanned (stop : α → Bool) (n : Nat) (l : List α) : List α :=
  (l.takeWhile fun a => !stop a).take n

theorem scanned_cons {a : α} (h : stop a = false) :
    scanned stop (n + 1) (a :: l) = a :: scanned stop n l := by
  simp [scanned, h]

theorem scanned_of_stop {a : α} (h : stop a) : scanned stop n (a :: l) = [] := by
  simp [scanned, h]

theorem length_scanned_le (stop : α → Bool) (n : Nat) (l : List α) :
    (scanned stop n l).length ≤ n := List.length_take_le _ _

theorem scanned_of_forall (h : ∀ a ∈ l, stop a = false) : scanned stop n l = l.take n := by
  rw [scanned, List.takeWhile_eq_self_iff.2 (by simpa using h)]

/-- A scan leaves the element at which it stops. -/
theorem length_scanned_lt {a : α} (ha : a ∈ l) (hstop : stop a) :
    (scanned stop n l).length < l.length := by
  have hsub := List.takeWhile_sublist (fun a => !stop a) (l := l)
  have hne : (l.takeWhile fun a => !stop a).length ≠ l.length := fun heq => by
    have hall := List.takeWhile_eq_self_iff.1 (hsub.eq_of_length heq) a ha
    simp [hstop] at hall
  exact Nat.lt_of_le_of_lt (List.length_take_le' _ _) (Nat.lt_of_le_of_ne hsub.length_le hne)

theorem of_mem_scanned {a : α} (h : a ∈ scanned stop n l) : stop a = false := by
  simpa using List.mem_takeWhile_imp (List.mem_of_mem_take h)

theorem scanned_append_drop (stop : α → Bool) (n : Nat) (l : List α) :
    scanned stop n l ++ l.drop (scanned stop n l).length = l :=
  List.prefix_iff_eq_append.1 ((List.take_prefix _ _).trans (List.takeWhile_prefix _))

theorem dropWhile_eq_cons {p : α → Bool} {a : α} (ha : a ∈ l) (hp : p a = false) :
    ∃ b r, l.dropWhile p = b :: r ∧ p b = false := by
  have hne : l.dropWhile p ≠ [] := fun hnil => by
    simp [List.dropWhile_eq_nil_iff.1 hnil a ha] at hp
  cases hdrop : l.dropWhile p with
  | nil => exact absurd hdrop hne
  | cons b r =>
    have hhead := List.head_dropWhile_not p hne
    simp only [hdrop, List.head_cons] at hhead
    exact ⟨b, r, rfl, hhead⟩

theorem scan_eq_none : scan stop n l = none ↔ l.length < n ∧ ∀ a ∈ l, stop a = false := by
  induction l generalizing n with
  | nil => cases n <;> simp [scan]
  | cons a l ih =>
    cases n with
    | zero => simp [scan]
    | succ n =>
      by_cases ha : stop a
      · simp [scan, ha]
      · simp [scan, ha, ih]

theorem scan_of_ne_none (h : scan stop n l ≠ none) :
    scan stop n l = some (scanned stop n l, l.drop (scanned stop n l).length) := by
  induction l generalizing n with
  | nil =>
    cases n with
    | zero => rfl
    | succ n => exact absurd rfl h
  | cons a l ih =>
    cases n with
    | zero => simp [scan, scanned]
    | succ n =>
      by_cases ha : stop a
      · simp [scan, scanned, ha]
      · have ha' : stop a = false := by simpa using ha
        have htail : scan stop n l ≠ none := fun hnone => h (by simp [scan, ha', hnone])
        rw [scanned_cons ha', scan, if_neg ha, ih htail]
        rfl

theorem scan_eq_some (h : scan stop n l = some (w, r)) :
    w = scanned stop n l ∧ r = l.drop w.length := by
  have heq := h.symm.trans (scan_of_ne_none (by simp [h]))
  cases heq
  exact ⟨rfl, rfl⟩

theorem scanAll_eq_none : scanAll stop l = none ↔ ∀ a ∈ l, stop a = false := by
  simp [scanAll, scan_eq_none]

/-- A scan without a limit ends at the first element at which it stops. -/
theorem scanAll_of_mem {a : α} (ha : a ∈ l) (hstop : stop a) :
    scanAll stop l = some (l.takeWhile fun a => !stop a, l.dropWhile fun a => !stop a) := by
  have hne : scanAll stop l ≠ none := fun h => by
    simp [scanAll_eq_none.1 h a ha] at hstop
  have hread : scanned stop (l.length + 1) l = l.takeWhile fun a => !stop a :=
    List.take_of_length_le (Nat.le_succ_of_le (List.takeWhile_sublist _).length_le)
  have hrest : l.drop (l.takeWhile fun a => !stop a).length = l.dropWhile fun a => !stop a :=
    (congrArg (List.drop _) List.takeWhile_append_dropWhile.symm).trans List.drop_left
  rw [scanAll, scan_of_ne_none hne, hread, hrest]

/-- A scan that goes on without a limit ends where one without a limit does. -/
theorem scanAll_behind {a : α} (ha : a ∈ l) (hstop : stop a) :
    ∃ w, scanAll stop (l.drop (scanned stop n l).length) = some (w, l.dropWhile fun a => !stop a) := by
  have happ := scanned_append_drop stop n l
  have hread : ∀ b ∈ scanned stop n l, (fun a => !stop a) b := fun b hb => by
    simp [of_mem_scanned hb]
  have hmem : a ∈ l.drop (scanned stop n l).length := by
    rw [← happ, List.mem_append] at ha
    exact ha.resolve_left fun hb => by simp [of_mem_scanned hb] at hstop
  have hrest : (l.drop (scanned stop n l).length).dropWhile (fun a => !stop a) =
      l.dropWhile fun a => !stop a :=
    (List.dropWhile_append_of_pos hread).symm.trans (congrArg _ happ)
  exact ⟨_, hrest ▸ scanAll_of_mem hmem hstop⟩

end Melis.Lib
