import Melis.Lib.C
import Mathlib.Data.List.TakeWhile

/-!
# Searches in C strings

A pointer into a string is the rest of the string from there on: `p` stands before `q` where `p`
is the longer one. `strchr`, `strrchr` and `strstr` give such a rest, and `strncpy` takes the
bytes between two of them; a negative length has no result.
-/

namespace Melis.Lib

variable {s t p q a b : CStr} {c d : Char} {n : Int}

def strchr : CStr → Char → Option CStr
  | [], _ => none
  | d :: s, c => if d = c then some (d :: s) else strchr s c

/-- The last one. -/
def strrchr : CStr → Char → Option CStr
  | [], _ => none
  | d :: s, c => (strrchr s c).or (if d = c then some (d :: s) else none)

def strstr : CStr → CStr → Option CStr
  | [], t => if t = [] then some [] else none
  | d :: s, t => if t.isPrefixOf (d :: s) then some (d :: s) else strstr s t

/-- `n` bytes from `p`, fewer where the string ends. -/
def strncpy (p : CStr) (n : Int) : Option CStr := if 0 ≤ n then some (p.take n.toNat) else none

/-- The digits that `atoi` reads. -/
def atoiDigits (s : CStr) : Nat :=
  (s.takeWhile Char.isDigit).foldl (fun n d => 10 * n + (d.toNat - '0'.toNat)) 0

/-- The blanks that `atoi` skips. -/
def isspace (c : Char) : Bool := c = ' ' || ('\t' ≤ c && c ≤ '\r')

def atoi (s : CStr) : Int :=
  match s.dropWhile isspace with
  | '-' :: r => -(atoiDigits r : Int)
  | '+' :: r => atoiDigits r
  | r => atoiDigits r

/-! ## `atoi` -/

/-- Without a blank or a sign in front the digits are read. -/
theorem atoi_eq (h : ∀ c ∈ s.head?, isspace c = false ∧ c ≠ '-' ∧ c ≠ '+') :
    atoi s = atoiDigits s := by
  cases s with
  | nil => rfl
  | cons c s =>
    obtain ⟨hblank, hminus, hplus⟩ := h c rfl
    have hdrop : (c :: s).dropWhile isspace = c :: s := by simp [hblank]
    unfold atoi
    rw [hdrop]
    split
    next heq => exact absurd (List.cons.inj heq).1 hminus
    next heq => exact absurd (List.cons.inj heq).1 hplus
    next => rfl

/-- The digits end before what is none. -/
theorem atoiDigits_append (ha : ∀ c ∈ a, c.isDigit) (hb : ∀ c ∈ b.head?, c.isDigit = false) :
    atoiDigits (a ++ b) = atoiDigits a := by
  have htake : b.takeWhile Char.isDigit = [] := by
    cases b with
    | nil => rfl
    | cons c b => simp [hb c rfl]
  have hwhole : a.takeWhile Char.isDigit = a := List.takeWhile_eq_self_iff.2 ha
  unfold atoiDigits
  rw [List.takeWhile_append_of_pos ha, htake, List.append_nil, hwhole]

theorem plain_of_isDigit (h : c.isDigit) : isspace c = false ∧ c ≠ '-' ∧ c ≠ '+' := by
  have hle : '0' ≤ c := by
    simp only [Char.isDigit, Bool.and_eq_true, decide_eq_true_eq] at h
    exact h.1
  refine ⟨?_, ?_, ?_⟩
  · by_contra hblank
    simp only [isspace, Bool.not_eq_false, Bool.or_eq_true, Bool.and_eq_true,
      decide_eq_true_eq] at hblank
    rcases hblank with rfl | ⟨-, hle'⟩
    · exact absurd hle (by decide)
    · exact absurd (Char.le_trans hle hle') (by decide)
  · rintro rfl
    exact absurd h (by decide)
  · rintro rfl
    exact absurd h (by decide)

/-! ## `strchr` -/

theorem strchr_append (h : c ∉ a) : strchr (a ++ c :: b) c = some (c :: b) := by
  induction a with
  | nil => exact if_pos rfl
  | cons d a ih =>
    rw [List.mem_cons, not_or] at h
    rw [List.cons_append, strchr, if_neg (Ne.symm h.1)]
    exact ih h.2

theorem strchr_eq_none : strchr s c = none ↔ c ∉ s := by
  induction s with
  | nil => simp [strchr]
  | cons d s ih =>
    unfold strchr
    split
    next h => simp [h]
    next h => simp [ih, Ne.symm h]

/-- What `strchr` finds, and what it has passed by. -/
theorem strchr_eq_some : strchr s c = some q ↔ ∃ a b, s = a ++ q ∧ q = c :: b ∧ c ∉ a := by
  constructor
  · intro h
    induction s with
    | nil => cases h
    | cons d s ih =>
      unfold strchr at h
      split at h
      next hd =>
        cases h
        exact ⟨[], s, rfl, by rw [hd], List.not_mem_nil⟩
      next hd =>
        obtain ⟨a, b, rfl, hq, ha⟩ := ih h
        exact ⟨d :: a, b, rfl, hq, by simp [ha, Ne.symm hd]⟩
  · rintro ⟨a, b, rfl, rfl, ha⟩
    exact strchr_append ha

theorem length_strchr (h : strchr s c = some q) : 0 < q.length ∧ q.length ≤ s.length := by
  obtain ⟨a, b, rfl, rfl, -⟩ := strchr_eq_some.1 h
  simp

/-! ## `strrchr` -/

theorem strrchr_eq_none : strrchr s c = none ↔ c ∉ s := by
  induction s with
  | nil => simp [strrchr]
  | cons d s ih =>
    by_cases h : d = c
    · simp [strrchr, h]
    · simp [strrchr, ih, h, Ne.symm h]

theorem strrchr_append (h : c ∉ b) : strrchr (a ++ c :: b) c = some (c :: b) := by
  induction a with
  | nil => simp [strrchr, strrchr_eq_none.2 h]
  | cons d a ih => simp [strrchr, ih]

theorem strrchr_eq_some : strrchr s c = some q ↔ ∃ a b, s = a ++ q ∧ q = c :: b ∧ c ∉ b := by
  constructor
  · intro h
    induction s with
    | nil => cases h
    | cons d s ih =>
      unfold strrchr at h
      cases hs : strrchr s c with
      | some r =>
        rw [hs, Option.some_or] at h
        cases h
        obtain ⟨a, b, rfl, hq, hb⟩ := ih hs
        exact ⟨d :: a, b, rfl, hq, hb⟩
      | none =>
        rw [hs, Option.none_or] at h
        split at h
        next hd =>
          cases h
          exact ⟨[], s, rfl, by rw [hd], strrchr_eq_none.1 hs⟩
        next hd => cases h
  · rintro ⟨a, b, rfl, rfl, hb⟩
    exact strrchr_append hb

theorem length_strrchr (h : strrchr s c = some q) : 0 < q.length ∧ q.length ≤ s.length := by
  obtain ⟨a, b, rfl, rfl, -⟩ := strrchr_eq_some.1 h
  simp

/-! ## `strstr` -/

@[simp] theorem strstr_singleton : strstr s [c] = strchr s c := by
  induction s with
  | nil => rfl
  | cons d s ih =>
    unfold strstr strchr
    by_cases h : c = d
    · simp [h]
    · simp [h, Ne.symm h, ih]

theorem strstr_eq_none (ht : t ≠ []) : strstr s t = none ↔ ¬ t <:+: s := by
  induction s with
  | nil => simp [strstr, ht]
  | cons d s ih =>
    unfold strstr
    split
    next h => simp [List.IsPrefix.isInfix (List.isPrefixOf_iff_prefix.1 h)]
    next h =>
      rw [ih, List.infix_cons_iff, not_or, List.isPrefixOf_iff_prefix] at *
      exact (and_iff_right h).symm

/-- What `strstr` finds stands first in the string. -/
theorem strstr_eq_some (ht : t ≠ []) : strstr s t = some q ↔
    ∃ a, s = a ++ q ∧ t <+: q ∧ ∀ a' q', s = a' ++ q' → t <+: q' → a.length ≤ a'.length := by
  constructor
  · intro h
    induction s with
    | nil => simp [strstr, ht] at h
    | cons d s ih =>
      unfold strstr at h
      split at h
      next hpre =>
        cases h
        exact ⟨[], rfl, List.isPrefixOf_iff_prefix.1 hpre, fun _ _ _ _ => Nat.zero_le _⟩
      next hpre =>
        obtain ⟨a, rfl, hq, hfirst⟩ := ih h
        refine ⟨d :: a, rfl, hq, fun a' q' heq hpre' => ?_⟩
        cases a' with
        | nil =>
          rw [List.nil_append] at heq
          rw [← heq] at hpre'
          exact absurd (List.isPrefixOf_iff_prefix.2 hpre') hpre
        | cons e a' =>
          obtain ⟨-, heq⟩ := List.cons.inj heq
          exact Nat.succ_le_succ (hfirst a' q' heq hpre')
  · rintro ⟨a, rfl, hq, hfirst⟩
    induction a with
    | nil =>
      cases q with
      | nil => exact absurd (List.prefix_nil.1 hq) ht
      | cons e q => exact if_pos (List.isPrefixOf_iff_prefix.2 hq)
    | cons d a ih =>
      rw [List.cons_append, strstr, if_neg]
      · refine ih fun a' q' heq hpre => ?_
        exact Nat.le_of_succ_le_succ (hfirst (d :: a') q' (congrArg (d :: ·) heq) hpre)
      · intro hpre
        exact absurd (hfirst [] _ rfl (List.isPrefixOf_iff_prefix.1 hpre)) (by simp)

theorem strncpy_eq (hn : 0 ≤ n) : strncpy p n = some (p.take n.toNat) := if_pos hn

/-- The bytes up to a pointer behind. -/
theorem strncpy_append (h : n = (a ++ q).length - q.length) : strncpy (a ++ q) n = some a := by
  have hn : n = a.length := by
    rw [h, List.length_append]
    omega
  rw [hn, strncpy_eq (Int.natCast_nonneg _), Int.toNat_natCast, List.take_left]

end Melis.Lib
