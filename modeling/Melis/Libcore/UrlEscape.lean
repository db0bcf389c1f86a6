import Melis.Libcore.CdxParseUrl

/-!
# What escaping does

The parts that `CdxUrlEscapeString` cuts do not show in what it writes (`escapeLoop_eq`): each
character is written out or escaped by itself, and only a `%` looks at the two behind it. The
characters that are kept stand in the output where they stood (`esc_split`), so the
output is cut in the same way and escaping it again changes nothing.
-/

namespace Melis.Libcore

open Lib

variable {s a b x y cs rest : CStr} {c d : Char} {n fuel : Nat}

/-! ## One character -/

theorem mem_kept (h : kept c) : c ∈ ['-', '_', '.', '!', '~', '*', '\'', '(', ')', ';', '/', '?',
    ':', '@', '&', '=', '+', '$', ',', '[', ']'] := List.contains_iff_mem.1 h

/-- A character that is kept is no part of an escape sequence. -/
theorem kept_plain (h : kept c) : isHex c = false ∧ alnum c = false ∧ c ≠ '%' := by
  have hall : ['-', '_', '.', '!', '~', '*', '\'', '(', ')', ';', '/', '?', ':', '@', '&', '=', '+',
      '$', ',', '[', ']'].all fun c => decide (isHex c = false ∧ alnum c = false ∧ c ≠ '%') := by
    decide
  exact of_decide_eq_true (List.all_eq_true.1 hall c (mem_kept h))

theorem alnum_of_isHex (h : isHex c) : alnum c := by
  unfold isHex at h
  unfold alnum
  simp only [Bool.or_eq_true, Bool.and_eq_true, decide_eq_true_eq] at h ⊢
  have hF : c ≤ 'F' → c ≤ 'Z' := fun h => Char.le_trans h (by decide)
  have hf : c ≤ 'f' → c ≤ 'z' := fun h => Char.le_trans h (by decide)
  tauto

theorem not_kept_of_alnum (h : alnum c) : kept c = false := by
  by_contra hk
  rw [Bool.not_eq_false] at hk
  rw [(kept_plain hk).2.1] at h
  cases h

theorem isHex_hexDigit (hn : n < 16) : isHex (hexDigit n) := by
  revert n
  decide

theorem not_kept_percent : ∀ d ∈ percent c, kept d = false := by
  intro d hd
  have h1 : c.toNat / 16 % 16 < 16 := Nat.mod_lt _ (by decide)
  have h2 : c.toNat % 16 < 16 := Nat.mod_lt _ (by decide)
  simp only [percent, List.mem_cons, List.not_mem_nil, or_false] at hd
  rcases hd with rfl | rfl | rfl
  · decide
  · exact not_kept_of_alnum (alnum_of_isHex (isHex_hexDigit h1))
  · exact not_kept_of_alnum (alnum_of_isHex (isHex_hexDigit h2))

/-! ## The whole string -/

/-- What is written for `c` before `cs`. -/
def escChar (c : Char) (cs : CStr) : CStr :=
  if kept c || alnum c then [c] else if c = '%' ∧ hexPair cs then [c] else percent c

def esc : CStr → CStr
  | [] => []
  | c :: cs => escChar c cs ++ esc cs

/-- The string does not go on with a hexadecimal digit. -/
def Apart (s : CStr) : Prop := ∀ d ∈ s.head?, isHex d = false

theorem apart_nil : Apart [] := fun _ h => nomatch h

theorem apart_cons (h : kept d) : Apart (d :: y) := by
  rintro e he
  cases he
  exact (kept_plain h).1

theorem hexPair_append (h : Apart b) : hexPair (a ++ b) = hexPair a := by
  match a, b with
  | [], [] => rfl
  | [], [d] => rfl
  | [], d :: e :: r =>
    have hd : isHex d = false := h d rfl
    simp [hexPair, hd]
  | [c], [] => rfl
  | [c], d :: r =>
    have hd : isHex d = false := h d rfl
    simp [hexPair, hd]
  | c :: e :: r, _ => rfl

theorem escChar_append (h : Apart b) : escChar c (a ++ b) = escChar c a := by
  unfold escChar
  rw [hexPair_append h]

theorem esc_append (h : Apart b) : esc (a ++ b) = esc a ++ esc b := by
  induction a with
  | nil => rfl
  | cons c a ih => rw [List.cons_append, esc, esc, escChar_append h, ih, List.append_assoc]

@[simp] theorem esc_nil : esc [] = [] := rfl

@[simp] theorem esc_kept (h : kept d) : esc (d :: y) = d :: esc y := by
  have hchar : escChar d y = [d] := by simp [escChar, h]
  rw [esc, hchar, List.singleton_append]

theorem esc_append_kept (h : kept d) : esc (a ++ d :: y) = esc a ++ d :: esc y := by
  rw [esc_append (apart_cons h), esc_kept h]

theorem esc_alnum (h : ∀ c ∈ a, alnum c) : esc a = a := by
  induction a with
  | nil => rfl
  | cons c a ih =>
    obtain ⟨hc, ha⟩ := List.forall_mem_cons.1 h
    have hchar : escChar c a = [c] := by simp [escChar, hc]
    rw [esc, hchar, ih ha, List.singleton_append]

/-- A part without characters that are kept. -/
theorem escapePart_eq (h : ∀ c ∈ a, kept c = false) : CdxUrlEscapeStringPart a = esc a := by
  induction a with
  | nil => rfl
  | cons c a ih =>
    obtain ⟨hc, ha⟩ := List.forall_mem_cons.1 h
    rw [CdxUrlEscapeStringPart, esc, ih ha, escChar, hc, Bool.false_or]

theorem escapeLoop_eq (h : s.length ≤ fuel) : escapeLoop fuel s = esc s := by
  induction fuel generalizing s with
  | zero =>
    obtain rfl := List.eq_nil_of_length_eq_zero (Nat.le_zero.1 h)
    rfl
  | succ fuel ih =>
    cases s with
    | nil => rfl
    | cons c s =>
      have hs : s.length ≤ fuel := Nat.le_of_succ_le_succ h
      unfold escapeLoop
      split
      next hc => rw [ih hs, esc_kept hc]
      next hc =>
        have hdrop : ((c :: s).dropWhile fun c => !kept c) = s.dropWhile fun c => !kept c := by
          simp [hc]
        have hpart : ∀ d ∈ (c :: s).takeWhile fun c => !kept c, kept d = false := fun d hd => by
          simpa using List.mem_takeWhile_imp hd
        have hrest : Apart ((c :: s).dropWhile fun c => !kept c) := by
          intro d hd
          have hne : ((c :: s).dropWhile fun c => !kept c) ≠ [] := by
            rintro hnil
            rw [hnil] at hd
            cases hd
          have hnot := List.head_dropWhile_not (fun c => !kept c) hne
          rw [List.head?_eq_some_head hne] at hd
          cases hd
          exact (kept_plain (by simpa using hnot)).1
        have hlen : ((c :: s).dropWhile fun c => !kept c).length ≤ fuel := by
          rw [hdrop]
          exact (List.dropWhile_sublist _).length_le.trans hs
        rw [escapePart_eq hpart, ih hlen, ← esc_append hrest, List.takeWhile_append_dropWhile]

/-- At most three bytes for each. -/
theorem length_esc : (esc s).length ≤ 3 * s.length := by
  induction s with
  | nil => exact Nat.le_refl 0
  | cons c s ih =>
    have hchar : (escChar c s).length ≤ 3 := by
      unfold escChar
      split
      · exact Nat.le_add_left 1 2
      · split
        · exact Nat.le_add_left 1 2
        · exact Nat.le_refl 3
    rw [esc, List.length_append, List.length_cons]
    omega

theorem hexPair_esc (h : hexPair s) : hexPair (esc s) := by
  match s, h with
  | c :: d :: r, h =>
    obtain ⟨hc, hd⟩ := Bool.and_eq_true_iff.1 h
    have hesc : esc (c :: d :: r) = c :: d :: esc r := by
      simp [esc, escChar, alnum_of_isHex hc, alnum_of_isHex hd]
    rw [hesc]
    exact h

/-- What has been escaped stays as it is. -/
theorem esc_esc : esc (esc s) = esc s := by
  induction s with
  | nil => rfl
  | cons c s ih =>
    by_cases hkeep : kept c || alnum c
    · have hchar : ∀ y, escChar c y = [c] := fun y => by simp [escChar, hkeep]
      rw [esc, hchar, List.singleton_append, esc, hchar, ih, List.singleton_append]
    · by_cases hpair : c = '%' ∧ hexPair s
      · have hchar : ∀ y, hexPair y → escChar c y = [c] := fun y hy => by
          simp [escChar, hpair.1, hy]
        rw [esc, hchar s hpair.2, List.singleton_append, esc, hchar _ (hexPair_esc hpair.2), ih,
          List.singleton_append]
      · have hchar : escChar c s = percent c := by simp only [escChar, hkeep, hpair, if_false]; rfl
        have h1 : isHex (hexDigit (c.toNat / 16 % 16)) := isHex_hexDigit (Nat.mod_lt _ (by decide))
        have h2 : isHex (hexDigit (c.toNat % 16)) := isHex_hexDigit (Nat.mod_lt _ (by decide))
        have hpercent : ∀ y, esc (percent c ++ y) = percent c ++ esc y := fun y => by
          simp [percent, esc, escChar, hexPair, h1, h2, alnum_of_isHex h1, alnum_of_isHex h2]
        rw [esc, hchar, hpercent, ih]

/-- A character that is kept stands in the output where it stood. -/
theorem esc_split (h : kept d) (hs : esc s = x ++ d :: y) :
    ∃ a b, s = a ++ d :: b ∧ esc a = x ∧ esc b = y := by
  induction s generalizing x with
  | nil =>
    rw [esc_nil] at hs
    cases x <;> cases hs
  | cons c s ih =>
    rw [esc] at hs
    by_cases hc : kept c
    · have hchar : escChar c s = [c] := by simp [escChar, hc]
      rw [hchar, List.singleton_append] at hs
      cases x with
      | nil =>
        obtain ⟨rfl, rfl⟩ := List.cons.inj hs
        exact ⟨[], s, rfl, rfl, rfl⟩
      | cons e x =>
        obtain ⟨rfl, hrest⟩ := List.cons.inj hs
        obtain ⟨a, b, rfl, rfl, hb⟩ := ih hrest
        exact ⟨c :: a, b, rfl, esc_kept hc, hb⟩
    · -- nothing that is written for `c` is kept
      have hnot : ∀ e ∈ escChar c s, kept e = false := by
        intro e he
        unfold escChar at he
        split at he
        next hor =>
          obtain rfl := List.mem_singleton.1 he
          exact not_kept_of_alnum ((Bool.or_eq_true_iff.1 hor).resolve_left hc)
        next =>
          split at he
          next hand =>
            obtain rfl := List.mem_singleton.1 he
            rw [hand.1]
            decide
          next => exact not_kept_percent e he
      rcases List.append_eq_append_iff.1 hs with ⟨z, rfl, hz⟩ | ⟨z, hz, hd⟩
      · obtain ⟨a, b, rfl, rfl, hb⟩ := ih hz
        refine ⟨c :: a, b, rfl, ?_, hb⟩
        rw [esc, escChar_append (apart_cons h)]
      · cases z with
        | nil =>
          rw [List.append_nil] at hz
          rw [List.nil_append] at hd
          obtain ⟨a, b, rfl, ha, hb⟩ := ih (x := []) hd.symm
          refine ⟨c :: a, b, rfl, ?_, hb⟩
          rw [esc, ha, List.append_nil, ← hz, escChar_append (apart_cons h)]
        | cons e z =>
          obtain ⟨rfl, -⟩ := List.cons.inj hd
          have hmem : d ∈ escChar c s := by simp [hz]
          rw [hnot d hmem] at h
          cases h

theorem mem_esc (h : kept d) : d ∈ esc s ↔ d ∈ s := by
  constructor
  · intro hd
    obtain ⟨x, y, hxy⟩ := List.append_of_mem hd
    obtain ⟨a, b, rfl, -⟩ := esc_split h hxy
    exact List.mem_append_right _ List.mem_cons_self
  · intro hd
    obtain ⟨a, b, rfl⟩ := List.append_of_mem hd
    rw [esc_append_kept h]
    exact List.mem_append_right _ List.mem_cons_self

theorem esc_eq_nil : esc s = [] ↔ s = [] := by
  cases s with
  | nil => exact iff_of_true rfl rfl
  | cons c s =>
    have hchar : escChar c s ≠ [] := by
      unfold escChar
      split
      · exact List.cons_ne_nil _ _
      · split
        · exact List.cons_ne_nil _ _
        · exact List.cons_ne_nil _ _
    exact iff_of_false (fun h => hchar (List.append_eq_nil_iff.1 h).1) (List.cons_ne_nil _ _)

/-- A text of such characters in front is what stood there. -/
theorem esc_eq_text {t : CStr} (h : ∀ d ∈ t, kept d) (hs : esc s = t ++ y) :
    ∃ b, s = t ++ b ∧ esc b = y := by
  induction t generalizing s with
  | nil => exact ⟨s, rfl, hs⟩
  | cons d t ih =>
    obtain ⟨hd, ht⟩ := List.forall_mem_cons.1 h
    obtain ⟨a, b, rfl, ha, hb⟩ := esc_split (x := []) hd hs
    obtain rfl := esc_eq_nil.1 ha
    obtain ⟨b', rfl, hb'⟩ := ih ht hb
    exact ⟨b', rfl, hb'⟩

theorem esc_text {t : CStr} (h : ∀ d ∈ t, kept d) : esc (t ++ y) = t ++ esc y := by
  induction t with
  | nil => rfl
  | cons d t ih =>
    obtain ⟨hd, ht⟩ := List.forall_mem_cons.1 h
    rw [List.cons_append, esc_kept hd, ih ht, List.cons_append]

/-- Where a text of such characters is in the output, it was in the string. -/
theorem esc_infix {t : CStr} (h : ∀ d ∈ t, kept d) (ht : t ≠ []) (hs : esc s = x ++ (t ++ y)) :
    ∃ a b, s = a ++ (t ++ b) ∧ esc a = x ∧ esc b = y := by
  cases t with
  | nil => exact absurd rfl ht
  | cons d t =>
    obtain ⟨hd, ht⟩ := List.forall_mem_cons.1 h
    obtain ⟨a, b, rfl, ha, hb⟩ := esc_split hd hs
    obtain ⟨b', rfl, hb'⟩ := esc_eq_text ht hb
    exact ⟨a, b', rfl, ha, hb'⟩

theorem esc_append_text {t : CStr} (h : ∀ d ∈ t, kept d) (ht : t ≠ []) :
    esc (a ++ (t ++ y)) = esc a ++ (t ++ esc y) := by
  cases t with
  | nil => exact absurd rfl ht
  | cons d t =>
    have hapart : Apart (d :: t ++ y) := apart_cons (h d List.mem_cons_self)
    rw [esc_append hapart, esc_text h]

/-! ## Addresses in brackets -/

theorem kept_ip6 : ∀ d ∈ "://[".toList, kept d := List.all_eq_true.1 (by decide)

theorem ip6_ne_nil : "://[".toList ≠ [] := by decide

theorem atEnd_esc : atEnd (esc s) = atEnd s := by
  have hhead : ∀ c, kept c → ((∃ y, esc s = c :: y) ↔ ∃ y, s = c :: y) := by
    intro c hc
    constructor
    · rintro ⟨y, hy⟩
      obtain ⟨b, hb, -⟩ := esc_eq_text (t := [c]) (by simpa using hc) hy
      exact ⟨b, hb⟩
    · rintro ⟨y, rfl⟩
      exact ⟨esc y, esc_kept hc⟩
  have hatEnd : ∀ s, atEnd s = true ↔ s = [] ∨ (∃ y, s = '/' :: y) ∨ ∃ y, s = ':' :: y := by
    intro s
    cases s with
    | nil => simp [atEnd]
    | cons c s => simp [atEnd]
  rw [Bool.eq_iff_iff, hatEnd, hatEnd, esc_eq_nil, hhead '/' (by decide), hhead ':' (by decide)]

/-- The string has an address in brackets, between `a` and `rest`. -/
structure Ip6 (s a b rest : CStr) : Prop where
  eq : s = a ++ ("://[".toList ++ (b ++ ']' :: rest))
  first : ∀ a' z, s = a' ++ ("://[".toList ++ z) → a.length ≤ a'.length
  close : ']' ∉ b
  ends : atEnd rest = true

theorem behindIp6_iff : behindIp6 s = some rest ↔ ∃ a b, Ip6 s a b rest := by
  unfold behindIp6
  constructor
  · intro h
    obtain ⟨p, hp, h⟩ := Option.bind_eq_some_iff.1 h
    obtain ⟨q, hq, h⟩ := Option.bind_eq_some_iff.1 h
    obtain ⟨a, rfl, ⟨z, rfl⟩, hfirst⟩ := (strstr_eq_some ip6_ne_nil).1 hp
    obtain ⟨b, y, hz, rfl, hb⟩ := strchr_eq_some.1 hq
    split at h
    next hend =>
      cases h
      have hdrop : ("://[".toList ++ z).drop 4 = z := rfl
      rw [hdrop] at hz
      refine ⟨a, b, ?_, fun a' z' heq => hfirst a' _ heq ⟨z', rfl⟩, hb, hend⟩
      rw [hz]
      rfl
    next => cases h
  · rintro ⟨a, b, rfl, hfirst, hb, hend⟩
    have hp : strstr (a ++ ("://[".toList ++ (b ++ ']' :: rest))) "://[".toList =
        some ("://[".toList ++ (b ++ ']' :: rest)) := by
      refine (strstr_eq_some ip6_ne_nil).2 ⟨a, rfl, ⟨_, rfl⟩, ?_⟩
      rintro a' q' heq ⟨z, rfl⟩
      exact hfirst a' z heq
    have hdrop : ("://[".toList ++ (b ++ ']' :: rest)).drop 4 = b ++ ']' :: rest := rfl
    rw [hp, Option.bind_some, hdrop, strchr_append hb, Option.bind_some]
    exact if_pos hend

/-- A text that begins before another one. -/
theorem split_before {t z z' : CStr} (heq : a ++ (t ++ z) = y ++ (t ++ z'))
    (hlt : y.length < a.length) : ∃ c u, a = y ++ c :: u ∧ t ++ z' = c :: u ++ (t ++ z) := by
  rcases List.append_eq_append_iff.1 heq with ⟨u, rfl, -⟩ | ⟨u, rfl, hu⟩
  · rw [List.length_append] at hlt
    omega
  · cases u with
    | nil =>
      rw [List.append_nil] at hlt
      exact absurd hlt (Nat.lt_irrefl _)
    | cons c u => exact ⟨c, u, rfl, hu⟩

/-- The address is found again after the rest has been escaped. -/
theorem Ip6.esc_rest (h : Ip6 s a b rest) :
    Ip6 (a ++ ("://[".toList ++ (b ++ ']' :: esc rest))) a b (esc rest) where
  eq := rfl
  first a' z heq := by
    by_contra hlt
    rw [Nat.not_le] at hlt
    -- an earlier one would lie before the rest, so it would be in `s` too
    obtain ⟨c, u, rfl, hu⟩ := split_before heq hlt
    have hlen : "://[".toList.length ≤ (c :: u ++ "://[".toList).length := by
      rw [List.length_append]
      exact Nat.le_add_left _ _
    rw [← List.append_assoc] at hu
    obtain ⟨v, hv⟩ := List.prefix_of_prefix_length_le ⟨z, hu⟩ (List.prefix_append _ _) hlen
    have hs : s = a' ++ ("://[".toList ++ (v ++ (b ++ ']' :: rest))) := by
      rw [h.eq, ← List.append_assoc _ v, hv]
      simp only [List.append_assoc]
    have hle := h.first a' _ hs
    rw [List.length_append, List.length_cons] at hle
    omega
  close := h.close
  ends := atEnd_esc.trans h.ends

theorem Ip6.of_esc (h : Ip6 (esc s) x y cs) : ∃ a b rest, Ip6 s a b rest := by
  obtain ⟨a, z, rfl, rfl, hz⟩ := esc_infix kept_ip6 ip6_ne_nil h.eq
  obtain ⟨b, rest, rfl, rfl, rfl⟩ := esc_split (d := ']') (by decide) hz
  refine ⟨a, b, rest, rfl, fun a' z' heq => ?_, ?_, atEnd_esc.symm.trans h.ends⟩
  · by_contra hlt
    rw [Nat.not_le] at hlt
    have hle : (esc a).length ≤ (esc a').length := by
      refine h.first (esc a') (esc z') ?_
      rw [heq]
      exact esc_append_text kept_ip6 ip6_ne_nil
    obtain ⟨c, u, rfl, hu⟩ := split_before heq hlt
    obtain ⟨rfl, -⟩ := List.cons.inj hu
    rw [esc_append_kept (by decide), List.length_append, List.length_cons] at hle
    omega
  · rw [← mem_esc (by decide)]
    exact h.close

/-! ## `CdxUrlEscapeString` -/

theorem escapeString_none (h : behindIp6 s = none) : CdxUrlEscapeString s = esc s := by
  unfold CdxUrlEscapeString
  rw [h]
  exact escapeLoop_eq (Nat.le_refl _)

/-- With an address in brackets, what stands before the rest is copied. -/
theorem escapeString_some (h : Ip6 s a b rest) :
    CdxUrlEscapeString s = a ++ ("://[".toList ++ (b ++ ']' :: esc rest)) := by
  have hbehind : behindIp6 s = some rest := behindIp6_iff.2 ⟨a, b, h⟩
  have hs : s = (a ++ "://[".toList ++ b ++ [']']) ++ rest := by
    rw [h.eq]
    simp
  have htake : s.take (s.length - rest.length) = a ++ "://[".toList ++ b ++ [']'] := by
    rw [hs, List.length_append, Nat.add_sub_cancel, List.take_left]
  unfold CdxUrlEscapeString
  rw [hbehind]
  simp only [htake, escapeLoop_eq (Nat.le_refl _)]
  simp

/-- It is idempotent. -/
theorem escapeString_escapeString :
    CdxUrlEscapeString (CdxUrlEscapeString s) = CdxUrlEscapeString s := by
  cases hs : behindIp6 s with
  | none =>
    have hesc : behindIp6 (esc s) = none := by
      cases hesc : behindIp6 (esc s) with
      | none => rfl
      | some cs =>
        obtain ⟨x, y, hip6⟩ := behindIp6_iff.1 hesc
        obtain ⟨a, b, rest, h⟩ := hip6.of_esc
        cases hs.symm.trans (behindIp6_iff.2 ⟨a, b, h⟩)
    rw [escapeString_none hs, escapeString_none hesc, esc_esc]
  | some rest =>
    obtain ⟨a, b, h⟩ := behindIp6_iff.1 hs
    rw [escapeString_some h, escapeString_some h.esc_rest, esc_esc]

/-- It writes at most three bytes for each, and the terminator. -/
theorem length_escapeString : (CdxUrlEscapeString s).length ≤ 3 * s.length := by
  cases hs : behindIp6 s with
  | none =>
    rw [escapeString_none hs]
    exact length_esc
  | some rest =>
    obtain ⟨a, b, h⟩ := behindIp6_iff.1 hs
    have hrest := length_esc (s := rest)
    rw [escapeString_some h, h.eq]
    simp only [List.length_append, List.length_cons]
    omega

/-- What is copied with an address in brackets needs no escaping. -/
def CopiedPlain (s : CStr) : Prop := ∀ a b rest, Ip6 s a b rest → esc a = a ∧ esc b = b

theorem length_le_esc : s.length ≤ (esc s).length := by
  induction s with
  | nil => exact Nat.le_refl 0
  | cons c s ih =>
    have hchar : 0 < (escChar c s).length := by
      unfold escChar
      split
      · exact Nat.one_pos
      · split
        · exact Nat.one_pos
        · exact Nat.succ_pos 2
    rw [esc, List.length_append, List.length_cons]
    omega

/-- It escapes each character only where nothing that has to be escaped is copied. -/
theorem escapeString_eq_esc_iff : CdxUrlEscapeString s = esc s ↔ CopiedPlain s := by
  constructor
  · intro h a b rest hip6
    have heq : esc s = esc a ++ ("://[".toList ++ (esc b ++ ']' :: esc rest)) := by
      rw [hip6.eq, esc_append_text kept_ip6 ip6_ne_nil, esc_append_kept (by decide)]
    rw [escapeString_some hip6, heq] at h
    -- none of the two becomes shorter, so none becomes longer
    have hlen := congrArg List.length h
    have ha := length_le_esc (s := a)
    have hb := length_le_esc (s := b)
    simp only [List.length_append, List.length_cons] at hlen
    obtain ⟨hea, h⟩ := List.append_inj h (by omega)
    obtain ⟨-, h⟩ := List.append_inj h rfl
    obtain ⟨heb, -⟩ := List.append_inj h (by omega)
    exact ⟨hea.symm, heb.symm⟩
  · intro h
    cases hs : behindIp6 s with
    | none => exact escapeString_none hs
    | some rest =>
      obtain ⟨a, b, hip6⟩ := behindIp6_iff.1 hs
      obtain ⟨ha, hb⟩ := h a b rest hip6
      rw [escapeString_some hip6, hip6.eq, esc_append_text kept_ip6 ip6_ne_nil,
        esc_append_kept (by decide), ha, hb]

/-- Nothing is escaped in a string that has no `%` then. -/
theorem esc_eq_self (h : '%' ∉ esc s) : esc s = s := by
  induction s with
  | nil => rfl
  | cons c s ih =>
    rw [esc, List.mem_append, not_or] at h
    have hchar : escChar c s = [c] := by
      by_cases hkeep : kept c || alnum c
      · exact if_pos hkeep
      · by_cases hpair : c = '%' ∧ hexPair s
        · simp [escChar, hpair]
        · refine absurd ?_ h.1
          simp [escChar, hkeep, hpair, percent]
    rw [esc, hchar, ih h.2, List.singleton_append]

/-- A text with which an address in brackets may begin is where it was. -/
theorem infix_escapeString {t : CStr} (h : ∀ d ∈ t, kept d) (ht : t ≠ [])
    (hpre : t <+: "://[".toList) : t <:+: CdxUrlEscapeString s ↔ t <:+: s := by
  cases hs : behindIp6 s with
  | none =>
    rw [escapeString_none hs]
    constructor
    · rintro ⟨x, y, hxy⟩
      rw [List.append_assoc] at hxy
      obtain ⟨a, b, rfl, -⟩ := esc_infix h ht hxy.symm
      exact ⟨a, b, List.append_assoc _ _ _⟩
    · rintro ⟨a, b, rfl⟩
      rw [List.append_assoc, esc_append_text h ht]
      exact ⟨esc a, esc b, List.append_assoc _ _ _⟩
  | some rest =>
    obtain ⟨a, b, hip6⟩ := behindIp6_iff.1 hs
    obtain ⟨v, hv⟩ := hpre
    rw [escapeString_some hip6, hip6.eq, ← hv]
    exact iff_of_true ⟨a, _, by simp only [List.append_assoc]; rfl⟩
      ⟨a, _, by simp only [List.append_assoc]; rfl⟩

end Melis.Libcore
