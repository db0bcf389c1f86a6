import Melis.Script.Parser

/-!
# What the scanners read

For a script with its NUL behind it, the length that `_get_line_status` gives to a line and the
bytes that `_fill_line_mainkey` and `_get_item_value` take, and when these read behind the NUL.
-/

namespace Melis.Script

open Lib

variable {ch : Char} {s src x w : List Char}

/-! ## Lines -/

/-- A text up to and with its first line feed. -/
def toLineEnd : List Char → List Char
  | [] => []
  | ch :: s => if ch = '\n' then [ch] else ch :: toLineEnd s

/-- A text behind its first line feed. -/
def behindLine : List Char → List Char
  | [] => []
  | ch :: s => if ch = '\n' then s else behindLine s

theorem toLineEnd_append_behindLine (s : List Char) : toLineEnd s ++ behindLine s = s := by
  induction s with
  | nil => rfl
  | cons ch s ih =>
    by_cases hch : ch = '\n'
    · simp [toLineEnd, behindLine, hch]
    · simp [toLineEnd, behindLine, hch, ih]

theorem length_behindLine_le (s : List Char) : (behindLine s).length ≤ s.length := by
  have h := congrArg List.length (toLineEnd_append_behindLine s)
  rw [List.length_append] at h
  omega

theorem drop_toLineEnd (s r : List Char) :
    (s ++ r).drop (toLineEnd s).length = behindLine s ++ r := by
  have happ : s ++ r = toLineEnd s ++ (behindLine s ++ r) := by
    rw [← List.append_assoc, toLineEnd_append_behindLine]
  rw [happ, List.drop_left]

theorem toLineEnd_ne_nil (h : s ≠ []) : toLineEnd s ≠ [] := by
  cases s with
  | nil => exact absurd rfl h
  | cons ch s =>
    rw [toLineEnd]
    split <;> simp

/-- The first line of `s` as the parser takes it: a line feed in front does not end it. -/
def firstLine : List Char → List Char
  | [] => []
  | ch :: s => ch :: toLineEnd s

def TooLong (s : List Char) : Prop := 512 < (firstLine s).length

instance : DecidablePred TooLong := fun _ => inferInstanceAs (Decidable (_ < _))

/-- The places where the parser starts a line: what is left of the script there. -/
def lineStarts : List Char → List (List Char)
  | [] => []
  | ch :: s => (ch :: s) :: lineStarts (behindLine s)
termination_by s => s.length
decreasing_by exact Nat.lt_succ_of_le (length_behindLine_le s)

theorem lineStarts_cons (ch : Char) (s : List Char) :
    lineStarts (ch :: s) = (ch :: s) :: lineStarts (behindLine s) := by
  rw [lineStarts]

/-- Behind the last character the loop goes on to the NUL only if there is one character. -/
theorem lineLoop_eq {len : Nat} (hlen : 1 ≤ len) (hs : s ≠ []) (lastLen : Int)
    (hlast : lastLen = len - 1 + s.length) :
    lineLoop lastLen len (s ++ [nul]) =
      some (if 512 < len + (toLineEnd s).length then none else some (len + (toLineEnd s).length)) := by
  induction s generalizing len with
  | nil => exact absurd rfl hs
  | cons ch s ih =>
    have hpos : 0 < (toLineEnd (ch :: s)).length := List.length_pos_iff.2 (toLineEnd_ne_nil hs)
    rw [List.cons_append, lineLoop]
    by_cases hmax : 512 ≤ len
    · rw [if_pos hmax, if_pos (by omega)]
    · rw [if_neg hmax]
      by_cases hch : ch = '\n'
      · rw [if_neg (by simp [hch])]
        simp only [toLineEnd, if_pos hch, List.length_singleton]
        rw [if_neg (by omega)]
      · cases s with
        | nil =>
          have hstop : ¬ (len : Int) < lastLen := by simp [hlast]
          rw [if_neg fun h => hstop h.2]
          simp only [toLineEnd, if_neg hch, List.length_singleton]
          rw [if_neg (by omega)]
        | cons ch' s =>
          have hgo : (len : Int) < lastLen := by
            simp only [hlast, List.length_cons]
            omega
          rw [if_pos ⟨hch, hgo⟩, ih (by omega) (List.cons_ne_nil _ _) (by
            simp only [hlast, List.length_cons]
            omega)]
          have hcount : len + 1 + (toLineEnd (ch' :: s)).length =
              len + (toLineEnd (ch :: ch' :: s)).length := by
            rw [toLineEnd.eq_2 ch, if_neg hch, List.length_cons]
            omega
          rw [hcount]

/-- A line of a script with more than one character. -/
theorem getLineStatus_eq (hs : s ≠ []) :
    getLineStatus (ch :: s ++ [nul]) (ch :: s).length =
      some (if TooLong (ch :: s) then (.error, 0) else (lineFlag ch, (firstLine (ch :: s)).length)) := by
  have hloop := lineLoop_eq (Nat.le_refl 1) hs ((ch :: s).length - 1) (by simp)
  have hlong : TooLong (ch :: s) ↔ 512 < 1 + (toLineEnd s).length := by
    simp only [TooLong, firstLine, List.length_cons]
    omega
  rw [List.cons_append, getLineStatus]
  simp only [hloop, hlong]
  by_cases h : 512 < 1 + (toLineEnd s).length
  · simp [h]
  · simp [h, firstLine, Nat.add_comm]

/-- A single character is taken for a line of two. -/
theorem getLineStatus_singleton (ch : Char) :
    getLineStatus ([ch] ++ [nul]) 1 = some (lineFlag ch, 2) := by
  simp [getLineStatus, lineLoop]

/-! ## Sections -/

/-- The name of a section is read within the script. -/
def MainkeyContained (x : List Char) : Prop := ']' ∈ x.tail ∨ itemMainNameMax < x.tail.length

theorem fillLineMainkey_eq_none : fillLineMainkey x = none ↔ ¬ MainkeyContained x := by
  unfold fillLineMainkey MainkeyContained
  cases hscan : scan (· == ']') itemMainNameMax x.tail with
  | none =>
    obtain ⟨hlt, hstop⟩ := scan_eq_none.1 hscan
    have hmem : ']' ∉ x.tail := fun h => by simpa using hstop _ h
    exact iff_of_true rfl (not_or.2 ⟨hmem, by omega⟩)
  | some y =>
    obtain ⟨w, r⟩ := y
    obtain ⟨rfl, rfl⟩ := scan_eq_some hscan
    by_cases hmem : ']' ∈ x.tail
    · have hlt : (scanned (· == ']') itemMainNameMax x.tail).length < x.tail.length :=
        length_scanned_lt hmem (by simp)
      cases hrest : x.tail.drop (scanned (· == ']') itemMainNameMax x.tail).length with
      | nil => exact absurd (List.drop_eq_nil_iff.1 hrest) (by omega)
      | cons c r => simp [hmem]
    · have hread : scanned (· == ']') itemMainNameMax x.tail = x.tail.take itemMainNameMax :=
        scanned_of_forall fun a ha => by simpa using ne_of_mem_of_not_mem ha hmem
      simp only [hread, List.length_take, hmem, false_or]
      cases hrest : x.tail.drop (min itemMainNameMax x.tail.length) with
      | nil =>
        have hle := List.drop_eq_nil_iff.1 hrest
        exact iff_of_true rfl (by omega)
      | cons c r =>
        have hlt : ¬ x.tail.length ≤ min itemMainNameMax x.tail.length := fun hle =>
          List.cons_ne_nil c r (hrest.symm.trans (List.drop_eq_nil_iff.2 hle))
        exact iff_of_false (by simp) (by omega)

/-! ## Entries -/

/-- A string without the blanks at its end. -/
def trimmed (w : CStr) : CStr := (w.reverse.dropWhile isBlank).reverse

theorem length_trimmed_le (w : CStr) : (trimmed w).length ≤ w.length := by
  simpa [trimmed] using (List.dropWhile_sublist isBlank (l := w.reverse)).length_le

theorem trimEnd_cons (h : isBlank ch = false) : trimEnd (ch :: w) = some (trimmed (ch :: w)) := by
  have hne : (ch :: w).reverse.dropWhile isBlank ≠ [] := fun hnil => by
    have hall := List.dropWhile_eq_nil_iff.1 hnil ch (by simp)
    simp [h] at hall
  unfold trimEnd trimmed
  cases hdrop : (ch :: w).reverse.dropWhile isBlank with
  | nil => exact absurd hdrop hne
  | cons c r => rfl

/-- A text from its first character on that is no blank. -/
def unblanked (x : List Char) : List Char := x.dropWhile isBlank

/-- The text behind the first `=`. -/
def behindEquals (x : List Char) : List Char := ((unblanked x).dropWhile fun c => !(c == '=')).tail

/-- The name of the entry in `x`. -/
def nameText (x : List Char) : CStr :=
  if isEol ((unblanked x).headD nul) then []
  else trimmed (scanned (· == '=') (itemMainNameMax - 1) (unblanked x))

/-- The value of the entry in `x`. -/
def valueText (x : List Char) : CStr :=
  if isEol ((unblanked x).headD nul) then []
  else
    trimmed (scanned (fun ch => ch == nul || isEol ch) (subValueBytes - 1) (unblanked (behindEquals x)))

/-- The line of an entry is empty, or has its name, its `=` and its value, which may be empty only
before the end of a line. -/
def EntryContained (x : List Char) : Prop :=
  isEol ((unblanked x).headD nul) ∨
    (unblanked x).headD nul ≠ '=' ∧ '=' ∈ unblanked x ∧
      (unblanked (behindEquals x)).headD nul ≠ nul

instance : DecidablePred EntryContained := fun _ => inferInstanceAs (Decidable (_ ∨ _ ∧ _ ∧ _))

/-- The text ends with a NUL. -/
def Terminated (x : List Char) : Prop := x.getLast? = some nul

theorem scanAll_unblanked (h : nul ∈ x) :
    scanAll (!isBlank ·) x = some (x.takeWhile isBlank, unblanked x) := by
  have hscan : scanAll (!isBlank ·) x = _ := scanAll_of_mem h (by decide)
  simpa [unblanked] using hscan

theorem unblanked_eq_cons (h : nul ∈ x) : ∃ ch r, unblanked x = ch :: r ∧ isBlank ch = false :=
  dropWhile_eq_cons h rfl

theorem Terminated.mem (h : Terminated x) : nul ∈ x := List.mem_of_getLast? h

theorem Terminated.suffix (h : Terminated x) (hs : s <:+ x) (hne : s ≠ []) : Terminated s := by
  obtain ⟨t, rfl⟩ := hs
  rwa [Terminated, List.getLast?_append_of_ne_nil _ hne] at h

theorem dropWhile_equals (h : '=' ∈ unblanked x) :
    ((unblanked x).dropWhile fun c => !(c == '=')) = '=' :: behindEquals x := by
  obtain ⟨c, r, hdrop, hc⟩ :=
    dropWhile_eq_cons (p := fun c => !(c == '=')) h (by simp)
  have hequals : c = '=' := by simpa using hc
  rw [behindEquals, hdrop, hequals, List.tail_cons]

theorem Terminated.unblanked (h : Terminated x) : Terminated (unblanked x) := by
  obtain ⟨ch, r, hx, -⟩ := unblanked_eq_cons h.mem
  exact h.suffix (List.dropWhile_suffix _) (hx ▸ List.cons_ne_nil ch r)

theorem Terminated.behindEquals (h : Terminated x) (hmem : '=' ∈ Script.unblanked x) :
    Terminated (behindEquals x) := by
  have hs : '=' :: Script.behindEquals x <:+ x :=
    dropWhile_equals hmem ▸ (List.dropWhile_suffix _).trans (List.dropWhile_suffix _)
  refine h.suffix ((List.suffix_cons _ _).trans hs) fun hnil => ?_
  have hlast := h.suffix hs (List.cons_ne_nil _ _)
  rw [hnil] at hlast
  simp [Terminated, nul] at hlast

theorem itemValue_eq (h : Terminated x) :
    itemValue x =
      if (unblanked x).headD nul = nul then none
      else
        some (trimmed
          (scanned (fun ch => ch == nul || isEol ch) (subValueBytes - 1) (unblanked x))) := by
  obtain ⟨ch, r, hx, hblank⟩ := unblanked_eq_cons h.mem
  have hmem : nul ∈ ch :: r := hx ▸ h.unblanked.mem
  have hscan : scan (fun ch => ch == nul || isEol ch) (subValueBytes - 1) (ch :: r) ≠ none :=
    fun hnone => by simpa using (scan_eq_none.1 hnone).2 nul hmem
  rw [itemValue, scanAll_unblanked h.mem]
  simp only [hx, List.headD_cons, scan_of_ne_none hscan]
  by_cases hstop : ch = nul ∨ isEol ch
  · have hread : scanned (fun ch => ch == nul || isEol ch) (subValueBytes - 1) (ch :: r) = [] :=
      scanned_of_stop (by simpa using hstop)
    rw [hread]
    rcases hstop with rfl | heol
    · rfl
    · have hne : ch ≠ nul := fun hnul => by simp [hnul, isEol, nul] at heol
      rw [if_pos heol, if_neg hne]
      rfl
  · obtain ⟨hnul, heol⟩ := not_or.1 hstop
    have hread : scanned (fun ch => ch == nul || isEol ch) (subValueBytes - 1) (ch :: r) =
        ch :: scanned (fun ch => ch == nul || isEol ch) (subValueBytes - 2) r :=
      scanned_cons (by simp [hnul, heol])
    rw [hread, if_neg heol, if_neg hnul, trimEnd_cons hblank]

theorem getItemValue_eq (h : Terminated x) :
    getItemValue x = if EntryContained x then some (nameText x, valueText x) else none := by
  obtain ⟨ch, r, hx, hblank⟩ := unblanked_eq_cons h.mem
  rw [getItemValue, scanAll_unblanked h.mem]
  simp only [hx, EntryContained, nameText, valueText, List.headD_cons]
  by_cases heol : isEol ch
  · simp only [heol, if_true, true_or]
  · simp only [if_neg heol]
    by_cases hmem : '=' ∈ ch :: r
    · have hscan : scan (· == '=') (itemMainNameMax - 1) (ch :: r) ≠ none := fun hnone => by
        simpa using (scan_eq_none.1 hnone).2 '=' hmem
      obtain ⟨w, hrest⟩ : ∃ w, scanAll (· == '=')
          ((ch :: r).drop (scanned (· == '=') (itemMainNameMax - 1) (ch :: r)).length) =
            some (w, (ch :: r).dropWhile fun c => !(c == '=')) := scanAll_behind hmem (by simp)
      have hrest' : scanAll (· == '=')
          ((ch :: r).drop (scanned (· == '=') (itemMainNameMax - 1) (ch :: r)).length) =
            some (w, '=' :: behindEquals x) := by
        rw [hrest, ← dropWhile_equals (hx ▸ hmem), hx]
      have hvalue := itemValue_eq (h.behindEquals (hx ▸ hmem))
      simp only [scan_of_ne_none hscan, hrest']
      by_cases hch : ch = '='
      · rw [if_neg fun hc => hc.elim heol fun hc => hc.1 hch, hch, scanned_of_stop (by simp)]
        rfl
      · have hread : scanned (· == '=') (itemMainNameMax - 1) (ch :: r) =
            ch :: scanned (· == '=') (itemMainNameMax - 2) r := scanned_cons (by simp [hch])
        rw [hread, trimEnd_cons hblank]
        by_cases hnul : (unblanked (behindEquals x)).headD nul = nul
        · rw [if_neg fun hc => hc.elim heol fun hc => hc.2.2 hnul]
          simp only [hvalue, if_pos hnul, Option.map_none]
        · rw [if_pos (.inr ⟨hch, hmem, hnul⟩)]
          simp only [hvalue, if_neg hnul, Option.map_some]
    · have hnone (n : Nat) : scanAll (· == '=') ((ch :: r).drop n) = none :=
        scanAll_eq_none.2 fun a ha => by
          simpa using ne_of_mem_of_not_mem (List.mem_of_mem_drop ha) hmem
      rw [if_neg fun hc => hc.elim heol fun hc => hmem hc.2.1]
      cases hscan : scan (· == '=') (itemMainNameMax - 1) (ch :: r) with
      | none => rfl
      | some y =>
        obtain ⟨w, y⟩ := y
        obtain ⟨rfl, rfl⟩ := scan_eq_some hscan
        simp only [hnone]
        cases trimEnd (scanned (· == '=') (itemMainNameMax - 1) (ch :: r)) <;> rfl

/-! ## Values -/

theorem numberLoop_ne_none {digit : Char → Option Nat} {base : UInt32} (h : nul ∈ src)
    (tmpValue : UInt32) : numberLoop digit base tmpValue src ≠ none := by
  induction src generalizing tmpValue with
  | nil => cases h
  | cons ch src ih =>
    rw [numberLoop]
    by_cases hch : ch = nul
    · simp [hch]
    · rw [if_neg hch]
      cases digit ch with
      | none => simp
      | some d => exact ih ((List.mem_cons.1 h).resolve_left (Ne.symm hch)) _

theorem numberValue_ne_none {digit : Char → Option Nat} {base sign : UInt32} (h : nul ∈ src) :
    numberValue digit base sign src ≠ none := by
  simpa [numberValue] using numberLoop_ne_none h 0

theorem stringValue_eq_none {stop : Char} {kind : Nat} :
    stringValue stop kind src = none ↔ src.length < subValueBytes ∧ stop ∉ src := by
  rw [stringValue, Option.map_eq_none_iff, scan_eq_none]
  refine and_congr_right fun _ => ⟨fun h hmem => ?_, fun h a ha => ?_⟩
  · simpa using h stop hmem
  · simpa using ne_of_mem_of_not_mem ha h

theorem headD_of_startsWith {str : String} {c : Char} {cs saddr : List Char}
    (hstr : str.toList = c :: cs) (h : startsWith str saddr) : saddr.headD nul = c := by
  unfold startsWith at h
  cases saddr with
  | nil => simp [hstr] at h
  | cons ch saddr =>
    rw [hstr, List.isPrefixOf_cons_cons, Bool.and_eq_true, beq_iff_eq] at h
    exact h.1.symm

/-- Only a quote that is not closed and the fields of a pin are read out of the string. -/
theorem getStr2int_eq_none {saddr : List Char} (hlen : saddr.length = subValueBytes)
    (hnul : Terminated saddr) :
    getStr2int saddr = none ↔
      IsPort saddr ∧ portValue (saddr.drop 6) = none ∨ saddr.headD nul = '"' ∧ '"' ∉ saddr.tail := by
  have hmem {k : Nat} (hk : k < subValueBytes) : nul ∈ saddr.drop k := by
    refine (hnul.suffix (List.drop_suffix k saddr) fun h => ?_).mem
    rw [List.drop_eq_nil_iff] at h
    omega
  have hstring {k : Nat} (hk : k < subValueBytes) : stringValue nul 0 (saddr.drop k) ≠ none :=
    fun h => (stringValue_eq_none.1 h).2 (hmem hk)
  have hwhole : stringValue nul 0 saddr ≠ none := hstring (k := 0) (by decide)
  have hhead : saddr.getD 0 nul = saddr.headD nul := by cases saddr <;> rfl
  simp only [getStr2int, hhead]
  by_cases hport : IsPort saddr
  · have hquote : saddr.headD nul ≠ '"' := by
      rw [headD_of_startsWith (c := 'p') rfl hport.1]
      decide
    rw [if_pos hport, Option.map_eq_none_iff]
    exact ⟨fun h => .inl ⟨hport, h⟩, fun h => h.elim And.right fun h => absurd h.1 hquote⟩
  rw [if_neg hport]
  by_cases hname : startsWith "port:" saddr
  · have hquote : saddr.headD nul ≠ '"' := by
      rw [headD_of_startsWith (c := 'p') rfl hname]
      decide
    rw [if_pos hname, Option.map_eq_none_iff]
    exact iff_of_false hwhole fun h => h.elim (fun h => hport h.1) fun h => hquote h.1
  rw [if_neg hname]
  by_cases hstr : startsWith "string:" saddr
  · have hquote : saddr.headD nul ≠ '"' := by
      rw [headD_of_startsWith (c := 's') rfl hstr]
      decide
    rw [if_pos hstr, Option.map_eq_none_iff]
    exact iff_of_false (hstring (by decide)) fun h => h.elim (fun h => hport h.1) fun h => hquote h.1
  rw [if_neg hstr]
  by_cases hquote : saddr.headD nul = '"'
  · rw [if_pos hquote, Option.map_eq_none_iff, stringValue_eq_none, List.length_drop, hlen,
      List.drop_one]
    exact ⟨fun h => .inr ⟨hquote, h.2⟩,
      fun h => h.elim (fun h => absurd h.1 hport) fun h => ⟨by decide, h.2⟩⟩
  · have hright : ¬ (IsPort saddr ∧ portValue (saddr.drop 6) = none ∨
        saddr.headD nul = '"' ∧ '"' ∉ saddr.tail) :=
      fun h => h.elim (fun h => hport h.1) fun h => hquote h.1
    rw [if_neg hquote]
    refine iff_of_false ?_ hright
    split
    · exact (Option.map_eq_none_iff.not).2 (numberValue_ne_none (hmem (by decide)))
    split
    · exact (Option.map_eq_none_iff.not).2 (numberValue_ne_none hnul.mem)
    split
    · exact (Option.map_eq_none_iff.not).2 (numberValue_ne_none (hmem (by decide)))
    · exact (Option.map_eq_none_iff.not).2 hwhole

/-- A value is read within `sub_value`. -/
def ValueContained (value : CStr) : Prop :=
  (value.headD nul = '"' → '"' ∈ value.tail) ∧
    (IsPort (subValue value) → portValue ((subValue value).drop 6) ≠ none)

theorem length_valueText (x : List Char) : (valueText x).length < subValueBytes := by
  unfold valueText
  split
  · decide
  · exact Nat.lt_of_le_of_lt ((length_trimmed_le _).trans (length_scanned_le _ _ _)) (by decide)

theorem convert_eq_none {value : CStr} (h : value.length < subValueBytes) :
    convert value = none ↔ ¬ ValueContained value := by
  have hlen : (subValue value).length = subValueBytes := by
    rw [subValue, List.length_append, List.length_replicate]
    omega
  have hnul : Terminated (subValue value) := by
    obtain ⟨n, hn⟩ : ∃ n, subValueBytes - value.length = n + 1 := ⟨_, (Nat.succ_pred (by omega)).symm⟩
    rw [Terminated, subValue, hn, List.replicate_succ', ← List.append_assoc, List.getLast?_concat]
  have hhead : (subValue value).headD nul = value.headD nul := by
    cases value <;> rfl
  have htail : '"' ∈ (subValue value).tail ↔ '"' ∈ value.tail := by
    cases value with
    | nil => simp [subValue, nul]
    | cons ch value => simp [subValue, nul]
  rw [convert, Option.map_eq_none_iff, getStr2int_eq_none hlen hnul, hhead, htail, ValueContained]
  tauto

end Melis.Script
