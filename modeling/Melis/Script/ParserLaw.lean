import Melis.Script.TextLines

/-!
# When a script is compiled safely, and reported rightly

`parserScript_meets_iff` says which scripts the compiler reads within the script and its tables,
with success as the result just where it has written all of a script without malformed lines. The
lines of the text (`textLines`) are not those of the parser (`lineStarts`): a line that is only a
line feed is taken together with the one behind it.
-/

namespace Melis.Script

open Lib

variable {s : List Char} {t : Tables} {host : Host} {pbuf : List Char}

/-! ## The loop over the lines -/

/-- The loop of `parser_script` over the places where lines start. -/
def takeLines : List (List Char) → Tables → Option (Except Tables Tables)
  | [], t => some (.ok t)
  | s :: starts, t =>
    if TooLong s then some (.error t)
    else
      match t.fillLine (s ++ [nul]) (lineFlag (s.headD nul)) with
      | some (.ok t) => if s.length = 1 then none else takeLines starts t
      | stop => stop

theorem parserLoop_nil {n : Int} (hn : n ≠ 0) (fuel : Nat) (t : Tables) :
    parserLoop fuel [] n t = none := by
  cases fuel with
  | zero => rfl
  | succ fuel => simp [parserLoop, hn, getLineStatus]

/-- Every round takes at least one character, so the rounds do not run out. -/
theorem parserLoop_eq {fuel : Nat} (h : s.length + 2 ≤ fuel) (t : Tables) :
    parserLoop fuel (s ++ [nul]) s.length t = takeLines (lineStarts s) t := by
  induction fuel generalizing s t with
  | zero => omega
  | succ fuel ih =>
    cases s with
    | nil => simp [parserLoop, lineStarts, takeLines]
    | cons ch s =>
      have hlen : ((ch :: s).length : Int) ≠ 0 := Int.natCast_ne_zero.2 (Nat.succ_ne_zero _)
      rw [parserLoop, if_neg hlen, lineStarts_cons, takeLines, List.headD_cons]
      by_cases hs : s = []
      · subst hs
        have hstatus : getLineStatus ([ch] ++ [nul]) ([ch].length : Nat) = some (lineFlag ch, 2) :=
          getLineStatus_singleton ch
        have hshort : ¬ TooLong [ch] := by simp [TooLong, firstLine, toLineEnd]
        simp only [hstatus, if_neg hshort]
        cases hres : t.fillLine ([ch] ++ [nul]) (lineFlag ch) with
        | none => rfl
        | some res =>
          cases res with
          | error t' => rfl
          | ok t' => exact parserLoop_nil (by simp) _ _
      · rw [getLineStatus_eq hs]
        by_cases hlong : TooLong (ch :: s)
        · simp only [if_pos hlong]
          rfl
        · have hlength := congrArg List.length (toLineEnd_append_behindLine s)
          rw [List.length_append] at hlength
          have hdrop : (ch :: s ++ [nul]).drop (firstLine (ch :: s)).length =
              behindLine s ++ [nul] := drop_toLineEnd s [nul]
          have hleft : ((ch :: s).length : Int) - (firstLine (ch :: s)).length =
              (behindLine s).length := by
            simp only [firstLine, List.length_cons]
            omega
          have hone : (ch :: s).length ≠ 1 := by simpa using hs
          simp only [if_neg hlong, hdrop, hleft, if_neg hone]
          cases hres : t.fillLine (ch :: s ++ [nul]) (lineFlag ch) with
          | none => rfl
          | some res =>
            cases res with
            | error t' => rfl
            | ok t' =>
              rw [List.length_cons] at h
              exact ih (by omega) t'

/-! ## What the parser comes to -/

/-- The parser stays inside the script and the tables, where it takes the line that starts `s` and
goes on: a line of a single character at the end takes it behind the script. -/
def Contained (r : Room) (s : List Char) : Prop := TooLong s ∨ s.length ≠ 1 ∧ r.Inside s

/-- A line that is too long comes before the first entry. -/
def LongFirst (r : Room) (s : List Char) : Prop := TooLong s → r.entries = 0

theorem convert_nil : convert [] = some (some (2, [])) := by decide +kernel

theorem entryContained_singleton {ch : Char} (h : EntryContained ([ch] ++ [nul])) :
    isEol ((unblanked ([ch] ++ [nul])).headD nul) := by
  refine h.resolve_right fun ⟨hne, hmem, _⟩ => ?_
  have hch : ch = '=' := by
    have hsub := List.dropWhile_subset isBlank hmem
    simpa [nul, eq_comm] using hsub
  subst hch
  exact hne rfl

/-- The parser does not stop at a single character. -/
theorem next_ne_none {r : Room} (hs : s.length = 1) (hin : r.Inside s) : r.next s ≠ none := by
  obtain ⟨ch, rfl⟩ := List.length_eq_one_iff.1 hs
  have hshort : ¬ TooLong [ch] := by simp [TooLong, firstLine, toLineEnd]
  unfold Room.Inside at hin
  unfold Room.next
  rw [if_neg hshort]
  cases hflag : lineFlag ([ch].headD nul) with
  | subkey =>
    by_cases hsec : r.sections = 0
    · simp [hsec]
    · simp only [hflag] at hin
      have heol := entryContained_singleton (hin.resolve_left hsec).1
      have hvalue : valueText ([ch] ++ [nul]) = [] := if_pos heol
      simp only [if_neg hsec, hvalue, convert_nil]
      exact Option.some_ne_none _
  | _ => simp

theorem takeLines_spec (h : t.Sane) (l : List (List Char)) :
    match takeLines l t with
    | none => ¬ roomMachine.Meets Contained t.room l
    | some (.error t') =>
      roomMachine.Meets Contained t.room l ∧ roomMachine.run t.room l = none ∧
        (0 ≤ t'.ret ↔ ¬ roomMachine.Meets LongFirst t.room l)
    | some (.ok t') =>
      roomMachine.Meets Contained t.room l ∧ roomMachine.run t.room l = some t'.room ∧
        roomMachine.Meets LongFirst t.room l ∧ t'.Sane := by
  induction l generalizing t with
  | nil => exact ⟨trivial, rfl, trivial, h⟩
  | cons s l ih =>
    rw [takeLines]
    by_cases hlong : TooLong s
    · have hstop : roomMachine.next t.room s = none := if_pos hlong
      rw [if_pos hlong]
      simp only [Machine.meets_cons_of_none hstop, Machine.run_cons, hstop, Option.bind_none]
      have hentries : t.room.entries = 0 ↔ t.dest = [] := List.length_eq_zero_iff
      exact ⟨.inl hlong, trivial, by simp [LongFirst, hlong, hentries, h.ret]⟩
    · have hline := t.fillLine_spec h s hlong
      have hfirst : LongFirst t.room s := fun hl => absurd hl hlong
      have hcont : Contained t.room s ↔ s.length ≠ 1 ∧ t.room.Inside s := or_iff_right hlong
      rw [if_neg hlong]
      cases hres : t.fillLine (s ++ [nul]) (lineFlag (s.headD nul)) with
      | none =>
        simp only [hres] at hline
        exact fun hm => hline (hcont.1 hm.1).2
      | some res =>
        cases res with
        | error t' =>
          simp only [hres] at hline
          obtain ⟨hin, hstop, hret⟩ := hline
          replace hstop : roomMachine.next t.room s = none := hstop
          have hone : s.length ≠ 1 := fun hone => next_ne_none hone hin hstop
          simp only [Machine.meets_cons_of_none hstop, Machine.run_cons, hstop, Option.bind_none]
          exact ⟨hcont.2 ⟨hone, hin⟩, trivial, by simp [hret, hfirst]⟩
        | ok t' =>
          simp only [hres] at hline
          obtain ⟨hin, hnext, hsane⟩ := hline
          replace hnext : roomMachine.next t.room s = some t'.room := hnext
          by_cases hone : s.length = 1
          · simp only [if_pos hone, Machine.meets_cons_of_some hnext]
            exact fun hm => (hcont.1 hm.1).1 hone
          · have hs := hcont.2 ⟨hone, hin⟩
            simp only [if_neg hone, Machine.meets_cons_of_some hnext, Machine.run_cons, hnext,
              Option.bind_some, hs, hfirst, true_and]
            exact ih hsane

/-! ## What is written -/

theorem length_wordsOf : ∀ {n : Nat} {bytes : List Char}, bytes.length = 4 * n →
    (wordsOf bytes).length = n
  | 0, _, h => by
    rw [List.eq_nil_of_length_eq_zero h]
    rfl
  | n + 1, a :: b :: c :: d :: bytes, h => by
    rw [wordsOf, List.length_cons, length_wordsOf (n := n) (by simp at h; omega)]
  | n + 1, [], h | n + 1, [_], h | n + 1, [_, _], h | n + 1, [_, _, _], h => by
    simp only [List.length_cons, List.length_nil] at h
    omega

@[simp] theorem length_nameWords (name : CStr) : (nameWords name).length = 8 := by
  refine length_wordsOf ?_
  simp [itemMainNameMax]

/-- Each `fwrite` takes all of its block. -/
def Host.WritesAll (host : Host) (r : Room) : Prop :=
  16 ≤ host.fwrite 0 ∧ entryBytes * r.sections ≤ host.fwrite 1 ∧
    entryBytes * r.entries ≤ host.fwrite 2 ∧ 4 * r.words ≤ host.fwrite 3

/-- The file holds all of the tables. -/
def File.Full (f : File) : Prop := f.written = f.tables.blocks.map (4 * ·.length)

theorem map_length_blocks (t : Tables) :
    t.blocks.map List.length = [4, 10 * t.room.sections, 10 * t.room.entries, t.room.words] := by
  simp [Tables.blocks, Tables.room, Nat.mul_comm]

theorem writeFile_full : (writeFile host t).Full ↔ host.WritesAll t.room := by
  obtain ⟨head, items, entries, data, hblocks⟩ :
      ∃ head items entries data, t.blocks = [head, items, entries, data] := ⟨_, _, _, _, rfl⟩
  have hlengths := map_length_blocks t
  have hmin (a b : Nat) : min a b = a ↔ a ≤ b := by omega
  rw [hblocks] at hlengths
  obtain ⟨h0, h1, h2, h3, -⟩ : head.length = 4 ∧ items.length = 10 * t.room.sections ∧
      entries.length = 10 * t.room.entries ∧ data.length = t.room.words ∧ True := by
    simpa using hlengths
  simp only [File.Full, writeFile, hblocks, Host.WritesAll, entryBytes]
  simp only [List.mapIdx_cons, List.mapIdx_nil, List.map_cons, List.map_nil, List.cons.injEq, h0, h1,
    h2, h3, Nat.zero_add, Nat.reduceAdd, hmin, and_true]
  omega

/-! ## The result -/

/-- The whole file has been written, with each section and each entry of the script. -/
def Complete (pbuf : List Char) (o : Outcome) : Prop :=
  ∃ f, o.file = some f ∧ f.Full ∧
    (f.tables.itemTable.length, f.tables.dest.countP (·.subName ≠ [])) = tally pbuf

/-- The compiler returns, inside the script and its tables, and reports success just where it has
written the complete file of a script without malformed lines. -/
def Meets (host : Host) (pbuf : List Char) : Prop :=
  ∃ o, parserScript host pbuf = some o ∧ (o.ret = 0 ↔ Complete pbuf o ∧ WellFormed pbuf)

/-- The scripts that the compiler can manage: it stays inside, a line that is too long comes before
any entry, and where there are sections there is an entry just if all is written, nothing is lost
with an empty line, and no line is malformed. -/
structure Manageable (host : Host) (pbuf : List Char) : Prop where
  contained : roomMachine.Meets Contained ⟨0, 0, 0, 0⟩ (lineStarts pbuf)
  longFirst : roomMachine.Meets LongFirst ⟨0, 0, 0, 0⟩ (lineStarts pbuf)
  entries : ∀ r, roomMachine.run ⟨0, 0, 0, 0⟩ (lineStarts pbuf) = some r → r.sections ≠ 0 →
    (r.entries ≠ 0 ↔
      (host.WritesAll r ∧ (r.sections, r.named) = tally pbuf) ∧ WellFormed pbuf)

theorem leave_ret_eq_zero {ret : Int} {file : Option File} : (leave ret file).ret = 0 ↔ 0 ≤ ret := by
  unfold leave
  split <;> simp [*]

theorem not_complete_leave (ret : Int) : ¬ Complete pbuf (leave ret none) := by
  rintro ⟨f, hfile, -⟩
  cases hfile

theorem parserScript_eq (hdest : host.dest) (hdata : host.destData) (pbuf : List Char) :
    parserScript host pbuf =
      match takeLines (lineStarts pbuf) .empty with
      | none => none
      | some (.error t) => some (leave t.ret none)
      | some (.ok t) =>
        if t.itemTable = [] then some (leave t.ret none)
        else some (leave t.ret (some (writeFile host t))) := by
  have hopen : ¬ (host.dest = false ∨ host.destData = false) := by simp [hdest, hdata]
  unfold parserScript
  cases h : takeLines (lineStarts pbuf) .empty with
  | none => simp only [if_neg hopen, parserLoop_eq (Nat.le_refl _), h]
  | some r => cases r <;> simp only [if_neg hopen, parserLoop_eq (Nat.le_refl _), h]

theorem complete_writeFile {ret : Int} :
    Complete pbuf (leave ret (some (writeFile host t))) ↔
      host.WritesAll t.room ∧ (t.room.sections, t.room.named) = tally pbuf := by
  rw [← writeFile_full]
  constructor
  · rintro ⟨f, hfile, hfull, htally⟩
    cases hfile
    exact ⟨hfull, htally⟩
  · rintro ⟨hfull, htally⟩
    exact ⟨_, rfl, hfull, htally⟩

/-- The compiler stays inside the script and its tables and reports its result rightly for just
the scripts that it can manage, and where there is no memory. -/
theorem parserScript_meets_iff (host : Host) (pbuf : List Char) :
    Meets host pbuf ↔ (host.dest = false ∨ host.destData = false) ∨ Manageable host pbuf := by
  by_cases hmem : host.dest = false ∨ host.destData = false
  · refine iff_of_true ⟨leave (-1) none, ?_, ?_⟩ (.inl hmem)
    · rw [parserScript, if_pos hmem]
    · exact iff_of_false (by decide) fun h => not_complete_leave _ h.1
  · obtain ⟨hdest, hdata⟩ : host.dest ∧ host.destData := by simpa using hmem
    have hlines := takeLines_spec Tables.empty_sane (lineStarts pbuf)
    have hroom : Tables.empty.room = ⟨0, 0, 0, 0⟩ := rfl
    rw [or_iff_right hmem, Meets, parserScript_eq hdest hdata]
    cases hres : takeLines (lineStarts pbuf) .empty with
    | none =>
      simp only [hres, hroom] at hlines
      exact iff_of_false (fun ⟨o, ho, _⟩ => nomatch ho) fun hm => hlines hm.contained
    | some res =>
      cases res with
      | error t =>
        simp only [hres, hroom] at hlines
        obtain ⟨hcont, hrun, hret⟩ := hlines
        have hfail : ¬ (Complete pbuf (leave t.ret none) ∧ WellFormed pbuf) :=
          fun h => not_complete_leave _ h.1
        constructor
        · rintro ⟨o, ho, hiff⟩
          cases ho
          have hneg : ¬ 0 ≤ t.ret := fun h => hfail (hiff.1 (leave_ret_eq_zero.2 h))
          refine ⟨hcont, not_not.1 fun hlong => hneg (hret.2 hlong), fun r hr => ?_⟩
          cases hrun.symm.trans hr
        · intro hm
          refine ⟨_, rfl, iff_of_false (fun h => ?_) hfail⟩
          exact hret.1 (leave_ret_eq_zero.1 h) hm.longFirst
      | ok t =>
        simp only [hres, hroom] at hlines
        obtain ⟨hcont, hrun, hlong, hsane⟩ := hlines
        have hentries : 0 ≤ t.ret ↔ t.room.entries ≠ 0 :=
          hsane.ret.trans (not_congr List.length_eq_zero_iff.symm)
        have hmanage : Manageable host pbuf ↔ (t.room.sections ≠ 0 → (t.room.entries ≠ 0 ↔
            (host.WritesAll t.room ∧ (t.room.sections, t.room.named) = tally pbuf) ∧
              WellFormed pbuf)) := by
          refine ⟨fun hm => hm.entries _ hrun, fun h => ⟨hcont, hlong, fun r hr => ?_⟩⟩
          cases hrun.symm.trans hr
          exact h
        rw [hmanage]
        by_cases hitems : t.itemTable = []
        · have hsections : t.room.sections = 0 := List.length_eq_zero_iff.2 hitems
          have hneg : ¬ 0 ≤ t.ret := fun h => hsane.ret.1 h (hsane.dest hitems)
          refine iff_of_true ⟨leave t.ret none, if_pos hitems, ?_⟩ fun h => absurd hsections h
          exact iff_of_false (fun h => hneg (leave_ret_eq_zero.1 h)) fun h => not_complete_leave _ h.1
        · have hsections : t.room.sections ≠ 0 := fun h => hitems (List.length_eq_zero_iff.1 h)
          simp only [if_neg hitems, Option.some.injEq, exists_eq_left', leave_ret_eq_zero,
            complete_writeFile, hentries]
          exact ⟨fun h _ => h, fun h => h hsections⟩

/-- A host with memory for the tables and room in the file. -/
def roomyHost : Host := ⟨true, true, fun _ => destBytes⟩

/-- An empty line at the end takes the parser behind the script, and a section without its bracket
is reported as compiled. -/
theorem parserScript_meets_not :
    ¬ Meets roomyHost "[a]\nx=1\n\n".toList ∧ ¬ Meets roomyHost "[a\nx=1\n[b]\ny=2\n".toList := by
  constructor
  · have hnone : parserScript roomyHost "[a]\nx=1\n\n".toList = none := by decide +kernel
    rintro ⟨o, ho, -⟩
    cases hnone.symm.trans ho
  · have hret : (parserScript roomyHost "[a\nx=1\n[b]\ny=2\n".toList).map (·.ret) = some 0 := by
      decide +kernel
    rintro ⟨o, ho, hiff⟩
    rw [ho, Option.map_some, Option.some.injEq] at hret
    obtain ⟨-, -, hbracket⟩ := (hiff.1 hret).2 ['[', 'a', '\n'] (by decide)
    have hmem : ']' ∈ ['[', 'a', '\n'] := hbracket
    exact absurd hmem (by decide)

end Melis.Script
