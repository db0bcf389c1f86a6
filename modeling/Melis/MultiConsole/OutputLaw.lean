import Melis.MultiConsole.Output

/-!
# What the console hands over

`console_iff`: a run of the threads hands over the text of each call, with a carriage return in
front of each line feed, just if every call still finds its own text when it hands it over.
-/

namespace Melis.MultiConsole

open Lib Function

variable {l l' inbuf outbuf sent : List UInt8} {c : UInt8} {size i j n nbytes : Nat}

/-- The text, with a carriage return in front of each line feed. -/
def polished (l : List UInt8) : List UInt8 := l.flatMap polite

@[simp] theorem polished_nil : polished [] = [] := rfl

@[simp] theorem polished_cons : polished (c :: l) = polite c ++ polished l := List.flatMap_cons

theorem length_polite : (polite c).length = (if c = lineFeed then 1 else 0) + 1 := by
  unfold polite
  split <;> rfl

theorem length_polished : (polished l).length = l.count lineFeed + l.length := by
  induction l with
  | nil => rfl
  | cons c l ih =>
    rw [polished_cons, List.length_append, length_polite, ih, List.count_cons, List.length_cons]
    simp only [beq_iff_eq]
    omega

theorem polished_eq_self (h : lineFeed ∉ l) : polished l = l := by
  induction l with
  | nil => rfl
  | cons c l ih =>
    obtain ⟨hc, hl⟩ := not_or.1 (mt List.mem_cons.2 h)
    rw [polished_cons, ih hl, polite, if_neg (Ne.symm hc)]
    rfl

/-- What is polished does not begin with a line feed. -/
theorem head_polished (h : polished l = lineFeed :: l') : False := by
  cases l with
  | nil => exact nomatch h
  | cons c l =>
    rw [polished_cons, polite] at h
    split at h
    · exact absurd (List.cons.inj h).1 (by decide)
    · rename_i hc
      exact hc (List.cons.inj h).1

/-- The text can be told from what is polished. -/
theorem polished_inj (h : polished l = polished l') : l = l' := by
  induction l generalizing l' with
  | nil =>
    cases l' with
    | nil => rfl
    | cons d l' =>
      have hlength := congrArg List.length h
      rw [length_polished, length_polished] at hlength
      simp at hlength
  | cons c l ih =>
    cases l' with
    | nil =>
      have hlength := congrArg List.length h
      rw [length_polished, length_polished] at hlength
      simp at hlength
    | cons d l' =>
      rw [polished_cons, polished_cons] at h
      by_cases hc : c = lineFeed <;> by_cases hd : d = lineFeed
      · rw [hc, hd] at h ⊢
        rw [ih (List.append_cancel_left h)]
      · -- the carriage return of `l'` would stand before a line feed
        simp only [polite, hc, hd, if_true, if_false, List.cons_append, List.nil_append,
          List.cons.injEq] at h
        exact (head_polished h.2.symm).elim
      · simp only [polite, hc, hd, if_true, if_false, List.cons_append, List.nil_append,
          List.cons.injEq] at h
        exact (head_polished h.2).elim
      · simp only [polite, hc, hd, if_false, List.cons_append, List.nil_append,
          List.cons.injEq] at h
        rw [h.1, ih h.2]

/-! ## The loops -/

theorem take_drop_succ (h : j < l.length) :
    ∃ c, l[j]? = some c ∧ (l.drop j).take (size + 1) = c :: (l.drop (j + 1)).take size := by
  refine ⟨l[j], List.getElem?_eq_getElem h, ?_⟩
  rw [List.drop_eq_getElem_cons h, List.take_succ_cons]

theorem uartLoop_eq (hlength : i + size ≤ inbuf.length) (hsize : i + size < 2 ^ 31) :
    uartLoop inbuf size i sent = some (sent ++ polished ((inbuf.drop i).take size)) := by
  induction size generalizing i sent with
  | zero => simp [uartLoop]
  | succ size ih =>
    obtain ⟨c, hc, htake⟩ := @take_drop_succ inbuf size i (by omega)
    rw [uartLoop, hc, htake, Option.bind_eq_bind, Option.bind_some, if_pos (by omega),
      ih (by omega) (by omega), polished_cons, List.append_assoc]

/-- The index overflows. -/
theorem uartLoop_none (hi : i < 2 ^ 31) (hsize : 2 ^ 31 ≤ i + size) :
    uartLoop inbuf size i sent = none := by
  induction size generalizing i sent with
  | zero => omega
  | succ size ih =>
    rw [uartLoop]
    cases inbuf[i]? with
    | none => rfl
    | some c =>
      rw [Option.bind_eq_bind, Option.bind_some]
      split
      · exact ih ‹_› (by omega)
      · rfl

theorem countLoop_eq (hlength : i + size ≤ inbuf.length) :
    countLoop inbuf size i n = some (n + ((inbuf.drop i).take size).count lineFeed) := by
  induction size generalizing i n with
  | zero => simp [countLoop]
  | succ size ih =>
    obtain ⟨c, hc, htake⟩ := @take_drop_succ inbuf size i (by omega)
    rw [countLoop, hc, htake, Option.bind_eq_bind, Option.bind_some, ih (by omega),
      List.count_cons]
    simp only [beq_iff_eq, Option.some.injEq]
    split <;> omega

/-- The next byte is put behind those in front. -/
theorem store_append {d : UInt8} (h : sent.length + 1 < 2 ^ 31) :
    store (sent ++ d :: outbuf) sent.length c = some (sent ++ [c] ++ outbuf) := by
  unfold store
  rw [if_pos ⟨by simp, h⟩]
  simp

theorem formatLoop_feed (hc : inbuf[j]? = some lineFeed) :
    formatLoop inbuf (size + 1) j i outbuf =
      (store outbuf i carriageReturn).bind fun outbuf =>
        (store outbuf (i + 1) lineFeed).bind fun outbuf =>
          formatLoop inbuf size (j + 1) (i + 2) outbuf := by
  rw [formatLoop, hc]
  rfl

theorem formatLoop_other (hc : inbuf[j]? = some c) (hother : c ≠ lineFeed) :
    formatLoop inbuf (size + 1) j i outbuf =
      (store outbuf i c).bind fun outbuf => formatLoop inbuf size (j + 1) (i + 1) outbuf := by
  rw [formatLoop, hc, Option.bind_eq_bind, Option.bind_some, if_neg hother]
  rfl

theorem polite_feed : polite lineFeed = [carriageReturn, lineFeed] := rfl

theorem polite_other (h : c ≠ lineFeed) : polite c = [c] := if_neg h

/-- The bytes written so far stand in front. -/
theorem formatLoop_eq (hlength : j + size ≤ inbuf.length)
    (hout : (polished ((inbuf.drop j).take size)).length ≤ outbuf.length)
    (hsize : sent.length + (polished ((inbuf.drop j).take size)).length < 2 ^ 31) :
    formatLoop inbuf size j sent.length (sent ++ outbuf) =
      some (sent ++ polished ((inbuf.drop j).take size) ++
        outbuf.drop (polished ((inbuf.drop j).take size)).length) := by
  induction size generalizing j sent outbuf with
  | zero => simp [formatLoop]
  | succ size ih =>
    obtain ⟨c, hc, htake⟩ := @take_drop_succ inbuf size j (by omega)
    rw [htake, polished_cons, List.length_append] at hout hsize
    rw [htake, polished_cons]
    by_cases hfeed : c = lineFeed
    · subst hfeed
      rw [polite_feed, List.length_cons, List.length_singleton] at hout hsize
      match outbuf with
      | [] | [_] =>
        simp only [List.length_cons, List.length_nil] at hout
        omega
      | d :: e :: outbuf =>
        simp only [List.length_cons] at hout
        have hput := @store_append outbuf (sent ++ [carriageReturn]) lineFeed e (by simp; omega)
        have hrest := @ih outbuf (sent ++ [carriageReturn] ++ [lineFeed]) (j + 1) (by omega)
          (by omega) (by simp only [List.length_append, List.length_singleton]; omega)
        simp only [List.length_append, List.length_singleton] at hput hrest
        rw [formatLoop_feed hc, store_append (by omega), Option.bind_some, hput, Option.bind_some,
          hrest, polite_feed]
        simp
    · rw [polite_other hfeed, List.length_singleton] at hout hsize
      match outbuf with
      | [] =>
        rw [List.length_nil] at hout
        omega
      | d :: outbuf =>
        rw [List.length_cons] at hout
        have hrest := @ih outbuf (sent ++ [c]) (j + 1) (by omega) (by omega)
          (by simp only [List.length_append, List.length_singleton]; omega)
        rw [List.length_append, List.length_singleton] at hrest
        rw [formatLoop_other hc hfeed, store_append (by omega), Option.bind_some, hrest,
          polite_other hfeed]
        simp [Nat.add_comm 1]

theorem lt_of_store (h : store outbuf i c = some sent) : i + 1 < 2 ^ 31 := by
  by_contra hover
  cases (if_neg fun hi => hover hi.2).symm.trans h

/-- The index overflows. -/
theorem formatLoop_none (hlength : j + size ≤ inbuf.length) (hi : i < 2 ^ 31)
    (hsize : 2 ^ 31 ≤ i + (polished ((inbuf.drop j).take size)).length) :
    formatLoop inbuf size j i outbuf = none := by
  induction size generalizing j i outbuf with
  | zero =>
    rw [List.take_zero, polished_nil, List.length_nil] at hsize
    omega
  | succ size ih =>
    obtain ⟨c, hc, htake⟩ := @take_drop_succ inbuf size j (by omega)
    rw [htake, polished_cons, List.length_append] at hsize
    by_cases hfeed : c = lineFeed
    · subst hfeed
      rw [polite_feed, List.length_cons, List.length_singleton] at hsize
      rw [formatLoop_feed hc]
      refine Option.bind_eq_none_iff.2 fun _ _ => Option.bind_eq_none_iff.2 fun _ hput => ?_
      have hlt := lt_of_store hput
      exact ih (by omega) (by omega) (by omega)
    · rw [polite_other hfeed, List.length_singleton] at hsize
      rw [formatLoop_other hc hfeed]
      refine Option.bind_eq_none_iff.2 fun _ hput => ?_
      have hlt := lt_of_store hput
      exact ih (by omega) (by omega) (by omega)

/-! ## One call -/

theorem readBytes_append : readBytes (l ++ l') l.length = some l := by
  unfold readBytes
  rw [if_pos (by simp), List.take_left]

theorem newLineFormatWrite_eq (hlength : nbytes ≤ inbuf.length)
    (hout : (polished (inbuf.take nbytes)).length ≤ outbuf.length)
    (hsize : (polished (inbuf.take nbytes)).length < 2 ^ 31) (answer : Int) :
    ∃ wbytes, newLineFormatWrite inbuf outbuf nbytes (polished (inbuf.take nbytes)).length answer =
      some (polished (inbuf.take nbytes), wbytes) := by
  have hloop := @formatLoop_eq inbuf outbuf [] nbytes 0 (by omega) (by simpa using hout)
    (by simpa using hsize)
  rw [List.drop_zero, List.nil_append, List.nil_append, List.length_nil] at hloop
  unfold newLineFormatWrite
  rw [hloop, Option.bind_eq_bind, Option.bind_some, readBytes_append]
  exact ⟨_, rfl⟩

section DeviceWrite

variable (hlength : nbytes ≤ inbuf.length)
include hlength

theorem countLoop_length :
    countLoop inbuf nbytes 0 0 = some ((inbuf.take nbytes).count lineFeed) ∧
      (inbuf.take nbytes).count lineFeed + nbytes = (polished (inbuf.take nbytes)).length := by
  rw [countLoop_eq (by omega), Nat.zero_add, List.drop_zero, length_polished,
    List.length_take_of_le hlength]
  exact ⟨rfl, rfl⟩

variable (hsize : nbytes < 2 ^ 31)
include hsize

/-- A translation buffer takes the text. -/
theorem deviceWrite_polished {malloc : Bool} (hfits : (polished (inbuf.take nbytes)).length < 2 ^ 31)
    (hmalloc : 64 < (polished (inbuf.take nbytes)).length → malloc = true) (answer : Int) :
    ∃ wbytes, deviceWrite inbuf nbytes malloc answer =
      some (polished (inbuf.take nbytes), wbytes) := by
  obtain ⟨hcount, hadd⟩ := countLoop_length hlength
  unfold deviceWrite
  rw [if_pos hsize, hcount, Option.bind_eq_bind, Option.bind_some, hadd]
  split
  · rename_i hlarge
    rw [if_pos (hmalloc hlarge)]
    exact newLineFormatWrite_eq hlength (by simp) hfits answer
  · exact newLineFormatWrite_eq hlength (by simp; omega) hfits answer

/-- Without memory the text goes as it is. -/
theorem deviceWrite_raw (hlarge : 64 < (polished (inbuf.take nbytes)).length) (answer : Int) :
    deviceWrite inbuf nbytes false answer = some (inbuf.take nbytes, answer) := by
  obtain ⟨hcount, hadd⟩ := countLoop_length hlength
  unfold deviceWrite
  rw [if_pos hsize, hcount, Option.bind_eq_bind, Option.bind_some, hadd, if_pos hlarge,
    if_neg (by decide), readBytes, if_pos hlength]
  rfl

theorem deviceWrite_none (hover : 2 ^ 31 ≤ (polished (inbuf.take nbytes)).length) (answer : Int) :
    deviceWrite inbuf nbytes true answer = none := by
  obtain ⟨hcount, hadd⟩ := countLoop_length hlength
  unfold deviceWrite
  rw [if_pos hsize, hcount, Option.bind_eq_bind, Option.bind_some, hadd, if_pos (by omega),
    if_pos rfl, newLineFormatWrite, formatLoop_none (by omega) (by decide)]
  · rfl
  · simpa using hover

end DeviceWrite

/-! ## The promises -/

variable {R : State} {s s' : ConsoleState} {p : Pending} {via : State.Via} {malloc : Bool}
  {answer : Int} {t u : Nat} {caller : Caller} {text : List UInt8} {step : Step}

/-- Where the bytes of a call go. -/
def Pending.route (R : State) (p : Pending) : Option State.Via :=
  R.cliConsoleWrite p.caller.irq p.caller.console p.caller.cur

/-- What a device is to get for a text. -/
def due (text : List UInt8) : State.Via → List UInt8
  | .device _ false => []
  | _ => polished text

/-- A call hands over its own text, once, and the others hand over nothing. -/
def Handed (R : State) (s : ConsoleState) (step : Step) (s' : ConsoleState) : Prop :=
  match step with
  | .handOver t _ _ => ∃ p via ret, s.pending t = some p ∧ p.route R = some via ∧
    s'.output = s.output ++ [⟨via, due p.own via, ret⟩]
  | _ => s'.output = s.output

/-- The call finds its own text, and its size is one of an `int`. -/
def Intact (s : ConsoleState) (p : Pending) : Prop :=
  p.nbytes < 2 ^ 31 ∧ (s.inbuf p).take p.nbytes = p.own

/-- A large text gets its translation buffer, which an `int` can index, or needs none. -/
def Translated (own : List UInt8) (malloc : Bool) : Prop :=
  64 < (polished own).length →
    if malloc then (polished own).length < 2 ^ 31 else lineFeed ∉ own

def CallSound (s : ConsoleState) (p : Pending) (malloc : Bool) : State.Via → Prop
  | .uart => Intact s p
  | .device _ true => Intact s p ∧ Translated p.own malloc
  | .device _ false => True

/-- When the calls keep the promise. -/
def Undisturbed (R : State) (s : ConsoleState) : Step → Prop
  | .handOver t malloc _ => ∀ p, s.pending t = some p → ∀ via, p.route R = some via →
    CallSound s p malloc via
  | _ => True

/-- A thread makes one call after the other, and checks before it hands over. -/
def Possible (s : ConsoleState) : Step → Prop
  | .printf t _ _ => s.pending t = none
  | .write t _ _ => s.pending t = none
  | .check t => ∃ p, s.pending t = some p ∧ p.checked = false
  | .handOver t _ _ => ∃ p, s.pending t = some p ∧ p.checked = true

/-- What holds between the steps. -/
structure Held (s : ConsoleState) : Prop where
  length : s.cliConsoleDebugBuf.length = cliConsoleDebugBufSize
  /-- The formatter writes no text behind byte 510. -/
  ending : s.cliConsoleDebugBuf.drop 510 = [0, 0]
  size : ∀ t p, s.pending t = some p → p.nbytes < 2 ^ 31 →
    p.own.length = p.nbytes ∧ p.nbytes ≤ (s.inbuf p).length

/-! ## The buffer -/

theorem formatPrintf_eq (buf text : List UInt8) :
    (formatPrintf buf text).1 = text.take 510 ++ 0 :: buf.drop (min 510 text.length + 1) := by
  show text.take 510 ++ [0] ++ buf.drop (text.take 510 ++ [0]).length = _
  simp

theorem formatPrintf_length {buf : List UInt8} (text : List UInt8)
    (hlength : buf.length = cliConsoleDebugBufSize) :
    (formatPrintf buf text).1.length = cliConsoleDebugBufSize := by
  rw [formatPrintf_eq, List.length_append, List.length_take, List.length_cons, List.length_drop,
    hlength]
  unfold cliConsoleDebugBufSize
  omega

theorem formatPrintf_ending {buf : List UInt8} (text : List UInt8)
    (hending : buf.drop 510 = [0, 0]) : (formatPrintf buf text).1.drop 510 = [0, 0] := by
  rw [formatPrintf_eq, List.drop_append, List.length_take]
  by_cases hlong : 510 ≤ text.length
  · rw [Nat.min_eq_left hlong, List.drop_of_length_le (List.length_take_le _ _), Nat.sub_self,
      List.nil_append, List.drop_zero, ← List.drop_drop, hending]
    rfl
  · have hrest : 510 - text.length = 509 - text.length + 1 := by omega
    rw [Nat.min_eq_right (by omega), List.drop_of_length_le (by rw [List.length_take]; omega),
      List.nil_append, hrest, List.drop_succ_cons, List.drop_drop]
    have hadd : text.length + 1 + (509 - text.length) = 510 := by omega
    rw [hadd, hending]

/-- A text that fits is there when the formatter is through. -/
theorem formatPrintf_take {buf : List UInt8} (hfits : text.length ≤ 510) :
    (formatPrintf buf text).1.take text.length = text := by
  rw [formatPrintf_eq, List.take_of_length_le hfits, List.take_left]

/-- A longer text without a zero byte is not. -/
theorem fits_of_take {buf : List UInt8} (hending : buf.drop 510 = [0, 0]) (hzero : 0 ∉ text)
    (htake : buf.take (min text.length 512) = text.take 512) : text.length ≤ 510 := by
  by_contra hlong
  have hat := congrArg (fun l => l[510]?) htake
  have hlast : buf[510]? = some 0 := by
    have hdrop := congrArg (fun l => l[0]?) hending
    simpa using hdrop
  rw [List.getElem?_take_of_lt (by omega), List.getElem?_take_of_lt (by omega), hlast] at hat
  exact hzero (List.mem_of_getElem? hat.symm)

/-! ## One step -/

theorem uartLoop_iff (hsize : p.nbytes < 2 ^ 31 →
    p.own.length = p.nbytes ∧ p.nbytes ≤ (s.inbuf p).length) :
    Intact s p ↔ (uartLoop (s.inbuf p) p.nbytes 0 []) = some (polished p.own) := by
  by_cases hint : p.nbytes < 2 ^ 31
  · obtain ⟨-, hlength⟩ := hsize hint
    rw [uartLoop_eq (by omega) (by omega), List.drop_zero, List.nil_append, Option.some.injEq]
    exact ⟨fun h => congrArg polished h.2, fun h => ⟨hint, polished_inj h⟩⟩
  · rw [uartLoop_none (by decide) (by omega)]
    exact iff_of_false (fun h => hint h.1) nofun

/-- The text of a call keeps its length only where it has no line feed. -/
theorem raw_iff (hlength : p.own.length = l.length) :
    l = polished p.own ↔ l = p.own ∧ lineFeed ∉ p.own := by
  constructor
  · intro heq
    have hcount := congrArg List.length heq
    rw [length_polished, hlength] at hcount
    have hnot : lineFeed ∉ p.own := List.count_eq_zero.1 (by omega)
    exact ⟨heq.trans (polished_eq_self hnot), hnot⟩
  · rintro ⟨heq, hnot⟩
    exact heq.trans (polished_eq_self hnot).symm

theorem deviceWrite_iff (hsize : p.nbytes < 2 ^ 31 →
    p.own.length = p.nbytes ∧ p.nbytes ≤ (s.inbuf p).length) :
    Intact s p ∧ Translated p.own malloc ↔
      ∃ wbytes, deviceWrite (s.inbuf p) p.nbytes malloc answer = some (polished p.own, wbytes) := by
  by_cases hint : p.nbytes < 2 ^ 31
  · obtain ⟨hown, hlength⟩ := hsize hint
    have hintact : Intact s p ↔ (s.inbuf p).take p.nbytes = p.own := and_iff_right hint
    cases malloc with
    | true =>
      by_cases hfits : (polished ((s.inbuf p).take p.nbytes)).length < 2 ^ 31
      · obtain ⟨wbytes, hwrite⟩ := deviceWrite_polished hlength hint hfits (fun _ => rfl) answer
        rw [hwrite, hintact]
        constructor
        · rintro ⟨heq, -⟩
          exact ⟨wbytes, by rw [heq]⟩
        · rintro ⟨_, hsome⟩
          have heq := polished_inj (Prod.mk.inj (Option.some.inj hsome)).1
          refine ⟨heq, fun _ => ?_⟩
          rw [if_pos rfl, ← heq]
          exact hfits
      · rw [deviceWrite_none hlength hint (Nat.not_lt.1 hfits), hintact]
        refine iff_of_false ?_ fun ⟨_, hsome⟩ => nomatch hsome
        rintro ⟨heq, htranslated⟩
        rw [heq] at hfits
        exact hfits (htranslated (by omega))
    | false =>
      by_cases hlarge : 64 < (polished ((s.inbuf p).take p.nbytes)).length
      · rw [deviceWrite_raw hlength hint hlarge, hintact]
        have hraw := @raw_iff ((s.inbuf p).take p.nbytes) p
          (by rw [List.length_take_of_le hlength, hown])
        constructor
        · rintro ⟨heq, htranslated⟩
          exact ⟨answer, by rw [hraw.2 ⟨heq, htranslated (heq ▸ hlarge)⟩]⟩
        · rintro ⟨_, hsome⟩
          obtain ⟨heq, hnot⟩ := hraw.1 (Prod.mk.inj (Option.some.inj hsome)).1
          exact ⟨heq, fun _ => hnot⟩
      · obtain ⟨wbytes, hwrite⟩ := @deviceWrite_polished (s.inbuf p) p.nbytes hlength hint false
          (by omega) (fun h => absurd h hlarge) answer
        rw [hwrite, hintact]
        constructor
        · rintro ⟨heq, -⟩
          exact ⟨wbytes, by rw [heq]⟩
        · rintro ⟨_, hsome⟩
          have heq := polished_inj (Prod.mk.inj (Option.some.inj hsome)).1
          exact ⟨heq, fun h => absurd (heq ▸ h) hlarge⟩
  · rw [deviceWrite, if_neg hint]
    exact iff_of_false (fun h => hint h.1.1) fun ⟨_, hsome⟩ => nomatch hsome

/-- A sound call is one that hands over what is due. -/
theorem callSound_iff (h : Held s) (hp : s.pending t = some p) :
    CallSound s p malloc via ↔
      ∃ wbytes, handOver (s.inbuf p) p.nbytes malloc answer via = some (due p.own via, wbytes) := by
  have hsize := h.size t p hp
  cases via with
  | uart =>
    rw [CallSound, uartLoop_iff hsize, handOver]
    constructor
    · intro hsent
      exact ⟨_, by rw [hsent]; rfl⟩
    · rintro ⟨_, hsome⟩
      obtain ⟨sent, hsent, heq⟩ := Option.map_eq_some_iff.1 hsome
      rw [hsent, (Prod.mk.inj heq).1]
      rfl
  | device c called =>
    cases called with
    | true => exact deviceWrite_iff hsize
    | false => exact iff_of_true trivial ⟨-1, rfl⟩

theorem setPending_self {q : Option Pending} : (s.setPending t q).pending t = q := by
  show update s.pending t q t = q
  rw [update_self]

theorem setPending_ne {q : Option Pending} (h : u ≠ t) :
    (s.setPending t q).pending u = s.pending u := by
  show update s.pending t q u = _
  rw [update_of_ne h]

/-- A call that is begun finds its own size. -/
theorem Held.begin (h : Held s) {buf : List UInt8} (hlength : buf.length = cliConsoleDebugBufSize)
    (hending : buf.drop 510 = [0, 0]) (t : Nat)
    (hsize : p.nbytes < 2 ^ 31 → p.own.length = p.nbytes ∧ p.nbytes ≤ (p.buf.getD buf).length) :
    Held ({ s with cliConsoleDebugBuf := buf }.setPending t (some p)) := by
  refine ⟨hlength, hending, fun u q hq hint => ?_⟩
  by_cases hu : u = t
  · subst hu
    cases setPending_self.symm.trans hq
    exact hsize hint
  · obtain ⟨hown, hle⟩ := h.size u q ((setPending_ne hu).symm.trans hq) hint
    refine ⟨hown, ?_⟩
    unfold ConsoleState.inbuf at hle ⊢
    cases hbuf : q.buf with
    | none =>
      rw [hbuf, Option.getD_none, h.length, ← hlength] at hle
      exact hle
    | some buf' =>
      rw [hbuf] at hle
      exact hle

theorem Held.finish (h : Held s) (t : Nat) (output : List Output) :
    Held ({ s with output }.setPending t none) := by
  refine ⟨h.length, h.ending, fun u q hq hint => ?_⟩
  by_cases hu : u = t
  · subst hu
    cases setPending_self.symm.trans hq
  · exact h.size u q ((setPending_ne hu).symm.trans hq) hint

/-- The size that `cli_console_write` is given. -/
theorem formatPrintf_size (buf text : List UInt8) :
    ((formatPrintf buf text).2 % 2 ^ 32).toNat =
      if text.length < 2 ^ 31 then min text.length cliConsoleDebugBufSize else 2 ^ 32 - 1 := by
  show ((if (if text.length < 2 ^ 31 then (text.length : Int) else -1) > cliConsoleDebugBufSize then
    (cliConsoleDebugBufSize : Int) else if text.length < 2 ^ 31 then (text.length : Int) else -1) %
      2 ^ 32).toNat = _
  unfold cliConsoleDebugBufSize
  split <;> split <;> omega

theorem Held.printf (h : Held s) (t : Nat) (caller : Caller) (text : List UInt8) :
    Held (s.cliConsolePrintf t caller text) := by
  have hlength := formatPrintf_length text h.length
  have hsize := formatPrintf_size s.cliConsoleDebugBuf text
  refine h.begin hlength (formatPrintf_ending text h.ending) t fun hint => ?_
  show (text.take cliConsoleDebugBufSize).length =
      ((formatPrintf s.cliConsoleDebugBuf text).2 % 2 ^ 32).toNat ∧
    ((formatPrintf s.cliConsoleDebugBuf text).2 % 2 ^ 32).toNat ≤ (formatPrintf _ text).1.length
  have hint' : ((formatPrintf s.cliConsoleDebugBuf text).2 % 2 ^ 32).toNat < 2 ^ 31 := hint
  rw [hsize] at hint'
  have hlt : text.length < 2 ^ 31 := by
    by_contra hlong
    rw [if_neg hlong] at hint'
    omega
  rw [if_pos hlt] at hsize
  rw [List.length_take, hlength, hsize, Nat.min_comm]
  exact ⟨rfl, Nat.min_le_right _ _⟩

/-- Where no other call follows, a text without a zero byte is found just if it fits. -/
theorem intact_printf_iff (h : Held s) (hzero : 0 ∉ text)
    (hp : (s.cliConsolePrintf t caller text).pending t = some p) :
    Intact (s.cliConsolePrintf t caller text) p ↔ text.length ≤ 510 := by
  have hsize := formatPrintf_size s.cliConsoleDebugBuf text
  cases setPending_self.symm.trans hp
  show ((formatPrintf s.cliConsoleDebugBuf text).2 % 2 ^ 32).toNat < 2 ^ 31 ∧
    (formatPrintf s.cliConsoleDebugBuf text).1.take
      ((formatPrintf s.cliConsoleDebugBuf text).2 % 2 ^ 32).toNat = text.take 512 ↔ _
  rw [hsize]
  constructor
  · rintro ⟨hint, htake⟩
    have hlt : text.length < 2 ^ 31 := by
      by_contra hlong
      rw [if_neg hlong] at hint
      omega
    rw [if_pos hlt] at htake
    exact fits_of_take (formatPrintf_ending text h.ending) hzero htake
  · intro hfits
    rw [if_pos (by omega), Nat.min_eq_left (by unfold cliConsoleDebugBufSize; omega),
      formatPrintf_take hfits, List.take_of_length_le (by omega)]
    exact ⟨by omega, rfl⟩

theorem Held.write (h : Held s) (t : Nat) (caller : Caller) (buf : List UInt8) :
    Held (s.cliConsoleWrite t caller buf) :=
  h.begin h.length h.ending t fun _ => ⟨rfl, Nat.le_refl _⟩

theorem handOver_exact (hR : Inv R) (h : Held s) (hp : s.pending t = some p)
    (hchecked : p.checked = true) :
    (console R).Exact Held (fun _ => True) (Handed R) (Undisturbed R) s
      (.handOver t malloc answer) := by
  obtain ⟨via, hroute, -⟩ := hR.good.write p.caller.irq p.caller.console p.caller.cur
  have hsound : Undisturbed R s (.handOver t malloc answer) ↔ CallSound s p malloc via := by
    constructor
    · intro hall
      exact hall p hp via hroute
    · intro hcall q hq via' hvia'
      cases hp.symm.trans hq
      cases hroute.symm.trans hvia'
      exact hcall
  have hnext : (console R).next s (.handOver t malloc answer) =
      (handOver (s.inbuf p) p.nbytes malloc answer via).map fun r =>
        { s with output := s.output ++ [Output.mk via r.1 (p.ret.getD r.2)] }.setPending t none := by
    show s.next R (.handOver t malloc answer) = _
    unfold ConsoleState.next
    simp only [hp, hchecked, hroute, if_true, Option.bind_eq_bind, Option.bind_some,
      Option.map_eq_bind]
    rfl
  by_cases hcall : CallSound s p malloc via
  · obtain ⟨wbytes, hgiven⟩ := (callSound_iff h hp).1 hcall
    rw [hgiven] at hnext
    have hhanded : Handed R s (.handOver t malloc answer) ({ s with
        output := s.output ++ [Output.mk via (due p.own via) (p.ret.getD wbytes)] }.setPending t none) :=
      ⟨p, via, _, hp, hroute, rfl⟩
    exact .kept (hsound.2 hcall) _ hnext hhanded (h.finish t _)
  · refine .lost (fun hs => hcall (hsound.1 hs)) fun s' hs' hhanded _ => hcall ?_
    rw [hnext] at hs'
    obtain ⟨⟨bytes, wbytes⟩, hgiven, rfl⟩ := Option.map_eq_some_iff.1 hs'
    obtain ⟨q, via', ret, hq, hvia', houtput⟩ := hhanded
    cases hp.symm.trans hq
    cases hroute.symm.trans hvia'
    have hlast := List.append_cancel_left houtput
    have hbytes : bytes = due p.own via := congrArg Output.bytes (List.cons.inj hlast).1
    rw [hbytes] at hgiven
    exact (callSound_iff h hp).2 ⟨wbytes, hgiven⟩

theorem step_exact (hR : Inv R) (h : Held s) (hpossible : Possible s step) :
    (console R).Exact Held (fun _ => True) (Handed R) (Undisturbed R) s step := by
  cases step with
  | printf t caller text => exact .kept trivial _ (if_pos hpossible) rfl (h.printf t caller text)
  | write t caller buf => exact .kept trivial _ (if_pos hpossible) rfl (h.write t caller buf)
  | check t =>
    obtain ⟨p, hp, hchecked⟩ := hpossible
    have hnext : (console R).next s (.check t) =
        some (s.setPending t (some { p with checked := true })) := by
      show s.next R (.check t) = _
      simp only [ConsoleState.next, hp, hchecked, Option.bind_eq_bind, Option.bind_some]
      rfl
    exact .kept trivial _ hnext rfl (h.begin h.length h.ending t (h.size t p hp))
  | handOver t malloc answer =>
    obtain ⟨p, hp, hchecked⟩ := hpossible
    exact handOver_exact hR h hp hchecked

theorem held_quiet : Held quiet := by
  refine ⟨List.length_replicate, ?_, fun _ _ hp => nomatch hp⟩
  show (List.replicate cliConsoleDebugBufSize 0).drop 510 = [0, 0]
  rw [List.drop_replicate]
  rfl

theorem upholds_console_iff (hR : Inv R) (h : Held s) {steps : List Step}
    (hpossible : (console R).Meets Possible s steps) :
    (console R).Upholds (fun _ => True) (Handed R) s steps ↔
      (console R).Meets (Undisturbed R) s steps :=
  Machine.upholds_iff_meets (fun _ _ => trivial) (fun _ _ h hp => step_exact hR h hp) h hpossible

/-- A run of the threads hands over what is due just if no call is disturbed. -/
theorem console_iff (R : State) (hR : Inv R) (steps : List Step)
    (hpossible : (console R).Meets Possible quiet steps) :
    (console R).Upholds (fun _ => True) (Handed R) quiet steps ↔
      (console R).Meets (Undisturbed R) quiet steps :=
  upholds_console_iff hR held_quiet hpossible

/-! ## Two threads -/

instance : DecidableRel Intact := fun _ _ => inferInstanceAs (Decidable (_ ∧ _))

instance (own : List UInt8) : ∀ malloc, Decidable (Translated own malloc)
  | true => inferInstanceAs (Decidable (_ → _ < _))
  | false => inferInstanceAs (Decidable (_ → lineFeed ∉ own))

instance (s : ConsoleState) (p : Pending) (malloc : Bool) : ∀ via, Decidable (CallSound s p malloc via)
  | .uart => inferInstanceAs (Decidable (Intact s p))
  | .device _ true => inferInstanceAs (Decidable (_ ∧ _))
  | .device _ false => .isTrue trivial

instance (R : State) (s : ConsoleState) : ∀ step, Decidable (Undisturbed R s step)
  | .handOver t malloc _ =>
    inferInstanceAs (Decidable (∀ p ∈ s.pending t, ∀ via ∈ p.route R, CallSound s p malloc via))
  | .printf _ _ _ | .write _ _ _ | .check _ => .isTrue trivial

instance (s : ConsoleState) : ∀ step, Decidable (Possible s step)
  | .printf t _ _ | .write t _ _ => inferInstanceAs (Decidable (s.pending t = none))
  | .check t => inferInstanceAs (Decidable (∃ p ∈ s.pending t, p.checked = false))
  | .handOver t _ _ => inferInstanceAs (Decidable (∃ p ∈ s.pending t, p.checked = true))

/-- A task that prints to the serial port. -/
def task (cur : Nat) : Caller := ⟨false, none, cur⟩

/-- One thread prints a line while another one writes a line feed. -/
theorem console_iff_lines : (console start).Upholds (fun _ => True) (Handed start) quiet
    [.printf 1 (task 0) [97, 10], .write 2 (task 0) [10], .check 2, .check 1, .handOver 2 true 0,
      .handOver 1 true 0] :=
  (console_iff start inv_start _ (by decide +kernel)).2 (by decide +kernel)

/-- A second thread formats its text before the first one has handed over its own. -/
theorem console_not : ¬ (console start).Upholds (fun _ => True) (Handed start) quiet
    [.printf 1 (task 0) [97], .printf 2 (task 0) [98], .check 1, .handOver 1 true 0] := by
  rw [upholds_console_iff inv_start held_quiet (by decide +kernel)]
  decide +kernel

end Melis.MultiConsole
