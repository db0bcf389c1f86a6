import Melis.Lib.Run
import Melis.Script.Scanners

/-!
# The room that a script takes

A `Room` counts what the tables hold. A line of a script moves it as it moves the tables
(`Tables.fillLine_spec`), unless the parser stops there, and says whether the parser stays inside
the script and the tables (`Room.Inside`).
-/

namespace Melis.Script

open Lib

structure Room where
  sections : Nat
  entries : Nat
  named : Nat
  words : Nat
  deriving DecidableEq, Repr

def Tables.room (t : Tables) : Room :=
  ⟨t.itemTable.length, t.dest.length, t.dest.countP (·.subName ≠ []), t.destData.length⟩

/-- The name of the entry in `x` as a C string. -/
def entryName (x : List Char) : CStr := (nameText x).takeWhile (· ≠ nul)

namespace Room

variable (r : Room)

/-- The name and the value of an entry are read and written within their tables. -/
def Fits (name value : CStr) : Prop :=
  ValueContained value ∧ entryBytes * r.entries + name.length + 1 ≤ destBytes ∧
    match convert value with
    | some (some (_, data)) =>
      entryBytes * (r.entries + 1) ≤ destBytes ∧ 4 * (r.words + data.length) ≤ destBytes
    | _ => True

/-- The line that starts `s` is taken within the script and the tables. -/
def Inside (s : List Char) : Prop :=
  match lineFlag (s.headD nul) with
  | .mainkey => r.sections < tiemMainMax ∧ MainkeyContained (s ++ [nul])
  | .subkey =>
    r.sections = 0 ∨
      EntryContained (s ++ [nul]) ∧ r.Fits (entryName (s ++ [nul])) (valueText (s ++ [nul]))
  | _ => True

/-- The room behind the line that starts `s`; `none` where the parser stops. -/
def next (s : List Char) : Option Room :=
  if TooLong s then none
  else
    match lineFlag (s.headD nul) with
    | .mainkey => some { r with sections := r.sections + 1 }
    | .subkey =>
      if r.sections = 0 then some r
      else
        match convert (valueText (s ++ [nul])) with
        | some (some (_, data)) =>
          some
            { r with
              entries := r.entries + 1
              named := if entryName (s ++ [nul]) = [] then r.named else r.named + 1
              words := r.words + data.length }
        | _ => none
    | _ => some r

end Room

theorem lineFlag_ne_error (ch : Char) : lineFlag ch ≠ .error := by
  unfold lineFlag
  split
  · simp
  · split <;> simp

def roomMachine : Machine Room (List Char) := ⟨Room.next⟩

/-- The result is that of an entry if there is one, and an entry is one of a section. -/
structure Tables.Sane (t : Tables) : Prop where
  ret : 0 ≤ t.ret ↔ t.dest ≠ []
  dest : t.itemTable = [] → t.dest = []

namespace Tables

variable {t t' : Tables} {s x : List Char}

theorem empty_sane : Tables.empty.Sane := ⟨by simp [Tables.empty], fun _ => rfl⟩

theorem addItem_spec (h : t.Sane) (x : List Char) :
    match t.addItem x with
    | none => ¬ (t.itemTable.length < tiemMainMax ∧ MainkeyContained x)
    | some t' =>
      (t.itemTable.length < tiemMainMax ∧ MainkeyContained x) ∧
        t'.room = { t.room with sections := t.room.sections + 1 } ∧ t'.Sane := by
  have hnone := fillLineMainkey_eq_none (x := x)
  unfold addItem
  cases hname : fillLineMainkey x with
  | none => exact fun h => hnone.1 hname h.2
  | some itemName =>
    have hin : MainkeyContained x := by
      by_contra hout
      rw [hnone.2 hout] at hname
      cases hname
    by_cases hlt : t.itemTable.length < tiemMainMax
    · simp only [if_neg (Nat.not_le.2 hlt)]
      exact ⟨⟨hlt, hin⟩, rfl, h.ret, fun h => absurd h (List.cons_ne_nil _ _)⟩
    · simp only [if_pos (Nat.not_lt.1 hlt)]
      exact fun h => hlt h.1

theorem pushEntry_spec (hitems : t.itemTable ≠ []) (name : CStr) (type : Nat) (data : List UInt32) :
    match t.pushEntry name type data with
    | none =>
      ¬ (entryBytes * (t.room.entries + 1) ≤ destBytes ∧
        4 * (t.room.words + data.length) ≤ destBytes)
    | some t' =>
      (entryBytes * (t.room.entries + 1) ≤ destBytes ∧
        4 * (t.room.words + data.length) ≤ destBytes) ∧
        t'.room = ⟨t.room.sections, t.room.entries + 1,
          if name = [] then t.room.named else t.room.named + 1, t.room.words + data.length⟩ ∧
        t'.Sane := by
  unfold pushEntry
  by_cases hout : destBytes < entryBytes * (t.dest.length + 1) ∨
      destBytes < 4 * (t.destData.length + data.length)
  · rw [if_pos hout]
    simp only [room]
    omega
  · rw [if_neg hout]
    simp only [room]
    refine ⟨by omega, ?_, ?_, ?_⟩
    · by_cases hname : name = [] <;> simp [hname, List.countP_append]
    · simp
    · intro hnil
      cases hitem : t.itemTable with
      | nil => exact absurd hitem hitems
      | cons item items => simp [hitem] at hnil

theorem addEntry_spec (hitems : t.itemTable ≠ []) (hx : Terminated x) :
    match t.addEntry x with
    | none => ¬ (EntryContained x ∧ t.room.Fits (entryName x) (valueText x))
    | some (.error t') =>
      (EntryContained x ∧ t.room.Fits (entryName x) (valueText x)) ∧
        convert (valueText x) = some none ∧ t'.ret = -1
    | some (.ok t') =>
      (EntryContained x ∧ t.room.Fits (entryName x) (valueText x)) ∧
        ∃ type data, convert (valueText x) = some (some (type, data)) ∧
          t'.room = ⟨t.room.sections, t.room.entries + 1,
            if entryName x = [] then t.room.named else t.room.named + 1,
            t.room.words + data.length⟩ ∧ t'.Sane := by
  unfold addEntry Room.Fits
  rw [getItemValue_eq hx]
  by_cases hin : EntryContained x
  · simp only [if_pos hin]
    have hname : (nameText x).takeWhile (· ≠ nul) = entryName x := rfl
    simp only [hname]
    by_cases hcopy : destBytes < entryBytes * t.dest.length + (entryName x).length + 1
    · rw [if_pos hcopy]
      exact fun h => Nat.not_lt.2 h.2.2.1 hcopy
    · rw [if_neg hcopy]
      have hcopy' : entryBytes * t.room.entries + (entryName x).length + 1 ≤ destBytes :=
        Nat.not_lt.1 hcopy
      have hread := convert_eq_none (length_valueText x)
      cases hvalue : convert (valueText x) with
      | none => exact fun h => hread.1 hvalue h.2.1
      | some value =>
        have hvalue' : ValueContained (valueText x) := by
          by_contra hout
          cases hvalue.symm.trans (hread.2 hout)
        cases value with
        | none => exact ⟨⟨hin, hvalue', hcopy', trivial⟩, rfl, rfl⟩
        | some value =>
          obtain ⟨type, data⟩ := value
          have hpush := pushEntry_spec hitems (entryName x) type data
          cases hres : t.pushEntry (entryName x) type data with
          | none =>
            simp only [hres] at hpush
            simp only [hres, Option.map_none]
            exact fun h => hpush h.2.2.2
          | some t' =>
            simp only [hres] at hpush
            simp only [hres, Option.map_some]
            exact ⟨⟨hin, hvalue', hcopy', hpush.1⟩, type, data, rfl, hpush.2⟩
  · simp only [if_neg hin]
    exact fun h => hin h.1

/-- What a line does, where it is not too long. -/
theorem fillLine_spec (h : t.Sane) (s : List Char) (hlong : ¬ TooLong s) :
    match t.fillLine (s ++ [nul]) (lineFlag (s.headD nul)) with
    | none => ¬ t.room.Inside s
    | some (.error t') => t.room.Inside s ∧ t.room.next s = none ∧ t'.ret = -1
    | some (.ok t') => t.room.Inside s ∧ t.room.next s = some t'.room ∧ t'.Sane := by
  have hx : Terminated (s ++ [nul]) := List.getLast?_concat
  unfold fillLine Room.Inside Room.next
  rw [if_neg hlong]
  cases hflag : lineFlag (s.headD nul) with
  | null => exact ⟨trivial, rfl, h⟩
  | error => exact absurd hflag (lineFlag_ne_error _)
  | mainkey =>
    have hadd := addItem_spec h (s ++ [nul])
    cases hres : t.addItem (s ++ [nul]) with
    | none =>
      simp only [hres] at hadd
      simp only [Option.map_none]
      exact hadd
    | some t' =>
      simp only [hres] at hadd
      simp only [Option.map_some]
      exact ⟨hadd.1, congrArg some hadd.2.1.symm, hadd.2.2⟩
  | subkey =>
    by_cases hitems : t.itemTable = []
    · have hroom : t.room.sections = 0 := by simp [room, hitems]
      simp only [if_pos hitems, if_pos hroom]
      exact ⟨.inl hroom, trivial, h⟩
    · have hroom : t.room.sections ≠ 0 := by simpa [room] using hitems
      have hadd := addEntry_spec hitems hx
      simp only [if_neg hitems, if_neg hroom]
      cases hres : t.addEntry (s ++ [nul]) with
      | none =>
        simp only [hres] at hadd
        exact fun hin => hadd (hin.resolve_left hroom)
      | some res =>
        cases res with
        | error t' =>
          simp only [hres] at hadd
          exact ⟨.inr hadd.1, by rw [hadd.2.1], hadd.2.2⟩
        | ok t' =>
          simp only [hres] at hadd
          obtain ⟨hin, type, data, hvalue, hroom', hsane⟩ := hadd
          exact ⟨.inr hin, by rw [hvalue, hroom'], hsane⟩

end Tables

end Melis.Script
