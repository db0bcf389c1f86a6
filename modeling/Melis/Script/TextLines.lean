import Melis.Script.Room

/-!
# The lines of a script

The lines of the text (`textLines`) are those of the parser (`lineStarts`) but for a line that is
only a line feed, which the parser takes together with the one behind it. What a script has to hold
is said of the former: well formed lines, and the sections and entries that `tally` counts.
-/

namespace Melis.Script

open Lib

variable {s pbuf : List Char}

/-- The lines of a text, with their line feeds. -/
def textLines : List Char → List (List Char)
  | [] => []
  | ch :: s =>
    if ch = '\n' then [ch] :: textLines s
    else
      match textLines s with
      | [] => [[ch]]
      | l :: ls => (ch :: l) :: ls

/-- A line of blanks. -/
def blankLine (l : List Char) : Bool := isEol ((unblanked l).headD '\n')

/-- A line counted with the sections and the entries of sections before it. -/
def countLine (n : Nat × Nat) (l : List Char) : Nat × Nat :=
  match lineFlag (l.headD '\n') with
  | .mainkey => (n.1 + 1, n.2)
  | .subkey => if n.1 = 0 ∨ blankLine l then n else (n.1, n.2 + 1)
  | _ => n

/-- The sections and their entries in a text. -/
def tally (pbuf : List Char) : Nat × Nat := (textLines pbuf).foldl countLine (0, 0)

/-- A comment, a line that a carriage return starts, a section with its bracket, or a name and a
value that can be converted. -/
def WellFormedLine (l : List Char) : Prop :=
  l.length ≤ 512 ∧ nul ∉ l ∧
    match lineFlag (l.headD '\n') with
    | .mainkey => ']' ∈ l
    | .subkey =>
      blankLine l ∨ (unblanked l).headD '=' ≠ '=' ∧ '=' ∈ l ∧
        ∃ data, convert (valueText (l ++ [nul])) = some (some data)
    | _ => True

/-- A script without malformed lines. -/
def WellFormed (pbuf : List Char) : Prop := ∀ l ∈ textLines pbuf, WellFormedLine l

end Melis.Script
