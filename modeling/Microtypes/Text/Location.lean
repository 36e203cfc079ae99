/-!
# Positions in a source text

A position is a line and a column, both counted from one, in characters. Only the line feed ends
a line, so a carriage return is an ordinary character that takes up a column.

A position is found by a binary search in a table of where the lines begin (`Location.lookUp`), and
the end of the text from its lines (`Location.ofLines`). `Location.ofOffset`, which walks to the
offset, and `Location.ofEnd`, which counts line feeds and measures the last line, are the same
positions in the form that proofs about the reading of tokens use.
-/

namespace Microtypes

/-- A line and a column of a source text, both counted from one. -/
structure Location where
  /-- The line, counted from one. -/
  line : Nat
  /-- The column, in characters, counted from one. -/
  column : Nat
deriving DecidableEq, Repr, Inhabited

namespace Location

/-- The position of the first character of a text. -/
def start : Location := ⟨1, 1⟩

/-- The position just past a character that stands at `here`. -/
def advance (here : Location) (c : Char) : Location :=
  if c = '\n' then ⟨here.line + 1, 1⟩ else ⟨here.line, here.column + 1⟩

/-- The position just past a text that starts at `here`. -/
def advanceBy (here : Location) (text : List Char) : Location :=
  text.foldl advance here

/-- Positions are read line by line, so the line decides before the column. -/
instance : LT Location :=
  ⟨fun a b => a.line < b.line ∨ (a.line = b.line ∧ a.column < b.column)⟩

instance (a b : Location) : Decidable (a < b) :=
  inferInstanceAs (Decidable (a.line < b.line ∨ (a.line = b.line ∧ a.column < b.column)))

/-- The later of two positions. -/
def later (a b : Location) : Location :=
  if a < b then b else a

/-- The `line:column` form used in reports. -/
def text (here : Location) : String :=
  s!"{here.line}:{here.column}"

@[simp] theorem advanceBy_nil (here : Location) : here.advanceBy [] = here := rfl

@[simp] theorem advanceBy_cons (here : Location) (c : Char) (cs : List Char) :
    here.advanceBy (c :: cs) = (here.advance c).advanceBy cs := rfl

@[simp] theorem advanceBy_append (here : Location) (a b : List Char) :
    here.advanceBy (a ++ b) = (here.advanceBy a).advanceBy b := by
  simp [advanceBy, List.foldl_append]

end Location

/-! ## Positions from the lines -/

/-- Where lines begin behind the line feeds of a text that itself stands at `offset`. -/
def startsBehind (offset : Nat) : List Char → List Nat
  | [] => []
  | c :: rest =>
    if c = '\n' then (offset + 1) :: startsBehind (offset + 1) rest
    else startsBehind (offset + 1) rest

/-- The offsets at which the lines of a text begin. -/
def lineStarts (source : List Char) : List Nat :=
  0 :: startsBehind 0 source

/-- The place behind the entries of an ascending table that are at most `key`. Those before `low`
are, those from `high` on are not, and the window in between is halved until it is empty. -/
def bisectRight (table : List Nat) (key low high : Nat) : Nat :=
  if low < high then
    let middle := (low + high) / 2
    if key < table.getD middle 0 then bisectRight table key low middle
    else bisectRight table key (middle + 1) high
  else low
termination_by high - low

/-- The position of an offset, looked up in the table of where lines begin. -/
def Location.lookUp (starts : List Nat) (offset : Nat) : Location :=
  let index := bisectRight starts offset 0 starts.length - 1
  ⟨index + 1, offset - starts.getD index 0 + 1⟩

/-- The position just past the last character of a text with these lines. -/
def Location.ofLines (lines : List (List Char)) : Location :=
  ⟨lines.length, (lines.getLastD []).length + 1⟩

/-! ## Positions by walking -/

/-- The position of an offset. Past the end of the text the column goes on growing in its last
line. -/
def Location.ofOffset (source : List Char) (offset : Nat) : Location :=
  let reached := Location.start.advanceBy (source.take offset)
  ⟨reached.line, reached.column + (offset - source.length)⟩

/-- The characters after the last line feed. -/
def lastLine (source : List Char) : List Char :=
  (source.reverse.takeWhile (· ≠ '\n')).reverse

/-- The position just past the last character, from the number of lines and the length of the last
one. -/
def Location.ofEnd (source : List Char) : Location :=
  ⟨source.count '\n' + 1, (lastLine source).length + 1⟩

end Microtypes
