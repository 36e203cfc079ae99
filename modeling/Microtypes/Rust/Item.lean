import Microtypes.Capability.Plan

/-!
# Generated items

Generated code is a list of items, each a run of lines that belongs to one group. An item of
attribute lines is attached to the item after it; between other items stands one blank line.
-/

namespace Microtypes

/-- A run of generated lines. -/
structure Passage where
  lines : List String
  /-- Whether the lines sit directly on what follows them. -/
  attached : Bool := false
deriving DecidableEq, Repr

/-- A run of generated lines that belongs to a group. -/
structure Item extends Passage where
  group : Group
deriving DecidableEq, Repr

namespace Item

/-- An item that stands by itself. -/
def code (group : Group) (lines : List String) : Item := { group, lines }

/-- An item of attribute lines. -/
def attributes (group : Group) (lines : List String) : Item := { group, lines, attached := true }

end Item

/-- The lines of several passages, with a blank line after each that is neither attached nor the
last. -/
def renderPassages : List Passage → List String
  | [] => []
  | [last] => last.lines
  | passage :: next :: rest =>
    passage.lines ++ (if passage.attached then [] else [""]) ++ renderPassages (next :: rest)

/-- The lines of several items. -/
def renderItems (items : List Item) : List String :=
  renderPassages (items.map Item.toPassage)

/-- The groups that have an item, in the order of their first ones. -/
def itemGroups (items : List Item) : List Group :=
  (items.map Item.group).eraseDups

/-! ## Layout -/

/-- A line one level further in. Blank lines stay blank. -/
def indentLine (line : String) : String :=
  if line.isEmpty then line else "    " ++ line

/-- Lines in curly brackets, after a head on the line of the opening bracket. -/
def braced (head : String) (body : List String) : List String :=
  (head ++ " \x7b") :: body.map indentLine ++ ["\x7d"]

/-- Blocks of lines with a blank line between them. -/
def spacedOut (blocks : List (List String)) : List String :=
  [""].intercalate blocks

end Microtypes
