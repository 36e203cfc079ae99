import Microtypes.Text.Split

/-!
# Paths

A path is relative to the working directory or starts at the root. Repeated slashes, single dots
and a slash at the end mean nothing and are dropped; two dots are kept. Two slashes at the front,
and only exactly two, are a root of their own kind.
-/

namespace Microtypes

/-- Where a path starts. -/
inductive PathRoot where
  | relative
  | slash
  /-- At the root written with two slashes. -/
  | doubleSlash
deriving DecidableEq, Repr

/-- How the start of a path is written. -/
def PathRoot.text : PathRoot → String
  | .relative => ""
  | .slash => "/"
  | .doubleSlash => "//"

/-- A path. -/
structure Path where
  root : PathRoot
  parts : List String
deriving DecidableEq, Repr

namespace Path

/-- The start of a path with so many slashes at the front. -/
def rootOf (slashes : Nat) : PathRoot :=
  if slashes = 0 then .relative else if slashes = 2 then .doubleSlash else .slash

/-- The path that a text names. -/
def ofText (text : String) : Path where
  root := rootOf (text.toList.takeWhile (· = '/')).length
  parts := ((splitOnChar '/' text.toList).map String.ofList).filter fun part =>
    part ≠ "" ∧ part ≠ "."

/-- The text of a path. The path to the working directory itself is a dot. -/
def text (p : Path) : String :=
  let written := p.root.text ++ "/".intercalate p.parts
  if written.isEmpty then "." else written

/-- The last component; empty when there is none. -/
def name (p : Path) : String := p.parts.getLastD ""

/-- The path without its last component. -/
def parent (p : Path) : Path := { p with parts := p.parts.dropLast }

/-- The last component of a path without its suffix: the last dot and what follows it, if the dot is
neither the first nor the last character. -/
def stem (name : List Char) : List Char :=
  let afterDot := (name.reverse.takeWhile (· ≠ '.')).reverse
  let beforeDot := name.length - afterDot.length - 1
  if '.' ∈ name ∧ 0 < beforeDot ∧ afterDot ≠ [] then name.take beforeDot else name

/-- The path with the suffix of its last component replaced; nothing when it has no component. -/
def withSuffix? (p : Path) (suffix : String) : Option Path :=
  if p.parts.isEmpty then none
  else
    let renamed := String.ofList (stem p.name.toList) ++ suffix
    some { p with parts := p.parts.dropLast ++ [renamed] }

/-- The components from the root on, when the working directory has the components `base` and no
component is a link. Two dots at the root stay there. -/
def absolute (base : List String) (p : Path) : List String :=
  let start := if p.root = .relative then base else []
  p.parts.foldl (fun here part => if part = ".." then here.dropLast else here ++ [part]) start

end Path

/-- The path from the root with the given components. -/
def Path.ofAbsolute (parts : List String) : Path := ⟨.slash, parts⟩

end Microtypes
