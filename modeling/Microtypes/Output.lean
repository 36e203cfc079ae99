import Microtypes.Expansion

/-!
# The generated file

The file starts with a header comment; then come the results in order, each after a blank line. A
source with errors gives a file only on request, and the errors are then items that stop the build.
-/

namespace Microtypes

/-- Why no file is generated. -/
inductive OutputFault where
  | hasErrors (count : Nat)
  | emptyLabel
deriving DecidableEq, Repr

/-- The wording of a fault. -/
def OutputFault.message : OutputFault → String
  | .hasErrors count => s!"cannot assemble output from an expansion with {count} error(s)"
  | .emptyLabel => "source_label must not be empty"

/-- The name that generated files carry. -/
def toolName : String := "microtype-gen"

/-- The first and the last line of the header. -/
def headerEdge : String := "// x-------------------------------------------x //"

/-- The header of a file generated from the source called `label` with the named features. -/
def headerLines (label : String) (features : List String) : Except OutputFault (List String) :=
  if label.isEmpty then .error .emptyLabel
  else
    .ok [headerEdge, "// | Microtype wrappers for Rust", "// | Generated by " ++ toolName,
      "// | Source: " ++ label, "// | Features: " ++ namesLabel features, headerEdge]

/-- The lines of a file: the header, and each result after a blank line. -/
def fileLines (header : List String) (results : List Outcome) : List String :=
  header ++ results.flatMap fun result => "" :: result.lines

/-- The text of the generated file. -/
def assemble (label : String) (features : List String) (expansion : Expansion)
    (keepGoing : Bool) : Except OutputFault String :=
  if !expansion.ok && !keepGoing then .error (.hasErrors expansion.errors.length)
  else
    (headerLines label features).map fun header =>
      "\n".intercalate (fileLines header expansion.results) ++ "\n"

/-- How many line feeds a text holds. -/
def lineFeeds (text : String) : Nat := text.toList.count '\n'

end Microtypes
