import Microtypes.Expansion
import Microtypes.Text.Column

/-!
# The discovery tables

One table shows the plan of each declared name, or the error in its place; the other shows the
features that can be selected.
-/

namespace Microtypes

/-- The length of the longest of the texts. -/
def maxWidth (texts : List String) : Nat :=
  (texts.map String.length).foldl max 0

/-- The short form of a diagnostic in a table. -/
def Diagnostic.cell (d : Diagnostic) : String :=
  "error[" ++ d.kind.name ++ "] " ++ d.location.text ++ ": " ++ d.message

/-- The second and third columns of the plan table. -/
def Outcome.columns : Outcome → String × String
  | .failed diagnostic => ("error", diagnostic.cell)
  | .generated wrapper =>
    (wrapper.plan.variant.name, ", ".intercalate (wrapper.plan.groups.map Group.name))

/-- The rows of the plan table, one for each name. -/
def planRows (width : Nat) (specs : List Spec) (results : List Outcome) : List String :=
  (specs.zip results).map fun (spec, result) =>
    let (state, detail) := result.columns
    "  " ++ padRight width spec.name ++ "  " ++ padRight 6 state ++ "  " ++ detail

/-- The plan table of the source called `label`. -/
def planTable (expansion : Expansion) (label : String) : String :=
  let count := expansion.specs.length
  let noun := if count = 1 then "microtype" else "microtypes"
  let title := "Capability plan for " ++ label ++ s!" ({count} {noun}):"
  let rows :=
    if expansion.specs.isEmpty then expansion.errors.map fun d => "  " ++ d.cell
    else planRows (maxWidth (expansion.specs.map Spec.name)) expansion.specs expansion.results
  "\n".intercalate (title :: "" :: rows ++ [""])

/-- The table of features. -/
def featuresTable (features : Features) : String :=
  let nameWidth := maxWidth (Feature.all.map Feature.name)
  let familyWidth := maxWidth (Feature.all.map Feature.family)
  let row (f : Feature) :=
    let state := if features.has f then "enabled" else "disabled"
    "  " ++ padRight nameWidth f.name ++ "  " ++ padRight familyWidth f.family ++ "  " ++
      padRight 7 (if f.isDefault then "default" else "") ++ "  " ++ state
  "\n".intercalate ("Features:" :: "" :: Feature.all.map row ++ [""])

end Microtypes
