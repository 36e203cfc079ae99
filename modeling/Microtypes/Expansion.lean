import Microtypes.Control.Reader
import Microtypes.Diagnostic
import Microtypes.Rust.Wrapper

/-!
# Expanding a source

Every declared name gives one result: a generated wrapper, or the diagnostic of the first rule that
it breaks. A failing name does not stop the others. A source that breaks the grammar gives a single
diagnostic and nothing else.
-/

namespace Microtypes

/-- A generated wrapper. -/
structure Generated where
  name : String
  /-- The groups of code that it received. -/
  plan : Plan
  items : List Item
deriving DecidableEq, Repr

/-- What becomes of a declared name. -/
inductive Outcome where
  | generated (wrapper : Generated)
  | failed (diagnostic : Diagnostic)
deriving DecidableEq, Repr

namespace Outcome

/-- The wrapper of an outcome. -/
def generated? : Outcome → Option Generated
  | .generated wrapper => some wrapper
  | .failed _ => none

/-- The diagnostic of an outcome. -/
def failed? : Outcome → Option Diagnostic
  | .generated _ => none
  | .failed diagnostic => some diagnostic

/-- The lines of an outcome in the generated file. -/
def lines : Outcome → List String
  | .generated wrapper => renderItems wrapper.items
  | .failed diagnostic => diagnostic.rustLines

end Outcome

/-- The result for a wrapper whose control attributes are read. -/
def outcomeOf (w : Wrapper) (control : Control) (features : Features) : Except Abort Outcome :=
  match unsupported? control features with
  | some problem => .ok (.failed (problem.diagnostic (some w.name)))
  | none => do
    let plan := planFor control features
    let emit := if control.secret.isNone then normalItems else secretItems
    return .generated { name := w.name, plan, items := ← emit w control plan }

/-- The result for a specification. -/
def expandSpec (features : Features) (spec : Spec) : Except Abort Outcome :=
  match extractControls spec.attributes with
  | .ok (control, remaining) => outcomeOf (.ofParts spec remaining) control features
  | .error (.problem problem) => .ok (.failed (problem.diagnostic (some spec.name)))
  | .error (.abort abort) => .error abort

/-- A wrapper gets the attributes that are passed on. -/
theorem expandSpec_eq (features : Features) (spec : Spec) : expandSpec features spec =
    match controls spec.attributes with
    | .ok control => outcomeOf (.ofSpec spec) control features
    | .error (.problem problem) => .ok (.failed (problem.diagnostic (some spec.name)))
    | .error (.abort abort) => .error abort := by
  rw [expandSpec, extractControls_eq]
  rcases controls spec.attributes with (problem | abort) | control <;> rfl

/-- The results for a source. -/
structure Expansion where
  /-- The blocks; none after a grammar error. -/
  declarations : List Declaration
  /-- The specifications; none after a grammar error. -/
  specs : List Spec
  /-- One result for each specification in order, or the diagnostic of a grammar error. -/
  results : List Outcome
deriving DecidableEq, Repr

namespace Expansion

/-- The generated wrappers. -/
def generated (e : Expansion) : List Generated := e.results.filterMap Outcome.generated?

/-- The diagnostics. -/
def errors (e : Expansion) : List Diagnostic := e.results.filterMap Outcome.failed?

/-- Whether every name has its wrapper. -/
def ok (e : Expansion) : Bool := e.errors.isEmpty

end Expansion

/-- Expands a source. -/
def Expansion.ofSource (source : String) (features : Features) : Except Abort Expansion :=
  match readSource source with
  | .error (.abort abort) => .error abort
  | .error (.problem problem) => .ok ⟨[], [], [.failed (problem.diagnostic none)]⟩
  | .ok declarations => do
    let specs := specsOf declarations
    return ⟨declarations, specs, ← specs.mapM (expandSpec features)⟩

end Microtypes
