import Microtypes.Capability.Feature
import Microtypes.Control.Basic
import Microtypes.Problem

/-!
# Which code a microtype receives

The generated code falls into groups. The plan of a microtype says which groups it receives, and
depends only on its control attributes and on the enabled features. `unsupported?` says beforehand
what is asked for and cannot be had.
-/

namespace Microtypes

/-- The groups of generated code. -/
inductive Group where
  /-- The normal wrapper, its basic operations and its constructor from the inner type. -/
  | core
  /-- The secret wrapper and the access to its value by exposure only. -/
  | secretWrapper
  | serdeDerive
  /-- The mark of a secret that may be serialised. -/
  | serializableSecret
  | dereference
  /-- Output and comparison of a secret in tests. -/
  | testDebug
  | stringOps
  | intOps
  /-- Conversion from and to a database column. -/
  | columnMapping
deriving DecidableEq, Repr

namespace Group

/-- All groups in the order of reports. -/
def all : List Group :=
  [.core, .secretWrapper, .serdeDerive, .serializableSecret, .dereference, .testDebug, .stringOps,
    .intOps, .columnMapping]

/-- The name that stands in reports. -/
def name : Group → String
  | .core => "core"
  | .secretWrapper => "secret_wrapper"
  | .serdeDerive => "serde_derive"
  | .serializableSecret => "serializable_secret"
  | .dereference => "dereference"
  | .testDebug => "test_debug"
  | .stringOps => "string_ops"
  | .intOps => "int_ops"
  | .columnMapping => "column_mapping"

/-- The group of a name. -/
def ofName? (text : String) : Option Group :=
  all.find? (·.name == text)

theorem mem_all (g : Group) : g ∈ all := by cases g <;> decide

end Group

/-- The groups of generated code that a microtype receives. -/
structure Plan where
  core : Bool := false
  secretWrapper : Bool := false
  serdeDerive : Bool := false
  serializableSecret : Bool := false
  dereference : Bool := false
  /-- Output and comparison of a secret in tests. -/
  testDebug : Bool := false
  stringOps : Bool := false
  intOps : Bool := false
  columnMapping : Bool := false
deriving DecidableEq, Repr

/-- The two variants of wrappers. -/
inductive Variant where
  /-- A wrapper with access to its value. -/
  | normal
  /-- A wrapper that only exposes its value. -/
  | secret
deriving DecidableEq, Repr

/-- The name of a variant. -/
def Variant.name : Variant → String
  | .normal => "normal"
  | .secret => "secret"

namespace Plan

/-- Whether a plan holds a group. -/
def has (plan : Plan) : Group → Bool
  | .core => plan.core
  | .secretWrapper => plan.secretWrapper
  | .serdeDerive => plan.serdeDerive
  | .serializableSecret => plan.serializableSecret
  | .dereference => plan.dereference
  | .testDebug => plan.testDebug
  | .stringOps => plan.stringOps
  | .intOps => plan.intOps
  | .columnMapping => plan.columnMapping

/-- The plan of the groups that satisfy `p`. -/
def select (p : Group → Bool) : Plan where
  core := p .core
  secretWrapper := p .secretWrapper
  serdeDerive := p .serdeDerive
  serializableSecret := p .serializableSecret
  dereference := p .dereference
  testDebug := p .testDebug
  stringOps := p .stringOps
  intOps := p .intOps
  columnMapping := p .columnMapping

/-- The groups of a plan, in the order of reports. -/
def groups (plan : Plan) : List Group := Group.all.filter plan.has

/-- The variant of wrapper that a plan makes. -/
def variant (plan : Plan) : Variant :=
  if plan.secretWrapper then .secret else .normal

@[simp] theorem has_select (p : Group → Bool) (g : Group) : (select p).has g = p g := by
  cases g <;> rfl

theorem mem_groups {plan : Plan} {g : Group} : g ∈ plan.groups ↔ plan.has g = true := by
  simp [groups, Group.mem_all]

end Plan

/-- What the control attributes ask for and cannot have under the enabled features. A column mapping
is looked at first, then the parts of a secret. -/
def unsupported? (control : Control) (features : Features) : Option Problem :=
  let column : Option Problem := do
    let mapping ← control.columnMapping
    if features.diesel then none
    else some ⟨.unsupported .columnMappingDisabled, mapping.location⟩
  let secret : Option Problem := do
    let marker ← control.secret
    if marker.serialize && !features.serde then
      some ⟨.unsupported .serializeDisabled, marker.location⟩
    else if !features.secret then some ⟨.unsupported .secretDisabled, marker.location⟩
    else
      let kind ← control.kind
      if kind.kind = .int then some ⟨.unsupported .secretInt, kind.location⟩ else none
  column.or secret

/-- Whether the control attributes state that the inner type is of a kind. -/
def Control.isKind (control : Control) (kind : InnerKind) : Bool :=
  control.kind.any (·.kind == kind)

/-- The plan of a microtype. It is meant for control attributes that are supported. -/
def planFor (control : Control) (features : Features) : Plan :=
  match control.secret with
  | none =>
    { core := true
      serdeDerive := features.serde
      dereference := features.derefImpls
      stringOps := control.isKind .string
      intOps := control.isKind .int
      columnMapping := control.columnMapping.isSome }
  | some marker =>
    { secretWrapper := true
      serdeDerive := marker.serialize && features.serde
      serializableSecret := marker.serialize && features.serde
      testDebug := !features.testDebug
      stringOps := control.isKind .string
      columnMapping := control.columnMapping.isSome }

end Microtypes
