/-!
# Features

A feature switches on a family of capabilities for the whole build. A selection of features is a
value like any other; nothing is enabled behind its back.
-/

namespace Microtypes

/-- The features that can be enabled. -/
inductive Feature where
  | derefImpls
  | diesel
  | secret
  | serde
  /-- Debug output of secrets in test builds. -/
  | testDebug
deriving DecidableEq, Repr

namespace Feature

/-- All features, in the order of their names. -/
def all : List Feature := [.derefImpls, .diesel, .secret, .serde, .testDebug]

/-- The name by which a feature is selected. -/
def name : Feature → String
  | .derefImpls => "deref_impls"
  | .diesel => "diesel"
  | .secret => "secret"
  | .serde => "serde"
  | .testDebug => "test_debug"

/-- The capability family that a feature switches on. -/
def family : Feature → String
  | .derefImpls => "dereference"
  | .diesel => "column_mapping"
  | .secret => "secret"
  | .serde => "serialization"
  | .testDebug => "test_friendly_debug"

/-- The feature of a name. -/
def ofName? (text : String) : Option Feature :=
  all.find? (·.name == text)

/-- Whether a feature is enabled unless it is deselected. -/
def isDefault : Feature → Bool
  | .derefImpls | .secret => true
  | .diesel | .serde | .testDebug => false

theorem mem_all (f : Feature) : f ∈ all := by cases f <;> decide

theorem ofName?_name (f : Feature) : ofName? f.name = some f := by cases f <;> decide

end Feature

/-- A selection of features. -/
structure Features where
  derefImpls : Bool := false
  diesel : Bool := false
  secret : Bool := false
  serde : Bool := false
  /-- Debug output of secrets in test builds. -/
  testDebug : Bool := false
deriving DecidableEq, Repr

namespace Features

/-- Whether a feature is selected. -/
def has (fs : Features) : Feature → Bool
  | .derefImpls => fs.derefImpls
  | .diesel => fs.diesel
  | .secret => fs.secret
  | .serde => fs.serde
  | .testDebug => fs.testDebug

/-- The selection of the features that satisfy `p`. -/
def select (p : Feature → Bool) : Features where
  derefImpls := p .derefImpls
  diesel := p .diesel
  secret := p .secret
  serde := p .serde
  testDebug := p .testDebug

/-- The features that are enabled unless they are deselected. -/
def default : Features := select Feature.isDefault

/-- Every feature. -/
def everything : Features := select fun _ => true

/-- The selection of exactly the listed features. -/
def ofList (features : List Feature) : Features := select (features.contains ·)

/-- The features of either selection. -/
def union (a b : Features) : Features := select fun f => a.has f || b.has f

/-- The selected features, in the order of their names. -/
def toList (fs : Features) : List Feature := Feature.all.filter fs.has

/-- The names of the selected features, in order. -/
def names (fs : Features) : List String := fs.toList.map Feature.name

@[simp] theorem has_select (p : Feature → Bool) (f : Feature) : (select p).has f = p f := by
  cases f <;> rfl

@[simp] theorem has_ofList (features : List Feature) (f : Feature) :
    (ofList features).has f = features.contains f := has_select _ f

@[simp] theorem has_union (a b : Features) (f : Feature) :
    (a.union b).has f = (a.has f || b.has f) := has_select _ f

theorem mem_toList {fs : Features} {f : Feature} : f ∈ fs.toList ↔ fs.has f = true := by
  simp [toList, Feature.mem_all]

end Features

/-- Names in order, separated by commas, or `none` when there are none. -/
def namesLabel (names : List String) : String :=
  if names.isEmpty then "none"
  else String.intercalate ", " (names.mergeSort fun a b => decide (a ≤ b))

end Microtypes
