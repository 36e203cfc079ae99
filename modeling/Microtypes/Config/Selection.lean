import Microtypes.Config.Error
import Microtypes.Text.Blank

/-!
# Selecting features

Feature names may be given in any grouping: several values, lists of values, and several names in
one value, separated by commas. Only the names themselves count.
-/

namespace Microtypes

/-- A value given for the features. -/
inductive FeatureValue where
  | nothing
  | text (written : String)
  | list (values : List FeatureValue)
  | other (kind : String)
deriving Repr, Inhabited

/-- The kind of a value, as messages name it. -/
def FeatureValue.kind : FeatureValue → String
  | .nothing => "NoneType"
  | .text _ => "str"
  | .list _ => "list"
  | .other kind => kind

/-- The names in a text: the parts between commas without the blanks around them, but for the empty
ones. -/
def namesInText (text : String) : List String :=
  ((splitOnChar ',' text.toList).map trim).filterMap fun part =>
    if part.isEmpty then none else some (String.ofList part)

/-- The names in a value that has to be a text. -/
def FeatureValue.names : FeatureValue → Except ConfigCause (List String)
  | .text written => .ok (namesInText written)
  | value => .error (.featureKind value.kind)

/-- The values in an entry of a list. -/
def FeatureValue.entries : FeatureValue → List FeatureValue
  | .list values => values
  | single => [single]

/-- All names in a value, in order. -/
def FeatureValue.allNames : FeatureValue → Except ConfigCause (List String)
  | .nothing => .ok []
  | .list values => do
    return ((← (values.flatMap FeatureValue.entries).mapM FeatureValue.names)).flatten
  | value => .error (.featuresKind value.kind)

/-- The feature of a name that a user gave. -/
def featureNamed (name : String) : Except ConfigCause Feature :=
  match Feature.ofName? name with
  | some feature => .ok feature
  | none => .error (.unknownFeature name)

/-- The features that are selected by a value: the default ones, unless they are deselected,
together with the named ones, or simply all. -/
def selectFeatures (value : FeatureValue) (all noDefault : Bool) :
    Except ConfigCause Features := do
  if all then return .everything
  let named ← (← FeatureValue.allNames value).mapM featureNamed
  let start : Features := if noDefault then {} else .default
  return start.union (.ofList named)

end Microtypes
