import Microtypes.Grammar.Name
import Microtypes.Rust.Impl

/-!
# Generated wrappers

A normal wrapper holds its value in the open. A secret wrapper holds it in a secret box of a hidden
wrapper type, whose name begins with the reserved stem and so is never declared, and its value can
only be borrowed by exposure.
-/

namespace Microtypes

/-- What a wrapper type is made from. -/
structure Wrapper where
  name : String
  inner : String
  /-- Its visibility; empty when private. -/
  visibility : String
  /-- The texts of the attributes that are passed on to it. -/
  attributes : List String
deriving DecidableEq, Repr

namespace Wrapper

/-- The wrapper of a specification of whose attributes some remain for it. -/
def ofParts (spec : Spec) (remaining : List Attribute) : Wrapper where
  name := spec.name
  inner := spec.inner.text
  visibility := spec.visibility
  attributes := remaining.map Attribute.text

/-- The wrapper of a specification, with the attributes that are passed on. -/
def ofSpec (spec : Spec) : Wrapper :=
  ofParts spec (passedOn spec.attributes)

/-- The line that defines the wrapper, with the contents of its only field. -/
def structLine (w : Wrapper) (field : String) : String :=
  (if w.visibility.isEmpty then "" else w.visibility ++ " ") ++ s!"struct {w.name}({field});"

/-- The attributes that are passed on, on top of the first definition. -/
def attributeItems (w : Wrapper) (group : Group) : List Item :=
  if w.attributes.isEmpty then [] else [.attributes group w.attributes]

end Wrapper

/-- The name of the hidden wrapper type of a secret. -/
def hiddenName (name : String) : String :=
  reservedStem ++ "Secret" ++ String.ofList (withoutRawMark name.toList)

/-- The derivations for serialisation of a type with one field as that field. -/
def serdeLines : List String :=
  ["#[derive(::serde::Deserialize, ::serde::Serialize)]", "#[serde(transparent)]"]

/-- The attributes of both types of a secret. -/
def secretTypeLines : List String :=
  ["#[repr(transparent)]", "#[derive(::core::clone::Clone)]",
    "#[cfg_attr(not(test), derive(::core::fmt::Debug))]"]

/-- Items that are there only if `present` holds. -/
def itemsIf (present : Bool) (items : List Item) : List Item :=
  if present then items else []

/-- The derivations for serialisation, if they are planned. -/
def serdeItems (plan : Plan) : List Item :=
  itemsIf plan.serdeDerive [.attributes .serdeDerive serdeLines]

/-- The string operations of a normal wrapper. -/
def stringItems (name inner : String) : List Item :=
  let converted := "Self(::core::convert::From::from(s))"
  [formatImpl name inner "Display", infallibleFromStrImpl name converted,
    fromStrRefImpl name converted, asRefImpl name].map (.code .stringOps)

/-- The string operations of a secret wrapper, which construct and never read. -/
def secretStringItems (name : String) : List Item :=
  let converted := s!"<Self as {secretTrait}>::new(::core::convert::From::from(s))"
  [infallibleFromStrImpl name converted, fromStrRefImpl name converted].map (.code .stringOps)

/-- The integer operations of a normal wrapper. -/
def intItems (name inner : String) : List Item :=
  (intFormats.map (formatImpl name inner) ++ arithmetic.map (operationImpl name) ++
    arithmetic.map (assignmentImpl name) ++ [innerFromStrImpl name inner]).map (.code .intOps)

/-- How a wrapper is made from its inner value, as a function. -/
def constructorOf (variant : Variant) (name : String) : String :=
  match variant with
  | .normal => s!"<{name} as {wrapperTrait}>::new"
  | .secret => s!"<{name} as {secretTrait}>::new"

/-- How the inner value of a wrapper is borrowed from `self`. -/
def borrowOf (variant : Variant) (name : String) : String :=
  match variant with
  | .normal => s!"<{name} as {wrapperTrait}>::inner(self)"
  | .secret => exposed "self"

/-- The conversions from and to a column, if they are planned. They need the type of the column. -/
def columnItems (variant : Variant) (w : Wrapper) (control : Control) (plan : Plan) :
    Except Abort (List Item) :=
  if plan.columnMapping then
    match control.columnMapping with
    | none => .error .missingColumnType
    | some mapping =>
      let sqlType := mapping.sqlType.text
      .ok ([fromColumnImpl w.name w.inner sqlType (constructorOf variant w.name),
        toColumnImpl w.name w.inner sqlType (borrowOf variant w.name)].map (.code .columnMapping))
  else .ok []

/-- The items of a normal wrapper but for its column conversions. -/
def normalBase (w : Wrapper) (plan : Plan) : List Item :=
  w.attributeItems .core ++ serdeItems plan ++
    [.code .core ["#[repr(transparent)]", w.structLine s!"pub {w.inner}"],
      .code .core (microtypeImpl w.name w.inner), .code .core (fromInnerImpl w.name w.inner)] ++
    itemsIf plan.dereference
      [.code .dereference (derefImpl w.name w.inner), .code .dereference (derefMutImpl w.name)] ++
    itemsIf plan.stringOps (stringItems w.name w.inner) ++
    itemsIf plan.intOps (intItems w.name w.inner)

/-- The items of a normal wrapper, in the order of the output. -/
def normalItems (w : Wrapper) (control : Control) (plan : Plan) : Except Abort (List Item) := do
  return normalBase w plan ++ (← columnItems .normal w control plan)

/-- One of the two types of a secret, with its attributes. -/
def secretStructItems (plan : Plan) (line : String) : List Item :=
  .attributes .secretWrapper secretTypeLines :: serdeItems plan ++ [.code .secretWrapper [line]]

/-- The debug output of a secret in tests. Where tests may show secrets anyway it belongs to the
wrapper itself and comes without a comparison. -/
def secretTestItems (name inner : String) (plan : Plan) : List Item :=
  if plan.testDebug then
    [.code .testDebug (secretDebugImpl name inner), .code .testDebug (secretEqImpl name inner)]
  else [.code .secretWrapper (secretDebugImpl name inner)]

/-- The items of a secret wrapper but for its column conversions. -/
def secretBase (w : Wrapper) (plan : Plan) : List Item :=
  let hidden := hiddenName w.name
  w.attributeItems .secretWrapper ++
    secretStructItems plan (w.structLine s!"{secrecyModule}::Secret<{hidden}>") ++
    secretStructItems plan s!"struct {hidden}({w.inner});" ++
    [.code .secretWrapper (secretMarkerImpls hidden)] ++
    itemsIf plan.serializableSecret
      [.code .serializableSecret [emptyImpl s!"{secrecyModule}::SerializableSecret" hidden]] ++
    [.code .secretWrapper (exposeSecretImpl w.name w.inner),
      .code .secretWrapper (secretConstructorImpl w.name hidden w.inner)] ++
    secretTestItems w.name w.inner plan ++
    itemsIf plan.stringOps (secretStringItems w.name)

/-- The items of a secret wrapper, in the order of the output. They need a request for a secret. -/
def secretItems (w : Wrapper) (control : Control) (plan : Plan) : Except Abort (List Item) :=
  if control.secret.isNone then .error .missingSecret
  else do return secretBase w plan ++ (← columnItems .secret w control plan)

end Microtypes
