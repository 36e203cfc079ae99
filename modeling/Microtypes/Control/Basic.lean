import Microtypes.Grammar.Declaration

/-!
# Control attributes

Four attributes steer what is generated, and all others are passed on to the generated code:

* `secret`, bare or with the argument `serialize`, asks for a wrapper that keeps its value secret;
* `string` and `int` say what the inner type is like, and exclude each other;
* `diesel`, with the argument `sql_type = Type`, maps the wrapper to a database column.

A `Control` holds what the control attributes of one microtype ask for. The place of each request is
kept for the messages about it.
-/

namespace Microtypes

/-- The control attributes. -/
inductive Marker where
  | secret
  | string
  | int
  /-- The wrapper is mapped to a column. -/
  | columnMapping
deriving DecidableEq, Repr

namespace Marker

/-- The path of a control attribute. -/
def path : Marker → String
  | .secret => "secret"
  | .string => "string"
  | .int => "int"
  | .columnMapping => "diesel"

/-- All control attributes. -/
def all : List Marker := [.secret, .string, .int, .columnMapping]

end Marker

/-- A request for a secret wrapper. -/
structure SecretRequest where
  serialize : Bool
  location : Location
deriving DecidableEq, Repr

/-- What the inner type is like. -/
inductive InnerKind where
  | string
  | int
deriving DecidableEq, Repr

/-- The name of a kind of inner type. -/
def InnerKind.name : InnerKind → String
  | .string => "string"
  | .int => "int"

/-- A statement of what the inner type is like. -/
structure KindRequest where
  kind : InnerKind
  location : Location
deriving DecidableEq, Repr

/-- A mapping to a database column. -/
structure ColumnRequest where
  sqlType : WrittenType
  location : Location
deriving DecidableEq, Repr

/-- What the control attributes of one microtype ask for. -/
structure Control where
  secret : Option SecretRequest := none
  kind : Option KindRequest := none
  columnMapping : Option ColumnRequest := none
deriving DecidableEq, Repr

/-- The attributes with a given path. -/
def attributesAt (path : String) (attributes : List Attribute) : List Attribute :=
  attributes.filter (·.path == path)

/-- The attributes with any other path. -/
def attributesBeside (path : String) (attributes : List Attribute) : List Attribute :=
  attributes.filter (·.path != path)

/-- Whether an attribute steers the generation. -/
def Attribute.isControl (a : Attribute) : Bool :=
  Marker.all.any (·.path == a.path)

/-- The attributes that are passed on. -/
def passedOn (attributes : List Attribute) : List Attribute :=
  attributes.filter (!·.isControl)

end Microtypes
