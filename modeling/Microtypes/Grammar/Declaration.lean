import Microtypes.Grammar.TypeReader

/-!
# Declarations

A declaration is a block: an inner type and the names of the wrappers to make of it, with attributes
on the block and on each name. `Declaration.specs` spreads the blocks out into one specification per
name.
-/

namespace Microtypes

/-- What follows the path of an attribute. -/
inductive AttributeForm where
  /-- Nothing, as in `#[secret]`. -/
  | bare
  /-- Tokens in brackets, as in `#[derive(Debug)]`. -/
  | delimited (delimiter : Delimiter) (arguments : List Token)
  /-- A value after an equals sign, as in `#[path = value]`. -/
  | assigned (value : List Token)
deriving DecidableEq, Repr, Inhabited

/-- An attribute or an outer doc comment. -/
structure Attribute where
  /-- The path of the attribute; `doc` for a doc comment. -/
  path : String
  form : AttributeForm
  /-- The attribute exactly as it stands in the source. -/
  text : String
  location : Location
deriving DecidableEq, Repr, Inhabited

/-- The argument tokens of an attribute. -/
def Attribute.arguments (a : Attribute) : List Token :=
  match a.form with
  | .bare => []
  | .delimited _ arguments => arguments
  | .assigned value => value

/-- A name declared in a block. -/
structure DeclaredName where
  name : String
  attributes : List Attribute
  location : Location
deriving DecidableEq, Repr, Inhabited

/-- A block: attributes, a visibility and a type, and then the names in curly brackets. -/
structure Declaration where
  /-- The attributes in front of the block, which apply to each of its names. -/
  attributes : List Attribute
  inner : WrittenType
  /-- The visibility as it is written in Rust; empty when private. -/
  visibility : String
  names : List DeclaredName
deriving DecidableEq, Repr, Inhabited

/-- Everything that one wrapper is made from. -/
structure Spec where
  inner : WrittenType
  name : String
  /-- Its visibility; empty when private. -/
  visibility : String
  /-- The attributes of the name, followed by those of its block. -/
  attributes : List Attribute
  location : Location
deriving DecidableEq, Repr, Inhabited

/-- The specifications of a block, one for each name. -/
def Declaration.specs (block : Declaration) : List Spec :=
  block.names.map fun decl =>
    { inner := block.inner, name := decl.name, visibility := block.visibility,
      attributes := decl.attributes ++ block.attributes, location := decl.location }

/-- The specifications of several blocks, in source order. -/
def specsOf (blocks : List Declaration) : List Spec :=
  blocks.flatMap Declaration.specs

end Microtypes
