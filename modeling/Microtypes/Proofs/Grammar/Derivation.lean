import Mathlib.Data.List.Forall2
import Microtypes.Proofs.Token.Shape

/-!
# The grammar of declarations

The grammar is written down on lexemes, apart from any way of reading it. Groups and types are
inductive families, because they nest. The levels above them do not nest, so there a derivation is a
tree: `BlockTree` and the trees below it say how a block is built, `lexemes` is what a tree is
written as, and `WellFormed` is what the grammar asks of its leaves.

```
Invocation := Block*
Block      := Attribute* Visibility? Type "{" [Name ("," Name)* ","?] "}"
Name       := Attribute* ident
Attribute  := doc | "#" "[" PathText [Group | "=" Value] "]"
PathText   := "::"? ident ("::" ident)*
Visibility := "pub" | "pub" "(" scope ")" | "pub" "(" "in" PathText ")"
Type       := "&" lifetime? "mut"? Type | "(" [Type ("," Type)* ","?] ")" | "[" Type [";" Value] "]"
            | "dyn" Bound ("+" Bound)* | Path
Bound      := lifetime | Path
Path       := "::"? Segment ("::" Segment)*
Segment    := ident | ident Arguments | ident Group | ident Group "->" Type
Arguments  := "<" [Argument ("," Argument)* ","?] ">"
Argument   := lifetime | literal | Group | ident "=" Type | Type
```
-/

namespace Microtypes

open Lexeme (punct ident)

/-- What follows the first of several items: further items, each after a separator, and one more
separator at the end if `trailing` holds. -/
def continued (separator : Lexeme) (trailing : Bool) : List (List Lexeme) → List Lexeme
  | [] => if trailing then [separator] else []
  | item :: rest => separator :: (item ++ continued separator trailing rest)

/-- Items with a separator between them, and with one more at the end if `trailing` holds. Where
there are no items there is no separator either. -/
def separated (separator : Lexeme) (trailing : Bool) : List (List Lexeme) → List Lexeme
  | [] => []
  | first :: rest => first ++ continued separator trailing rest

/-! ## Groups -/

/-- A run of lexemes that are no brackets and of groups. -/
inductive Balanced : List Lexeme → Prop
  | nil : Balanced []
  | plain {t : Lexeme} {rest : List Lexeme} (ho : t.opens? = none) (hc : t.closes? = none)
      (hr : Balanced rest) : Balanced (t :: rest)
  | group (d : Delimiter) {inside rest : List Lexeme} (hi : Balanced inside)
      (hr : Balanced rest) : Balanced (punct d.opener :: inside ++ punct d.closer :: rest)

/-- A group in brackets of one kind. -/
def IsGroup (d : Delimiter) (ts : List Lexeme) : Prop :=
  ∃ inside, Balanced inside ∧ ts = punct d.opener :: inside ++ [punct d.closer]

/-- The value of an attribute, or the length of an array. -/
def IsValue (ts : List Lexeme) : Prop :=
  Balanced ts ∧ ts ≠ []

/-! ## Types -/

/-- The constructs that types are made of. -/
inductive Construct where
  | type
  | bound
  | path
  | segment
  | arguments
  | argument
deriving DecidableEq, Repr

/-- The mark of a path that starts at the root. -/
def rootMark (root : Bool) : List Lexeme :=
  if root then [punct "::"] else []

/-- What each construct of a type may be written as. -/
inductive Derives : Construct → List Lexeme → Prop
  | reference (lifetime : Option Lexeme) (mutable : Bool) {inner : List Lexeme}
      (hl : ∀ l ∈ lifetime, l.kind = .lifetime) (hi : Derives .type inner) :
      Derives .type (punct "&" :: lifetime.toList ++
        (if mutable then [ident "mut"] else []) ++ inner)
  | tuple (trailing : Bool) {elements : List (List Lexeme)}
      (he : ∀ e ∈ elements, Derives .type e) :
      Derives .type (punct "(" :: separated (punct ",") trailing elements ++ [punct ")"])
  | slice {element : List Lexeme} (he : Derives .type element) :
      Derives .type (punct "[" :: element ++ [punct "]"])
  | array {element length : List Lexeme} (he : Derives .type element) (hl : IsValue length) :
      Derives .type (punct "[" :: element ++ punct ";" :: length ++ [punct "]"])
  | traitObject {bounds : List (List Lexeme)} (hne : bounds ≠ [])
      (hb : ∀ b ∈ bounds, Derives .bound b) :
      Derives .type (ident "dyn" :: separated (punct "+") false bounds)
  /-- A path that is no trait object. -/
  | named {ts : List Lexeme} (hp : Derives .path ts) (hd : ts.head? ≠ some (ident "dyn")) :
      Derives .type ts
  | lifetimeBound {l : Lexeme} (hl : l.kind = .lifetime) : Derives .bound [l]
  | pathBound {ts : List Lexeme} (hp : Derives .path ts) : Derives .bound ts
  | path (root : Bool) {segments : List (List Lexeme)} (hne : segments ≠ [])
      (hs : ∀ s ∈ segments, Derives .segment s) :
      Derives .path (rootMark root ++ separated (punct "::") false segments)
  | word {t : Lexeme} (hk : t.kind = .ident) (ht : t.text ∉ Goal.unpathedWords) :
      Derives .segment [t]
  | generic {t : Lexeme} {arguments : List Lexeme} (hk : t.kind = .ident)
      (ht : t.text ∉ Goal.unpathedWords) (ha : Derives .arguments arguments) :
      Derives .segment (t :: arguments)
  /-- An identifier with a group of parameters. -/
  | call {t : Lexeme} {group : List Lexeme} (hk : t.kind = .ident)
      (ht : t.text ∉ Goal.unpathedWords) (hg : IsGroup .round group) :
      Derives .segment (t :: group)
  /-- An identifier with a group of parameters and a result. -/
  | callTo {t : Lexeme} {group result : List Lexeme} (hk : t.kind = .ident)
      (ht : t.text ∉ Goal.unpathedWords) (hg : IsGroup .round group)
      (hr : Derives .type result) : Derives .segment (t :: group ++ punct "->" :: result)
  | arguments (trailing : Bool) {arguments : List (List Lexeme)}
      (ha : ∀ a ∈ arguments, Derives .argument a) :
      Derives .arguments (punct "<" :: separated (punct ",") trailing arguments ++ [punct ">"])
  /-- A lifetime or a literal as an argument. -/
  | plainArgument {t : Lexeme} (hk : t.kind = .lifetime ∨ t.kind = .literal) :
      Derives .argument [t]
  /-- A group in curly brackets as an argument. -/
  | groupArgument {group : List Lexeme} (hg : IsGroup .curly group) : Derives .argument group
  | binding {t : Lexeme} {value : List Lexeme} (hk : t.kind = .ident)
      (hv : Derives .type value) : Derives .argument (t :: punct "=" :: value)
  | typeArgument {ts : List Lexeme} (ht : Derives .type ts) : Derives .argument ts

/-! ## Attributes, visibilities and names -/

/-- A path of identifiers, as in an attribute or a visibility. -/
structure PathTree where
  /-- Whether the path starts at the root. -/
  root : Bool
  words : List Lexeme

namespace PathTree

/-- What a path is written as. -/
def lexemes (p : PathTree) : List Lexeme :=
  rootMark p.root ++ separated (punct "::") false (p.words.map ([·]))

/-- A path has at least one identifier. -/
def WellFormed (p : PathTree) : Prop :=
  p.words ≠ [] ∧ ∀ w ∈ p.words, w.kind = .ident

/-- The path as one text. -/
def text (p : PathTree) : String :=
  (if p.root then "::" else "") ++ "::".intercalate (p.words.map (·.text))

end PathTree

/-- What may follow the path of an attribute. -/
inductive FormTree where
  | bare
  | delimited (d : Delimiter) (inside : List Lexeme)
  | assigned (value : List Lexeme)

namespace FormTree

/-- What a form is written as. -/
def lexemes : FormTree → List Lexeme
  | bare => []
  | delimited d inside => punct d.opener :: inside ++ [punct d.closer]
  | assigned value => punct "=" :: value

/-- Brackets match, and a value is not empty. -/
def WellFormed : FormTree → Prop
  | bare => True
  | delimited _ inside => Balanced inside
  | assigned value => IsValue value

/-- Whether a form that was read is this one. -/
def Matches : FormTree → AttributeForm → Prop
  | bare, .bare => True
  | delimited d inside, .delimited d' arguments => d = d' ∧ Microtypes.lexemes arguments = inside
  | assigned value, .assigned value' => Microtypes.lexemes value' = value
  | _, _ => False

end FormTree

/-- An attribute or a doc comment. -/
inductive AttributeTree where
  | doc (comment : Lexeme)
  | marked (path : PathTree) (form : FormTree)

namespace AttributeTree

/-- What an attribute is written as. -/
def lexemes : AttributeTree → List Lexeme
  | doc comment => [comment]
  | marked path form =>
    punct "#" :: punct "[" :: path.lexemes ++ form.lexemes ++ [punct "]"]

/-- What the grammar asks of an attribute. -/
def WellFormed : AttributeTree → Prop
  | doc comment => comment.kind = .doc
  | marked path form => path.WellFormed ∧ form.WellFormed

/-- Whether an attribute that was read is this one. -/
def Matches : AttributeTree → Attribute → Prop
  | doc comment, a => a.path = "doc" ∧ a.form = .bare ∧ a.text = comment.text
  | marked path form, a => a.path = path.text ∧ form.Matches a.form

end AttributeTree

/-- A visibility. -/
inductive VisibilityTree where
  | hidden
  /-- `pub` by itself. -/
  | plain
  /-- `pub` restricted to a scope. -/
  | scope (word : String)
  /-- `pub` restricted to a module. -/
  | within (path : PathTree)

namespace VisibilityTree

/-- What a visibility is written as. -/
def lexemes : VisibilityTree → List Lexeme
  | hidden => []
  | plain => [ident "pub"]
  | scope word => [ident "pub", punct "(", ident word, punct ")"]
  | within path => [ident "pub", punct "(", ident "in"] ++ path.lexemes ++ [punct ")"]

/-- What the grammar asks of a visibility. -/
def WellFormed : VisibilityTree → Prop
  | hidden | plain => True
  | scope word => word ∈ visibilityScopes
  | within path => path.WellFormed

/-- The visibility as one text. -/
def text : VisibilityTree → String
  | hidden => ""
  | plain => "pub"
  | scope word => s!"pub({word})"
  | within path => s!"pub(in {path.text})"

end VisibilityTree

/-- A declared name with its attributes. -/
structure NameTree where
  attributes : List AttributeTree
  name : Lexeme

namespace NameTree

/-- What a name is written as. -/
def lexemes (n : NameTree) : List Lexeme :=
  n.attributes.flatMap AttributeTree.lexemes ++ [n.name]

/-- A name is an identifier that is neither a keyword nor reserved. -/
def WellFormed (n : NameTree) : Prop :=
  (∀ a ∈ n.attributes, a.WellFormed) ∧ n.name.kind = .ident ∧ n.name.text ∉ reservedWords ∧
    isReservedName n.name.text = false

/-- Whether a name that was read is this one. -/
def Matches (n : NameTree) (d : DeclaredName) : Prop :=
  d.name = n.name.text ∧ List.Forall₂ AttributeTree.Matches n.attributes d.attributes

end NameTree

/-! ## Blocks -/

/-- A block. -/
structure BlockTree where
  attributes : List AttributeTree
  visibility : VisibilityTree
  inner : List Lexeme
  names : List NameTree
  /-- Whether a comma follows the last name. -/
  trailing : Bool

namespace BlockTree

/-- What a block is written as. -/
def lexemes (b : BlockTree) : List Lexeme :=
  b.attributes.flatMap AttributeTree.lexemes ++ b.visibility.lexemes ++ b.inner ++
    punct Delimiter.curly.opener ::
      separated (punct ",") b.trailing (b.names.map NameTree.lexemes) ++
    [punct Delimiter.curly.closer]

/-- What the grammar asks of a block. -/
def WellFormed (b : BlockTree) : Prop :=
  (∀ a ∈ b.attributes, a.WellFormed) ∧ b.visibility.WellFormed ∧ Derives .type b.inner ∧
    ∀ n ∈ b.names, n.WellFormed

/-- Whether a type begins as a restriction of a visibility does: with a bracket around a scope, or
with a bracket and `in`. -/
def LooksRestricted (inner : List Lexeme) : Prop :=
  (∃ word ∈ visibilityScopes, [punct "(", ident word, punct ")"] <+: inner) ∨
    [punct "(", ident "in"] <+: inner

/-- Where `pub` stands by itself, the type after it does not look like its restriction. -/
def Settled (b : BlockTree) : Prop :=
  b.visibility = .plain → ¬ LooksRestricted b.inner

/-- Whether a block that was read is this one. -/
def Matches (b : BlockTree) (d : Declaration) : Prop :=
  List.Forall₂ AttributeTree.Matches b.attributes d.attributes ∧
    d.visibility = b.visibility.text ∧ d.inner.text = spelling b.inner ∧
    List.Forall₂ NameTree.Matches b.names d.names

end BlockTree

/-- Whether lexemes are derived from the grammar as these blocks. -/
def DerivedAs (trees : List BlockTree) (ts : List Lexeme) : Prop :=
  (∀ b ∈ trees, b.WellFormed) ∧ ts = trees.flatMap BlockTree.lexemes

end Microtypes
