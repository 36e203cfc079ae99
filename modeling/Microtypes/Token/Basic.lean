import Microtypes.Text.Location

/-!
# Tokens

A lexeme is a token without its place: a kind and the exact characters. Everything that a
declaration means is read off its lexemes; the place of a token is used for messages and for taking
verbatim slices of the source.
-/

namespace Microtypes

/-- The classes of tokens. -/
inductive TokenKind where
  /-- An identifier, a keyword or a raw identifier such as `r#type`. -/
  | ident
  /-- A lifetime such as `'a`. -/
  | lifetime
  /-- A number, or a string or character in quotes. -/
  | literal
  /-- An operator, a separator or a delimiter. -/
  | punct
  /-- An outer doc comment, which counts as an attribute. -/
  | doc
deriving DecidableEq, Repr, Inhabited

/-- The name of a class of tokens. -/
def TokenKind.name : TokenKind → String
  | .ident => "ident"
  | .lifetime => "lifetime"
  | .literal => "literal"
  | .punct => "punct"
  | .doc => "doc"

/-- A token without its place. -/
structure Lexeme where
  kind : TokenKind
  text : String
deriving DecidableEq, Repr, Inhabited

/-- A token of a source text. -/
structure Token extends Lexeme where
  /-- The line and column of the first character. -/
  location : Location
  start : Nat
  /-- The offset just past the last character. -/
  stop : Nat
deriving DecidableEq, Repr, Inhabited

namespace Lexeme

/-- Whether the lexeme is the punctuation `text`. -/
def isPunct (t : Lexeme) (text : String) : Bool :=
  t.kind == .punct && t.text == text

/-- Whether the lexeme is the identifier or keyword `text`. -/
def isIdent (t : Lexeme) (text : String) : Bool :=
  t.kind == .ident && t.text == text

/-- Whether the lexeme is the word or punctuation `text`; a literal or a comment never is. -/
def isWord (t : Lexeme) (text : String) : Bool :=
  (t.kind == .punct || t.kind == .ident) && t.text == text

end Lexeme

/-- The three kinds of brackets. -/
inductive Delimiter where
  | round
  | square
  | curly
deriving DecidableEq, Repr, Inhabited

namespace Delimiter

/-- The bracket that opens a group. -/
def opener : Delimiter → String
  | .round => "("
  | .square => "["
  | .curly => "\x7b"

/-- The bracket that closes a group. -/
def closer : Delimiter → String
  | .round => ")"
  | .square => "]"
  | .curly => "\x7d"

/-- All brackets. -/
def all : List Delimiter := [.round, .square, .curly]

end Delimiter

namespace Lexeme

/-- The brackets that the lexeme opens, if it opens any. -/
def opens? (t : Lexeme) : Option Delimiter :=
  Delimiter.all.find? fun d => t.isPunct d.opener

/-- The brackets that the lexeme closes, if it closes any. -/
def closes? (t : Lexeme) : Option Delimiter :=
  Delimiter.all.find? fun d => t.isPunct d.closer

end Lexeme

/-- Whether the first of the tokens is the word or punctuation `text`. -/
def startsWith (tokens : List Token) (text : String) : Bool :=
  tokens.head?.any (·.isWord text)

/-- The lexemes of a list of tokens. -/
def lexemes (tokens : List Token) : List Lexeme :=
  tokens.map Token.toLexeme

end Microtypes
