import Microtypes.Text.Blank
import Microtypes.Text.Digit
import Microtypes.Text.Quoted
import Microtypes.Token.Basic
import Microtypes.Token.Extent

/-!
# The lexical rules

A source text is read in pieces: blanks, comments and tokens. Each rule looks at the character where
a piece begins and at what follows, and either does not apply, or says how the piece is read, or
refuses it. The rules stand in order of precedence, and the first that applies decides; a character
to which none applies is refused.

A line comment that is a doc comment ends before its trailing blanks, which are then read as blanks.
-/

namespace Microtypes

/-- Why no piece can be read at a character. -/
inductive LexicalCause where
  | unterminatedComment
  | unterminatedRawString
  | unterminatedString
  /-- A single quote begins neither a lifetime nor a character literal. -/
  | strayQuote
  | unexpected (c : Char)
  /-- The character is a digit of another script, which is not reported as an error of the source:
  reading stops altogether. -/
  | foreignDigit (c : Char)
deriving DecidableEq, Repr

/-- The wording of a lexical error. -/
def LexicalCause.message : LexicalCause → String
  | .unterminatedComment => "unterminated block comment"
  | .unterminatedRawString => "unterminated raw string literal"
  | .unterminatedString => "unterminated string literal"
  | .strayQuote => "invalid lifetime or character literal"
  | .unexpected c => "unexpected character " ++ quoted (String.singleton c)
  | .foreignDigit _ => ""

/-- How a piece of source is read. -/
structure Reading where
  /-- The kind of token that the piece is; none for a blank or an ordinary comment. -/
  kind : Option TokenKind
  /-- How many characters follow the first one. -/
  more : Nat
deriving DecidableEq, Repr

namespace Reading

/-- A piece that is no token. -/
def skip (more : Nat) : Reading := ⟨none, more⟩

/-- A piece that is a token of `length` characters. -/
def token (kind : TokenKind) (length : Nat) : Reading := ⟨some kind, length - 1⟩

end Reading

/-- A lexical rule: from the first character of a piece and the rest of the text, how the piece is
read or why it is refused, and nothing if the rule does not apply. -/
abbrev LexicalRule := Char → List Char → Option (Except LexicalCause Reading)

/-- Blanks are skipped one by one. -/
def blankRule : LexicalRule := fun c _ =>
  if isBlank c then some (.ok (.skip 0)) else none

/-- Whether the marker opens a doc comment: `mark` is written twice after the first character, but
not three times. -/
def opensDoc (mark : Char) (rest : List Char) : Bool :=
  [mark, mark].isPrefixOf rest && !([mark, mark, mark].isPrefixOf rest)

/-- A line comment reaches to the line feed. With exactly three slashes it is a doc comment and ends
before the blanks at its end. -/
def lineCommentRule : LexicalRule := fun c rest =>
  if c = '/' ∧ rest.head? = some '/' then
    let line := rest.takeWhile (· ≠ '\n')
    if opensDoc '/' rest then some (.ok (.token .doc (trimEnd (c :: line)).length))
    else some (.ok (.skip line.length))
  else none

/-- A block comment reaches to the marker that closes its outermost level. With exactly two stars,
and unless it is the empty comment, it is a doc comment. -/
def blockCommentRule : LexicalRule := fun c rest =>
  if c = '/' ∧ rest.head? = some '*' then
    match commentExtent 0 (c :: rest) with
    | none => some (.error .unterminatedComment)
    | some length =>
      if opensDoc '*' rest && !(['*', '*', '/'].isPrefixOf rest) then
        some (.ok (.token .doc length))
      else some (.ok (.skip (length - 1)))
  else none

/-- A raw string, from its `r` on, that ends with `hashes` number signs. -/
def rawStringReading (before hashes : Nat) (afterR : List Char) : Except LexicalCause Reading :=
  match rawStringExtent hashes (afterR.drop (hashes + 1)) with
  | none => .error .unterminatedRawString
  | some length => .ok (.token .literal (before + hashes + 1 + length))

/-- Raw strings and raw byte strings. -/
def rawStringRule : LexicalRule := fun c rest =>
  match c, rest with
  | 'r', afterR => (rawStringHashes? afterR).map fun hashes => rawStringReading 1 hashes afterR
  | 'b', 'r' :: afterR =>
    (rawStringHashes? afterR).map fun hashes => rawStringReading 2 hashes afterR
  | _, _ => none

/-- A string, from just past its opening quote on. -/
def stringReading (before : Nat) (inside : List Char) : Except LexicalCause Reading :=
  match stringExtent inside with
  | none => .error .unterminatedString
  | some length => .ok (.token .literal (before + length))

/-- Strings and byte strings. -/
def stringRule : LexicalRule := fun c rest =>
  match c, rest with
  | '"', inside => some (stringReading 1 inside)
  | 'b', '"' :: inside => some (stringReading 2 inside)
  | _, _ => none

/-- Character and byte literals. A quote that begins none of them is left to the later rules. -/
def charRule : LexicalRule := fun c rest =>
  match c, rest with
  | '\'', inside => (quotedCharExtent inside).map fun length => .ok (.token .literal (1 + length))
  | 'b', '\'' :: inside =>
    (quotedCharExtent inside).map fun length => .ok (.token .literal (2 + length))
  | _, _ => none

/-- Identifiers, plain or raw. -/
def identRule : LexicalRule := fun c rest =>
  (identExtent (c :: rest)).map fun length => .ok (.token .ident length)

/-- Numbers. A digit of another script stops the reading. -/
def numberRule : LexicalRule := fun c rest =>
  if isForeignDigit c then some (.error (.foreignDigit c))
  else (numberExtent (c :: rest)).map fun length => .ok (.token .literal length)

/-- Lifetimes. A quote that begins none is refused. -/
def lifetimeRule : LexicalRule := fun c rest =>
  if c = '\'' then
    if startsIdent rest then some (.ok (.token .lifetime (1 + runLength isIdentRest rest)))
    else some (.error .strayQuote)
  else none

/-- The operators of two characters. -/
def pairedPuncts : List (Char × Char) :=
  [(':', ':'), ('-', '>'), ('=', '>')]

/-- The operators, separators and delimiters of one character. -/
def singlePuncts : List Char :=
  ['#', '[', ']', '(', ')', '{', '}', '<', '>', ',', ';', ':', '=', '&', '*', '!', '+', '-', '/',
    '.', '?', '@', '|', '^', '%', '~', '$']

/-- Punctuation; of two readings the longer is taken. -/
def punctRule : LexicalRule := fun c rest =>
  if rest.head?.any (fun d => pairedPuncts.contains (c, d)) then some (.ok (.token .punct 2))
  else if singlePuncts.contains c then some (.ok (.token .punct 1))
  else none

/-- The lexical rules in order of precedence. -/
def lexicalRules : List LexicalRule :=
  [blankRule, lineCommentRule, blockCommentRule, rawStringRule, stringRule, charRule, identRule,
    numberRule, lifetimeRule, punctRule]

/-- How the piece is read that begins with `c`. -/
def readPiece (c : Char) (rest : List Char) : Except LexicalCause Reading :=
  (lexicalRules.findSome? fun rule => rule c rest).getD (.error (.unexpected c))

end Microtypes
