/-!
# How far a piece of source text reaches

Each function measures one kind of piece from its beginning and says how many characters it takes,
or that it never ends.

* `stringExtent`: up to the first double quote that no backslash escapes.
* `commentExtent`: block comments nest, and a marker's characters are used once, from left to right.
* `rawStringExtent`: up to a double quote followed by as many number signs as opened the string.
* `quotedCharExtent`: one plain or escaped character and its closing quote.
* `identExtent`, `numberExtent`: the longest run of the form.
-/

namespace Microtypes

/-- The number of characters up to and including the first unescaped double quote, for a text that
begins inside a string. -/
def stringExtent : List Char → Option Nat
  | [] => none
  | ['\\'] => none
  | '\\' :: _ :: rest => (stringExtent rest).map (· + 2)
  | '"' :: _ => some 1
  | _ :: rest => (stringExtent rest).map (· + 1)

/-- The number of characters up to the marker that brings the nesting depth back to zero, that
marker included. The depth is signed: a closing marker before any opening one counts below zero. -/
def commentExtent (depth : Int) : List Char → Option Nat
  | '/' :: '*' :: rest => (commentExtent (depth + 1) rest).map (· + 2)
  | '*' :: '/' :: rest =>
    if depth = 1 then some 2 else (commentExtent (depth - 1) rest).map (· + 2)
  | _ :: rest => (commentExtent depth rest).map (· + 1)
  | [] => none

/-- How many characters at the front satisfy `p`. -/
def runLength (p : Char → Bool) (text : List Char) : Nat :=
  (text.takeWhile p).length

/-- The number of number signs between the `r` of a raw string and its opening quote. -/
def rawStringHashes? (afterR : List Char) : Option Nat :=
  let hashes := runLength (· == '#') afterR
  if (afterR.drop hashes).head? = some '"' then some hashes else none

/-- The number of characters up to and including the end of a raw string, for a text that begins
just past its opening quote. -/
def rawStringExtent (hashes : Nat) : List Char → Option Nat
  | [] => none
  | c :: rest =>
    if c = '"' ∧ (List.replicate hashes '#').isPrefixOf rest then some (1 + hashes)
    else (rawStringExtent hashes rest).map (· + 1)

/-- Whether a character is a hexadecimal digit. -/
def isHexDigit (c : Char) : Bool :=
  c.isDigit || ('a' ≤ c && c ≤ 'f') || ('A' ≤ c && c ≤ 'F')

/-- The number of characters of an escape after its backslash, for an escape that a closing quote
follows: any one character but a line feed, two hexadecimal digits after `x`, or one to six of them
in braces after `u`. -/
def escapeExtent : List Char → Option Nat
  | c :: '\'' :: _ => if c = '\n' then none else some 1
  | 'x' :: a :: b :: '\'' :: _ => if isHexDigit a && isHexDigit b then some 3 else none
  | 'u' :: '{' :: rest =>
    let digits := runLength isHexDigit rest
    if 1 ≤ digits ∧ digits ≤ 6 ∧ (rest.drop digits).take 2 = ['}', '\''] then some (digits + 3)
    else none
  | _ => none

/-- The number of characters of a character literal after its opening quote, the closing quote
included. -/
def quotedCharExtent : List Char → Option Nat
  | '\\' :: rest => (escapeExtent rest).map (· + 2)
  | c :: '\'' :: _ => if c = '\'' ∨ c = '\n' then none else some 2
  | _ => none

/-- Whether an identifier may begin with the character. Identifiers are ASCII. -/
def isIdentStart (c : Char) : Bool :=
  c.isAlpha || c == '_'

/-- Whether an identifier may go on with the character. -/
def isIdentRest (c : Char) : Bool :=
  c.isAlphanum || c == '_'

/-- Whether a text begins with an identifier. -/
def startsIdent (text : List Char) : Bool :=
  text.head?.any isIdentStart

/-- The number of characters of the identifier at the front of a text, a raw mark `r#` included. -/
def identExtent : List Char → Option Nat
  | 'r' :: '#' :: rest =>
    if startsIdent rest then some (2 + runLength isIdentRest rest) else some 1
  | text => if startsIdent text then some (runLength isIdentRest text) else none

/-- The number of characters of the number at the front of a text: digits, letters and underscores
after a digit, and once more the same after a point. -/
def numberExtent (text : List Char) : Option Nat :=
  if text.head?.any Char.isDigit then
    let whole := runLength isIdentRest text
    match text.drop whole with
    | '.' :: fraction =>
      if fraction.head?.any Char.isDigit then some (whole + 1 + runLength isIdentRest fraction)
      else some whole
    | _ => some whole
  else none

end Microtypes
