import Microtypes.Fallible
import Microtypes.Token.Basic

/-!
# Reading a list of tokens

A reader takes the tokens that are still ahead and returns those that are ahead afterwards, together
with what it read. When it fails, the fault holds the tokens from the offending one on: the place of
the error is the place of the first of them, or the end of the source when there is none.
-/

namespace Microtypes

/-- Why a list of tokens breaks the grammar. -/
inductive SyntaxCause where
  /-- A token was needed and none is left. -/
  | unexpectedEnd
  /-- Something else was needed; `found` is the token in its place, if there is one. -/
  | expected (what : String) (found : Option String)
  | omitted (what : String)
  /-- An inner attribute stands where only outer ones may. -/
  | innerAttribute
  | unclosed (opener : String)
  /-- A closing bracket does not match the innermost open one. -/
  | mismatched (closer : String)
  /-- A keyword stands for a declared name. -/
  | keyword (word : String)
  /-- A declared name is of the form kept for generated types. -/
  | reservedName
  /-- A complete type is followed by another token. -/
  | afterType (found : String)
deriving DecidableEq, Repr

/-- What every name of a generated helper type begins with. -/
def reservedStem : String := "__Microtype"

/-- The wording of a syntax error. -/
def SyntaxCause.message : SyntaxCause → String
  | .unexpectedEnd => "unexpected end of input"
  | .expected what none => s!"expected {what}, found end of input"
  | .expected what (some found) => s!"expected {what}, found `{found}`"
  | .omitted what => s!"expected {what}"
  | .innerAttribute => "inner attributes (`#![...]`) are not allowed here"
  | .unclosed opener => s!"unclosed delimiter `{opener}`"
  | .mismatched closer => s!"mismatched closing delimiter `{closer}`"
  | .keyword word => s!"`{word}` is a reserved keyword; use `r#{word}`"
  | .reservedName =>
    s!"names starting with `{reservedStem}` are reserved for generated helper types"
  | .afterType found => s!"unexpected `{found}` after the type"

/-- Where and why a list of tokens breaks the grammar. -/
structure SyntaxFault where
  cause : SyntaxCause
  /-- The tokens from the offending one on. -/
  rest : List Token
deriving DecidableEq, Repr

/-- The position of the offending token, or the position `eof` when the tokens ran out. -/
def SyntaxFault.location (eof : Location) (fault : SyntaxFault) : Location :=
  match fault.rest with
  | [] => eof
  | token :: _ => token.location

/-- The result of reading a value. -/
abbrev Reads (α : Type) := Except SyntaxFault (α × List Token)

/-- The fault of finding something else where `what` was needed. -/
def expectedFault (what : String) (ahead : List Token) : SyntaxFault :=
  ⟨.expected what (ahead.head?.map (·.text)), ahead⟩

/-- Reads any token. -/
def readToken : List Token → Reads Token
  | [] => .error ⟨.unexpectedEnd, []⟩
  | token :: rest => .ok (token, rest)

/-- Reads the word or punctuation `text`, which is called `what` if it is not there. -/
def readWord (text what : String) : List Token → Reads Token
  | [] => .error (expectedFault what [])
  | token :: rest =>
    if token.isWord text then .ok (token, rest) else .error (expectedFault what (token :: rest))

/-- Goes past the word or punctuation `text`, which is called `what` if it is not there. -/
def passWord (text what : String) (ahead : List Token) : Except SyntaxFault (List Token) :=
  (readWord text what ahead).map Prod.snd

/-- Drops the word or punctuation `text` if it is next. -/
def dropWord (text : String) (ahead : List Token) : List Token :=
  if startsWith ahead text then ahead.tail else ahead

/-- The tokens that a reader went past, from what was ahead before and after it. -/
def passed (before after : List Token) : List Token :=
  before.take (before.length - after.length)

theorem startsWith_nil (text : String) : startsWith [] text = false := rfl

theorem length_tail_of_startsWith {ahead : List Token} {text : String}
    (h : startsWith ahead text = true) : ahead.tail.length + 1 = ahead.length := by
  cases ahead with
  | nil => simp [startsWith_nil] at h
  | cons token rest => simp

theorem length_of_readWord {text what : String} {ahead rest : List Token} {token : Token}
    (h : readWord text what ahead = .ok (token, rest)) : rest.length + 1 = ahead.length := by
  cases ahead with
  | nil => cases h
  | cons first others =>
    simp only [readWord] at h
    split at h
    · cases h; simp
    · cases h

theorem length_of_passWord {text what : String} {ahead rest : List Token}
    (h : passWord text what ahead = .ok rest) : rest.length + 1 = ahead.length := by
  obtain ⟨⟨token, after⟩, hread, rfl⟩ := map_eq_ok_iff.mp h
  exact length_of_readWord hread

theorem length_dropWord_le (text : String) (ahead : List Token) :
    (dropWord text ahead).length ≤ ahead.length := by
  unfold dropWord
  split <;> simp

end Microtypes
