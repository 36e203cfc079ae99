import Microtypes.Grammar.Block
import Microtypes.Problem
import Microtypes.Token.Lexer

/-!
# Reading a source text

The text is cut into tokens and the tokens are read as blocks. An error that the tokens run out is
placed just past the last character.
-/

namespace Microtypes

/-- How a lexical fault ends a run over `source`. -/
def LexicalFault.stop (source : List Char) (fault : LexicalFault) : Stop :=
  match fault.cause with
  | .foreignDigit _ => .abort .foreignDigit
  | cause => .of (.lexical cause) (fault.location source)

/-- The problem of a syntax fault, when the tokens end at `eof`. -/
def SyntaxFault.problem (eof : Location) (fault : SyntaxFault) : Problem :=
  ⟨.grammatical fault.cause, fault.location eof⟩

/-- The tokens of a source text. -/
def sourceTokens (source : String) : Except Stop (List Token) :=
  (tokens source.toList).mapError (·.stop source.toList)

/-- The blocks of a source text, in order. Only the grammar is checked; what the attributes mean is
left open. -/
def readSource (source : String) : Except Stop (List Declaration) := do
  let tokens ← sourceTokens source
  let eof := Location.ofEnd source.toList
  (readBlocks source.toList tokens).mapError fun fault => .problem (fault.problem eof)

/-- A type that takes up all of the tokens, which end at `eof`. -/
def readTypeEndingAt (tokens : List Token) (eof : Location) : Except Problem WrittenType :=
  (readWholeType tokens).mapError (·.problem eof)

end Microtypes
