import Microtypes.Token.Basic

/-!
# Arguments of an attribute

Arguments are separated by the commas that lie in no bracket, angle brackets included. A comma at
the end adds no argument.
-/

namespace Microtypes

/-- What a lexeme adds to the depth of nesting. -/
def Lexeme.nesting (t : Lexeme) : Int :=
  if t.opens?.isSome || t.isPunct "<" then 1
  else if t.closes?.isSome || t.isPunct ">" then -1
  else 0

/-- The pieces between the commas at depth zero, of which there is always at least one. The depth is
signed: brackets need not match. -/
def commaPieces (depth : Int) : List Token → List (List Token)
  | [] => [[]]
  | token :: rest =>
    if token.isPunct "," ∧ depth = 0 then [] :: commaPieces depth rest
    else
      match commaPieces (depth + token.nesting) rest with
      | [] => [[token]]
      | piece :: pieces => (token :: piece) :: pieces

/-- The arguments in a list of tokens. -/
def argumentLists (tokens : List Token) : List (List Token) :=
  let pieces := commaPieces 0 tokens
  if pieces.getLast? = some [] then pieces.dropLast else pieces

end Microtypes
