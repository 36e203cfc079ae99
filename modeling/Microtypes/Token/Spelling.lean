import Microtypes.Token.Basic

/-!
# Normalised spelling

Lexemes are written out on one line with the spacing that Rust code usually has: no space inside
brackets, before a separator, around a path separator or after a reference, and one space elsewhere.
-/

namespace Microtypes

/-- The punctuation that no space comes before. -/
def unspacedBefore : List String :=
  [",", ";", ">", ")", "]", "::", "<", "?"]

/-- The punctuation that no space comes after. -/
def unspacedAfter : List String :=
  ["::", "&", "<", "(", "[", "#", "!"]

/-- The keywords after which a round bracket begins a type of its own. -/
def typeKeywords : List String :=
  ["mut", "dyn"]

/-- Whether two neighbouring lexemes are kept apart by a space. A round bracket also touches the
identifier it follows, unless that is one of `typeKeywords`. -/
def spaced (left right : Lexeme) : Bool :=
  let glued := left.kind == .punct && unspacedAfter.contains left.text
  let gluing := right.kind == .punct && unspacedBefore.contains right.text
  let call := right.text == "(" && left.kind == .ident && !typeKeywords.contains left.text
  !glued && !gluing && !call

/-- The lexemes written out. -/
def spelling : List Lexeme → String
  | [] => ""
  | [last] => last.text
  | left :: right :: rest =>
    left.text ++ (if spaced left right then " " else "") ++ spelling (right :: rest)

end Microtypes
