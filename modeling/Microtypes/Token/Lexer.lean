import Microtypes.Token.Rule

/-!
# From a source text to its tokens

`segments` cuts a text into pieces that follow one another without gap or overlap: their texts, put
together, are the text again (`flatten_segments`). `place` walks over the pieces, keeps those that
are tokens, and gives each its offsets and its position.
-/

namespace Microtypes

/-- A piece of source text: a blank, a comment or a token. -/
structure Segment where
  /-- The kind of token that the piece is; none for a blank or an ordinary comment. -/
  kind : Option TokenKind
  text : List Char
deriving DecidableEq, Repr

/-- Where the reading of a text stopped, and why. -/
structure LexicalFault where
  /-- Why the text could not be read on. -/
  cause : LexicalCause
  /-- The characters from the offending one on. -/
  rest : List Char
deriving DecidableEq, Repr

/-- The pieces of a text, in order. -/
def segments : List Char → Except LexicalFault (List Segment)
  | [] => .ok []
  | c :: rest =>
    match readPiece c rest with
    | .error cause => .error ⟨cause, c :: rest⟩
    | .ok reading =>
      match segments (rest.drop reading.more) with
      | .error fault => .error fault
      | .ok later => .ok (⟨reading.kind, c :: rest.take reading.more⟩ :: later)
termination_by text => text.length
decreasing_by simp only [List.length_drop, List.length_cons]; omega

/-- The tokens among the pieces, when the first piece begins at the offset `start` and at the
position `here`. -/
def place (start : Nat) (here : Location) : List Segment → List Token
  | [] => []
  | piece :: pieces =>
    let later := place (start + piece.text.length) (here.advanceBy piece.text) pieces
    match piece.kind with
    | none => later
    | some kind =>
      { kind, text := String.ofList piece.text, location := here, start,
        stop := start + piece.text.length } :: later

/-- The tokens of a source text, or where and why it cannot be read. -/
def tokens (source : List Char) : Except LexicalFault (List Token) :=
  (segments source).map (place 0 .start)

/-- The position of a lexical fault of `source`. -/
def LexicalFault.location (source : List Char) (fault : LexicalFault) : Location :=
  Location.ofOffset source (source.length - fault.rest.length)

theorem flatten_segments {source : List Char} {pieces : List Segment}
    (h : segments source = .ok pieces) : pieces.flatMap Segment.text = source := by
  fun_induction segments source generalizing pieces with
  | case1 => cases h; rfl
  | case2 => cases h
  | case3 => cases h
  | case4 c rest reading hread later hlater ih =>
    cases h
    simp [ih hlater]

end Microtypes
