import Microtypes.Grammar.Name

/-!
# Reading declarations

A source is a list of blocks, each of which goes past at least one token.
-/

namespace Microtypes

/-- Reads a block. -/
def readBlock (source : List Char) (ahead : List Token) :
    Except SyntaxFault (Declaration × List Token) := do
  let (attributes, atVisibility) ← readAttributes source ahead
  let (visibility, atType) ← readVisibility atVisibility
  let (inner, atNames) ← readType atType
  let (_, inside) ← readWord Delimiter.curly.opener "`\x7b` after the inner type" atNames
  let (names, atClose) ← readNames source inside
  let (_, rest) ← readWord Delimiter.curly.closer "`,` or `\x7d` after a microtype name" atClose
  return ({ attributes, inner, visibility, names }, rest)

/-- What is read as a block: its parts, one after another. -/
inductive ReadsBlock (source : List Char) (ahead rest : List Token) : Declaration → Prop
  | parts {attributes : List Attribute} {visibility : String} {inner : WrittenType}
      {names : List DeclaredName} {opener closer : Token}
      {atVisibility atType atNames inside atClose : List Token}
      (hattributes : readAttributes source ahead = .ok (attributes, atVisibility))
      (hvisibility : readVisibility atVisibility = .ok (visibility, atType))
      (htype : readType atType = .ok (inner, atNames))
      (hopen : readWord Delimiter.curly.opener "`\x7b` after the inner type" atNames =
        .ok (opener, inside))
      (hnames : readNames source inside = .ok (names, atClose))
      (hclose : readWord Delimiter.curly.closer "`,` or `\x7d` after a microtype name" atClose =
        .ok (closer, rest)) :
      ReadsBlock source ahead rest { attributes, inner, visibility, names }

theorem parts_of_readBlock {source : List Char} {ahead rest : List Token} {block : Declaration}
    (h : readBlock source ahead = .ok (block, rest)) : ReadsBlock source ahead rest block := by
  simp only [readBlock, bind_eq_ok_iff, Prod.exists] at h
  obtain ⟨attributes, atVisibility, hattributes, visibility, atType, hvisibility, inner, atNames,
    htype, opener, inside, hopen, names, atClose, hnames, closer, after, hclose, hend⟩ := h
  cases hend
  exact .parts hattributes hvisibility htype hopen hnames hclose

theorem length_of_readBlock {source : List Char} {ahead rest : List Token} {block : Declaration}
    (h : readBlock source ahead = .ok (block, rest)) : rest.length < ahead.length := by
  cases parts_of_readBlock h with
  | parts hattributes hvisibility htype hopen hnames hclose =>
    have := length_of_readAttributes hattributes
    have := length_of_readVisibility hvisibility
    have := length_of_readType htype
    have := length_of_readWord hopen
    have := length_of_readNames hnames
    have := length_of_readWord hclose
    omega

/-- Reads blocks up to the end of the tokens. -/
def readBlocks (source : List Char) (ahead : List Token) : Except SyntaxFault (List Declaration) :=
  match ahead with
  | [] => .ok []
  | first :: others =>
    match _h : readBlock source (first :: others) with
    | .error fault => .error fault
    | .ok (block, rest) =>
      match readBlocks source rest with
      | .error fault => .error fault
      | .ok blocks => .ok (block :: blocks)
termination_by ahead.length
decreasing_by exact length_of_readBlock ‹_›

end Microtypes
