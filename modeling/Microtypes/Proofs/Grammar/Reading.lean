import Microtypes.Proofs.Grammar.Simulation

/-!
# Reading what is in plain sight

Each reader takes what it looks for where it stands at the front of the tokens. With these lemmas
the reading of a given list of tokens is followed step by step.
-/

namespace Microtypes

variable {source : List Char} {t : Token} {ahead next rest after : List Token}
  {text what visibility : String}

theorem readWord_cons (h : t.isWord text = true) :
    readWord text what (t :: rest) = .ok (t, rest) := by
  rw [readWord, if_pos h]

/-! ## Attributes -/

theorem readForm_of_group {d : Delimiter} (hopens : t.opens? = some d)
    (hgroup : passGroup (t :: rest) = .ok after) :
    readForm (t :: rest) = .ok (.delimited d (insideGroup (t :: rest) after), after) := by
  rw [readForm]
  simp only [hopens, hgroup]
  rfl

theorem readAfterMark_of_parts {mark opener closer : Token} {path : String} {form : AttributeForm}
    {inside : List Token} (hbang : startsWith (opener :: inside) "!" = false)
    (hopener : opener.isWord "[" = true)
    (hpath : readPath "an attribute path" inside = .ok (path, rest))
    (hform : readForm rest = .ok (form, closer :: after)) (hcloser : closer.isWord "]" = true) :
    readAfterMark source mark (opener :: inside) =
      .ok (⟨path, form, String.ofList (slice source mark.start closer.stop), mark.location⟩,
        after) := by
  rw [readAfterMark, hbang, if_neg Bool.false_ne_true]
  simp only [bind, Except.bind, readWord_cons hopener, hpath, hform, readWord_cons hcloser]
  rfl

theorem readAttributes_nil : readAttributes source [] = .ok ([], []) := by
  rw [readAttributes]

theorem readAttributes_of_mark {attr : Attribute} {others : List Attribute} (hk : t.kind ≠ .doc)
    (hmark : t.isPunct "#" = true) (hattr : readAfterMark source t rest = .ok (attr, next))
    (hothers : readAttributes source next = .ok (others, after)) :
    readAttributes source (t :: rest) = .ok (attr :: others, after) := by
  rw [readAttributes, if_neg hk, if_pos hmark]
  split
  · next hfault => rw [hattr] at hfault; cases hfault
  · next hread =>
    rw [hattr] at hread
    cases hread
    rw [hothers]

/-! ## Names -/

theorem readName_of_attributes {attrs : List Attribute} (hname : nameFault? t.toLexeme = none)
    (hattributes : readAttributes source ahead = .ok (attrs, t :: rest)) :
    readName source ahead = .ok (⟨t.text, attrs, t.location⟩, rest) := by
  rw [readName, hattributes]
  simp only [hname]

theorem readNames_cons {name : DeclaredName} {names : List DeclaredName}
    (hclose : startsWith ahead Delimiter.curly.closer = false)
    (hname : readName source ahead = .ok (name, next)) (hcomma : startsWith next "," = true)
    (hnames : readNames source next.tail = .ok (names, rest)) :
    readNames source ahead = .ok (name :: names, rest) := by
  rw [readNames, hclose, if_neg Bool.false_ne_true]
  split
  · next hfault => rw [hname] at hfault; cases hfault
  · next hread =>
    rw [hname] at hread
    cases hread
    rw [if_pos hcomma, hnames]

theorem readNames_last {name : DeclaredName}
    (hclose : startsWith ahead Delimiter.curly.closer = false)
    (hname : readName source ahead = .ok (name, next)) (hcomma : startsWith next "," = false) :
    readNames source ahead = .ok ([name], next) := by
  rw [readNames, hclose, if_neg Bool.false_ne_true]
  split
  · next hfault => rw [hname] at hfault; cases hfault
  · next hread =>
    rw [hname] at hread
    cases hread
    rw [hcomma, if_neg Bool.false_ne_true]

/-! ## Blocks -/

theorem readType_of_pass (h : Goal.pass [.type] (t :: rest) = .ok after) :
    readType (t :: rest) = .ok
      (⟨spelling (lexemes (passed (t :: rest) after)), t.location⟩, after) := by
  rw [readType, h]

theorem readBlock_of_parts {attrs : List Attribute} {type : WrittenType}
    {names : List DeclaredName} {atVisibility atType atNames inside atClose : List Token}
    {opener closer : Token} (hattributes : readAttributes source ahead = .ok (attrs, atVisibility))
    (hvisibility : readVisibility atVisibility = .ok (visibility, atType))
    (htype : readType atType = .ok (type, atNames))
    (hatNames : atNames = opener :: inside)
    (hopener : opener.isWord Delimiter.curly.opener = true)
    (hnames : readNames source inside = .ok (names, atClose))
    (hatClose : atClose = closer :: rest)
    (hcloser : closer.isWord Delimiter.curly.closer = true) :
    readBlock source ahead = .ok (⟨attrs, type, visibility, names⟩, rest) := by
  subst hatNames hatClose
  simp only [readBlock, bind, Except.bind, hattributes, hvisibility, htype, readWord_cons hopener,
    hnames, readWord_cons hcloser]
  rfl

theorem readBlocks_of_readBlock {block : Declaration} {blocks : List Declaration}
    (hblock : readBlock source (t :: ahead) = .ok (block, rest))
    (hblocks : readBlocks source rest = .ok blocks) :
    readBlocks source (t :: ahead) = .ok (block :: blocks) := by
  rw [readBlocks_cons, hblock]
  simp only [hblocks]
  rfl

theorem readBlocks_nil : readBlocks source [] = .ok [] := by
  rw [readBlocks]

end Microtypes
