import Microtypes.Proofs.Grammar.Standing
import Microtypes.Proofs.Relocation

/-!
# The text of an attribute

The text of an attribute is what stands in the source from its first token to its last one. It is
complete: read by itself, it is this attribute and nothing else (`verbatim_of_readSource`).
-/

namespace Microtypes

open Lexeme (punct ident)

/-- Whether the text of an attribute is read by itself as this attribute, but for its place, and as
nothing else. -/
def Attribute.IsSelfContained (a : Attribute) : Prop :=
  ∃ ts again, sourceTokens a.text = .ok ts ∧
    readAttributes a.text.toList ts = .ok ([again], []) ∧ again.Alike elsewhere a

/-- What is read from a run of tokens alone is read from their text alone. -/
theorem Attribute.StandsAlone.isSelfContained {source : String} {ts run : List Token}
    {a : Attribute} (hts : sourceTokens source = .ok ts) (hrun : run <:+: ts)
    (h : a.StandsAlone source.toList run) : a.IsSelfContained := by
  obtain ⟨first, last, hfirst, hlast, -, htext⟩ := h.text
  have hne : run ≠ [] := by
    rintro rfl
    cases hfirst
  obtain ⟨pieces, hexcerpt⟩ := exists_excerpt hts hrun hne
  obtain ⟨above, below, there, hsource, hplace⟩ := hexcerpt.yields
  have halone : a.text.toList = [] ++ pieces.flatMap Segment.text ++ [] := by
    rw [htext, String.toList_ofList, ← runText_of_ends hfirst hlast, hexcerpt.text,
      List.nil_append, List.append_nil]
  have hpieces : segments a.text.toList = .ok pieces := by
    rw [halone, List.nil_append, List.append_nil, hexcerpt.alone]
  have halike : (sharedText halone hsource).Tokens (place 0 .start pieces) run := by
    have hall := tokens_sharedText halone hsource .start there (Nat.zero_add _).le
    rwa [Nat.zero_add, Nat.zero_add, List.length_nil, hplace] at hall
  obtain ⟨⟨found, rest⟩, _, hread, hread', hattributes, hrest⟩ | ⟨_, _, -, hread', -⟩ :=
    (Likeness.reads_attributes halike).cases
  · rw [h.alone] at hread'
    cases hread'
    cases hrest
    obtain ⟨again, _, hagain, ⟨⟩, rfl⟩ := List.forall₂_cons_right_iff.mp hattributes
    exact ⟨_, again, sourceTokens_of_segments hpieces, hread,
      hagain.to_elsewhere (keepsTexts_sharedText halone hsource)⟩
  · rw [h.alone] at hread'
    cases hread'

/-- Every attribute of a block or of a name is a run of tokens of the source, and its text, which is
theirs, is self-contained. -/
theorem verbatim_of_readSource {source : String} {blocks : List Declaration} {block : Declaration}
    {a : Attribute} (h : readSource source = .ok blocks) (hblock : block ∈ blocks)
    (ha : a ∈ block.attributes ∨ ∃ decl ∈ block.names, a ∈ decl.attributes) :
    (∃ ts run, sourceTokens source = .ok ts ∧ run <:+: ts ∧ a.StandsAs source.toList run) ∧
      a.IsSelfContained := by
  obtain ⟨ts, run, hts, hrun, hstands⟩ := exists_standsAlone_of_readSource h hblock ha
  exact ⟨⟨ts, run, hts, hrun, hstands.toStandsAs⟩, hstands.isSelfContained hts hrun⟩

/-! ## An attribute with brackets in its text -/

/-- A block whose attribute holds brackets in a string and in a comment. -/
def bracketedSource : String := "#[a(\"]\" /*)*/)]A\x7bB\x7d"

/-- Its tokens. -/
def bracketedTokens : List Token :=
  [⟨punct "#", ⟨1, 1⟩, 0, 1⟩, ⟨punct "[", ⟨1, 2⟩, 1, 2⟩, ⟨ident "a", ⟨1, 3⟩, 2, 3⟩,
    ⟨punct "(", ⟨1, 4⟩, 3, 4⟩, ⟨⟨.literal, "\"]\""⟩, ⟨1, 5⟩, 4, 7⟩, ⟨punct ")", ⟨1, 14⟩, 13, 14⟩,
    ⟨punct "]", ⟨1, 15⟩, 14, 15⟩, ⟨ident "A", ⟨1, 16⟩, 15, 16⟩, ⟨punct "\x7b", ⟨1, 17⟩, 16, 17⟩,
    ⟨ident "B", ⟨1, 18⟩, 17, 18⟩, ⟨punct "\x7d", ⟨1, 19⟩, 18, 19⟩]

/-- Its attribute. -/
def bracketedAttribute : Attribute :=
  ⟨"a", .delimited .round [⟨⟨.literal, "\"]\""⟩, ⟨1, 5⟩, 4, 7⟩], "#[a(\"]\" /*)*/)]", ⟨1, 1⟩⟩

theorem sourceTokens_bracketed : sourceTokens bracketedSource = .ok bracketedTokens := by
  have hsegments : segments bracketedSource.toList = .ok
      [⟨some .punct, ['#']⟩, ⟨some .punct, ['[']⟩, ⟨some .ident, ['a']⟩, ⟨some .punct, ['(']⟩,
        ⟨some .literal, "\"]\"".toList⟩, ⟨none, [' ']⟩, ⟨none, "/*)*/".toList⟩,
        ⟨some .punct, [')']⟩, ⟨some .punct, [']']⟩, ⟨some .ident, ['A']⟩,
        ⟨some .punct, "\x7b".toList⟩, ⟨some .ident, ['B']⟩, ⟨some .punct, "\x7d".toList⟩] := by
    refine segments_cons _ 0 rfl (segments_cons _ 0 rfl (segments_cons _ 0 rfl ?_))
    refine segments_cons _ 0 rfl (segments_cons _ 2 rfl (segments_cons _ 0 rfl ?_))
    refine segments_cons _ 4 rfl (segments_cons _ 0 rfl (segments_cons _ 0 rfl ?_))
    refine segments_cons _ 0 rfl (segments_cons _ 0 rfl (segments_cons _ 0 rfl ?_))
    exact segments_cons _ 0 rfl segments_nil
  exact sourceTokens_of_segments hsegments

theorem readSource_bracketed : readSource bracketedSource =
    .ok [⟨[bracketedAttribute], ⟨"A", ⟨1, 16⟩⟩, "", [⟨"B", [], ⟨1, 18⟩⟩]⟩] := by
  have hA : readAttributes bracketedSource.toList (bracketedTokens.drop 7) = .ok ([], _) :=
    readAttributes_of_other (show TokenKind.ident ≠ .doc by decide) rfl
  have hB : readAttributes bracketedSource.toList (bracketedTokens.drop 9) = .ok ([], _) :=
    readAttributes_of_other (show TokenKind.ident ≠ .doc by decide) rfl
  have ha := readAttributes_of_mark (show TokenKind.punct ≠ .doc by decide) rfl
    (show readAfterMark _ ⟨punct "#", ⟨1, 1⟩, 0, 1⟩ (bracketedTokens.drop 1) =
      .ok (bracketedAttribute, bracketedTokens.drop 7) from rfl) hA
  have hnames := readNames_last rfl (readName_of_attributes (by decide) hB) rfl
  have hpass : Goal.pass [.type] (bracketedTokens.drop 7) = .ok (bracketedTokens.drop 8) :=
    pass_of_step rfl (pass_of_step rfl (pass_of_step rfl (pass_of_step rfl pass_nil)))
  have hblock := readBlock_of_parts ha rfl (readType_of_pass hpass) rfl rfl hnames rfl rfl
  exact readSource_of_readBlocks sourceTokens_bracketed
    (readBlocks_of_readBlock hblock readBlocks_nil)

/-- The brackets in the string and in the comment close nothing. -/
theorem verbatim_of_readSource_bracketed :
    ∃ blocks, readSource bracketedSource = .ok blocks ∧
      ∃ block ∈ blocks, bracketedAttribute ∈ block.attributes ∧
        (∃ ts run, sourceTokens bracketedSource = .ok ts ∧ run <:+: ts ∧
          bracketedAttribute.StandsAs bracketedSource.toList run) ∧
        bracketedAttribute.IsSelfContained :=
  ⟨_, readSource_bracketed, _, List.mem_cons_self, List.mem_cons_self,
    verbatim_of_readSource readSource_bracketed List.mem_cons_self (.inl List.mem_cons_self)⟩

end Microtypes
