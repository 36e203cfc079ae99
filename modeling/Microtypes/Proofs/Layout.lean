import Microtypes.Proofs.Likeness

/-!
# Layout does not matter

Two sources with the same lexemes differ in blanks, line ends and ordinary comments only. What is
read from them, and what is generated, is the same except for places and for the texts of
attributes, which are kept as they stand.
-/

namespace Microtypes

/-- The likeness of tokens that have the same lexeme. Places and texts may be any. -/
def sameLexeme (source source' : List Char) : Likeness source source' where
  token t t' := t.toLexeme = t'.toLexeme
  place _ _ := True
  text _ _ := True
  lexeme_eq h := h
  place_token _ := trivial
  place_later _ _ := trivial
  text_refl _ := trivial
  text_slice _ _ := trivial

theorem tokens_of_lexemes (source source' : List Char) {ts ts' : List Token}
    (h : lexemes ts = lexemes ts') : (sameLexeme source source').Tokens ts ts' := by
  rw [lexemes, lexemes, ← List.forall₂_eq_eq_eq] at h
  rw [List.forall₂_map_left_iff, List.forall₂_map_right_iff] at h
  exact h

/-- Whether two sources mean the same. -/
structure SameMeaning (s s' : String) : Prop where
  /-- The same blocks are read but for places and the texts of attributes, or the reading fails for
  the same cause. -/
  blocks : Agree (Stop.Alike (sameLexeme s.toList s'.toList))
    (List.Forall₂ (Declaration.Alike (sameLexeme s.toList s'.toList)))
    (readSource s) (readSource s')
  /-- Name by name, there is a wrapper with the same items but for the lines of the attributes that
  are passed on, or a diagnostic with the same message; or both expansions abort in the same way. -/
  results (features : Features) : Agree Eq (Expansion.Alike (sameLexeme s.toList s'.toList))
    (Expansion.ofSource s features) (Expansion.ofSource s' features)

/-- Sources with the same lexemes mean the same. -/
theorem sameMeaning_of_lexemes {s s' : String} {ts ts' : List Token} (hs : sourceTokens s = .ok ts)
    (hs' : sourceTokens s' = .ok ts') (h : lexemes ts = lexemes ts') : SameMeaning s s' where
  blocks := Likeness.read_source hs hs' (tokens_of_lexemes _ _ h) trivial
  results _ := Likeness.expansion_alike
    (Likeness.read_source hs hs' (tokens_of_lexemes _ _ h) trivial)

theorem sameMeaning_of_lexemes_spaced :
    ∃ ts ts', sourceTokens "#[x]A\x7bB\x7d" = .ok ts ∧
      sourceTokens "#[ x ]A\n\x7bB\x7d" = .ok ts' ∧ lexemes ts = lexemes ts' ∧
      SameMeaning "#[x]A\x7bB\x7d" "#[ x ]A\n\x7bB\x7d" := by
  have hdense : segments "#[x]A\x7bB\x7d".toList = .ok
      [⟨some .punct, ['#']⟩, ⟨some .punct, ['[']⟩, ⟨some .ident, ['x']⟩, ⟨some .punct, [']']⟩,
        ⟨some .ident, ['A']⟩, ⟨some .punct, "\x7b".toList⟩, ⟨some .ident, ['B']⟩,
        ⟨some .punct, "\x7d".toList⟩] := by
    refine segments_cons _ 0 rfl (segments_cons _ 0 rfl (segments_cons _ 0 rfl ?_))
    refine segments_cons _ 0 rfl (segments_cons _ 0 rfl (segments_cons _ 0 rfl ?_))
    exact segments_cons _ 0 rfl (segments_cons _ 0 rfl segments_nil)
  have hspaced : segments "#[ x ]A\n\x7bB\x7d".toList = .ok
      [⟨some .punct, ['#']⟩, ⟨some .punct, ['[']⟩, ⟨none, [' ']⟩, ⟨some .ident, ['x']⟩,
        ⟨none, [' ']⟩, ⟨some .punct, [']']⟩, ⟨some .ident, ['A']⟩, ⟨none, ['\n']⟩,
        ⟨some .punct, "\x7b".toList⟩, ⟨some .ident, ['B']⟩, ⟨some .punct, "\x7d".toList⟩] := by
    refine segments_cons _ 0 rfl (segments_cons _ 0 rfl (segments_cons _ 0 rfl ?_))
    refine segments_cons _ 0 rfl (segments_cons _ 0 rfl (segments_cons _ 0 rfl ?_))
    refine segments_cons _ 0 rfl (segments_cons _ 0 rfl (segments_cons _ 0 rfl ?_))
    exact segments_cons _ 0 rfl (segments_cons _ 0 rfl segments_nil)
  have hts := sourceTokens_of_segments hdense
  have hts' := sourceTokens_of_segments hspaced
  exact ⟨_, _, hts, hts', rfl, sameMeaning_of_lexemes hts hts' rfl⟩

end Microtypes
