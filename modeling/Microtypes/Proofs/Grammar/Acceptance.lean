import Microtypes.Proofs.Grammar.Completeness
import Microtypes.Proofs.Grammar.Simulation
import Microtypes.Proofs.Grammar.Soundness

/-!
# The language that is read

A source is read exactly if its tokens are derived from the grammar in such a way that no `pub` by
itself stands before what looks like its restriction; and then the blocks that are read are those
of a derivation, so that no token is lost.
-/

namespace Microtypes

open Microtypes.Symbol Move
open Lexeme (punct ident)

variable {source : String} {ts : List Token}

theorem readBlocks_of_readSource {blocks : List Declaration} (h : readSource source = .ok blocks) :
    ∃ ts, sourceTokens source = .ok ts ∧ readBlocks source.toList ts = .ok blocks := by
  obtain ⟨ts, hts, hread⟩ := bind_eq_ok_iff.mp h
  exact ⟨ts, hts, mapError_eq_ok_iff.mp hread⟩

theorem readSource_of_readBlocks {blocks : List Declaration} (hts : sourceTokens source = .ok ts)
    (h : readBlocks source.toList ts = .ok blocks) : readSource source = .ok blocks := by
  unfold readSource
  rw [hts]
  simp only [bind, Except.bind, h]
  rfl

/-- The reader accepts what the grammar derives with settled visibilities, and what it returns is
such a derivation of all tokens. -/
theorem readSource_iff_derived (source : String) :
    ((∃ blocks, readSource source = .ok blocks) ↔
      ∃ ts trees, sourceTokens source = .ok ts ∧ DerivedAs trees (lexemes ts) ∧
        ∀ b ∈ trees, b.Settled) ∧
    ∀ blocks, readSource source = .ok blocks →
      ∃ ts trees, sourceTokens source = .ok ts ∧ DerivedAs trees (lexemes ts) ∧
        (∀ b ∈ trees, b.Settled) ∧ List.Forall₂ BlockTree.Matches trees blocks := by
  have hsound : ∀ blocks, readSource source = .ok blocks →
      ∃ ts trees, sourceTokens source = .ok ts ∧ DerivedAs trees (lexemes ts) ∧
        (∀ b ∈ trees, b.Settled) ∧ List.Forall₂ BlockTree.Matches trees blocks := by
    intro blocks h
    obtain ⟨ts, hts, hread⟩ := readBlocks_of_readSource h
    obtain ⟨trees, hderived, hsettled, hmatches⟩ :=
      trees_of_readBlocks (proper_of_sourceTokens hts) hread
    exact ⟨ts, trees, hts, hderived, hsettled, hmatches⟩
  refine ⟨⟨?_, ?_⟩, hsound⟩
  · rintro ⟨blocks, h⟩
    obtain ⟨ts, trees, hts, hderived, hsettled, -⟩ := hsound blocks h
    exact ⟨ts, trees, hts, hderived, hsettled⟩
  · rintro ⟨ts, trees, hts, hderived, hsettled⟩
    have hp := proper_of_sourceTokens hts
    have haccepts := accepts_of_derivedAs hderived hsettled hp
    obtain ⟨blocks, hread⟩ := (@readBlocks_ok_iff _ source.toList hp).mpr haccepts
    exact ⟨blocks, readSource_of_readBlocks hts hread⟩

/-- The grammar derives `pub` before the tuple type `(crate)`, which the reader takes for a
restriction. -/
theorem readSource_refuses_derived :
    ∃ ts trees, sourceTokens "pub (crate) \x7b A \x7d" = .ok ts ∧ DerivedAs trees (lexemes ts) ∧
      ∀ blocks, readSource "pub (crate) \x7b A \x7d" ≠ .ok blocks := by
  have hsegments : segments "pub (crate) \x7b A \x7d".toList = .ok
      [⟨some .ident, "pub".toList⟩, ⟨none, [' ']⟩, ⟨some .punct, ['(']⟩,
        ⟨some .ident, "crate".toList⟩, ⟨some .punct, [')']⟩, ⟨none, [' ']⟩,
        ⟨some .punct, "\x7b".toList⟩, ⟨none, [' ']⟩, ⟨some .ident, ['A']⟩, ⟨none, [' ']⟩,
        ⟨some .punct, "\x7d".toList⟩] := by
    refine segments_cons _ 2 rfl (segments_cons _ 0 rfl (segments_cons _ 0 rfl ?_))
    refine segments_cons _ 4 rfl (segments_cons _ 0 rfl (segments_cons _ 0 rfl ?_))
    refine segments_cons _ 0 rfl (segments_cons _ 0 rfl (segments_cons _ 0 rfl ?_))
    exact segments_cons _ 0 rfl (segments_cons _ 0 rfl segments_nil)
  have hts := sourceTokens_of_segments hsegments
  have hlex : lexemes (place 0 .start [⟨some .ident, "pub".toList⟩, ⟨none, [' ']⟩,
        ⟨some .punct, ['(']⟩, ⟨some .ident, "crate".toList⟩, ⟨some .punct, [')']⟩, ⟨none, [' ']⟩,
        ⟨some .punct, "\x7b".toList⟩, ⟨none, [' ']⟩, ⟨some .ident, ['A']⟩, ⟨none, [' ']⟩,
        ⟨some .punct, "\x7d".toList⟩]) =
      [ident "pub", punct "(", ident "crate", punct ")", punct "\x7b", ident "A", punct "\x7d"] :=
    rfl
  refine ⟨_, [⟨[], .plain, [punct "(", ident "crate", punct ")"], [⟨[], ident "A"⟩], false⟩], hts,
    ⟨?_, ?_⟩, ?_⟩
  · have hword : Derives .segment [ident "crate"] := .word rfl (by decide)
    have hpath : Derives .path [ident "crate"] :=
      @Derives.path false [[ident "crate"]] (by simp) (by simpa using hword)
    have hcrate : Derives .type [ident "crate"] := .named hpath (by decide)
    have htuple : Derives .type [punct "(", ident "crate", punct ")"] :=
      @Derives.tuple false [[ident "crate"]] (by simpa using hcrate)
    intro b hb
    rw [List.mem_singleton.mp hb]
    refine ⟨by rintro a ⟨⟩, trivial, htuple, ?_⟩
    intro n hn
    rw [List.mem_singleton.mp hn]
    exact ⟨by rintro a ⟨⟩, rfl, by decide, by decide⟩
  · rw [hlex]
    rfl
  · intro decls h
    obtain ⟨ts, hts', hread⟩ := readBlocks_of_readSource h
    cases hts.symm.trans hts'
    have haccepts := (readBlocks_ok_iff (proper_of_sourceTokens hts)).mp ⟨decls, hread⟩
    rw [hlex] at haccepts
    -- The automaton is past the restriction and expects a type, where the names begin.
    have hbrace : Accepts [goal .type, opening] [punct "\x7b", ident "A", punct "\x7d"] := by
      have hblocks : predict blocks (ident "pub") = expand [attributes, declaredType, opening] :=
        rfl
      have hattributes : predict attributes (ident "pub") = expand [] := by decide
      have hpub : predict declaredType (ident "pub") = shift [restriction] := by decide
      have hround : predict restriction (punct "(") = shift [restrictionScope] := by decide
      have hscope : predict restrictionScope (ident "crate") = shift [scopeEnd] := by decide
      have hclose : predict scopeEnd (punct ")") = shift [goal .type] := by decide
      have htype := (accepts_of_expand hattributes).mp ((accepts_of_expand hblocks).mp haccepts)
      exact (accepts_of_shift hclose).mp ((accepts_of_shift hscope).mp
        ((accepts_of_shift hround).mp ((accepts_of_shift hpub).mp htype)))
    obtain ⟨t, rest, heq, hfeed⟩ := exists_of_accepts rfl hbrace
    cases heq
    rcases beginsType_of_feed hfeed with ⟨-, hmem⟩ | ⟨hk, -⟩
    · exact absurd hmem (by decide)
    · cases hk

end Microtypes
