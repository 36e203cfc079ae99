import Microtypes.Proofs.Grammar.TypeCompleteness
import Microtypes.Proofs.Grammar.TypeSimulation
import Microtypes.Proofs.Grammar.TypeSoundness
import Microtypes.Proofs.Token.Legibility

/-!
# Normalised types

The text of a type is the spelling of the tokens it was read from. It is read back as the same
tokens, and then as the same text, unless two neighbours among them run together.
-/

namespace Microtypes

open Microtypes.Symbol
open Lexeme (punct ident)

/-- Whether a text is cut into these lexemes. -/
def ReadsBack (text : String) (ts : List Lexeme) : Prop :=
  ∃ again, sourceTokens text = .ok again ∧ lexemes again = ts

/-- Whether a text is that of the type which it reads as. -/
def IsNormal (text : String) : Prop :=
  ∃ again type, sourceTokens text = .ok again ∧ readWholeType again = .ok type ∧ type.text = text

variable {text source : String} {all ahead rest : List Token} {ts : List Lexeme}
  {type : WrittenType}

theorem readsBack_iff : ReadsBack text ts ↔ lexed text.toList = .ok ts := by
  constructor
  · rintro ⟨again, hagain, rfl⟩
    obtain ⟨pieces, hsegments, hlex⟩ := lexemes_of_tokens (tokens_of_sourceTokens hagain)
    rw [lexed, hsegments, hlex]
    rfl
  · intro h
    obtain ⟨pieces, hsegments, rfl⟩ := map_eq_ok_iff.mp h
    exact ⟨_, sourceTokens_of_segments hsegments, lexemes_place ..⟩

theorem readType_of_readWholeType (h : readWholeType ahead = .ok type) :
    readType ahead = .ok (type, []) := by
  unfold readWholeType at h
  split at h
  · cases h
  · next hread => cases h; exact hread
  · cases h

/-- Tokens that derive from the grammar as a type are read as one complete type. -/
theorem readWholeType_of_derives (hp : ∀ t ∈ lexemes ahead, t.Proper)
    (h : Derives .type (lexemes ahead)) :
    ∃ type, readWholeType ahead = .ok type ∧ type.text = spelling (lexemes ahead) := by
  have haccepts : Accepts [goal .type] (lexemes ahead) := by
    have hreads := reads_of_derives h hp [] [] .nil (accepts_nil.mpr (by simp))
    rwa [List.append_nil] at hreads
  have htracks := @tracks_readType [] _ hp
  cases hread : readType ahead with
  | error fault =>
    rw [hread] at htracks
    exact absurd haccepts htracks.rejects
  | ok result =>
    obtain ⟨type, rest⟩ := result
    rw [hread] at htracks
    -- Nothing is expected behind the type, and so nothing is left.
    obtain ⟨-, -, -, hiff⟩ := htracks
    cases rest with
    | nil =>
      obtain ⟨ts, hsplit, -, htext⟩ := derives_of_readType hp hread
      refine ⟨type, by rw [readWholeType, hread], ?_⟩
      rw [htext, hsplit]
      simp [lexemes]
    | cons next rest =>
      obtain ⟨L, hfeed, -⟩ := accepts_cons.mp (hiff.mp haccepts)
      rw [feed_nil] at hfeed
      cases hfeed

/-- The text of a type is read back as the tokens it was read from if and only if no two of them run
together, and then it is the text of the type that it reads as. -/
theorem readsBack_of_readType (hall : sourceTokens source = .ok all) (hfrom : ahead ⊆ all)
    (h : readType ahead = .ok (type, rest)) :
    ∃ consumed, lexemes ahead = consumed ++ lexemes rest ∧
      (ReadsBack type.text consumed ↔ Legible consumed) ∧
      (Legible consumed → IsNormal type.text) := by
  have hshaped : ∀ t ∈ lexemes ahead, t.Shaped := fun t ht =>
    shaped_of_tokens (tokens_of_sourceTokens hall) (List.map_subset _ hfrom ht)
  obtain ⟨consumed, hsplit, hderives, htext⟩ :=
    derives_of_readType (fun t ht => (hshaped t ht).proper) h
  have hconsumed : ∀ t ∈ consumed, t.Shaped := fun t ht =>
    hshaped t (by rw [hsplit]; exact List.mem_append_left _ ht)
  have hiff : ReadsBack type.text consumed ↔ Legible consumed := by
    rw [readsBack_iff, htext, lexed_spelling_iff hconsumed]
  refine ⟨consumed, hsplit, hiff, fun hlegible => ?_⟩
  obtain ⟨again, hagain, rfl⟩ := hiff.mpr hlegible
  obtain ⟨same, hread, hsame⟩ := readWholeType_of_derives (proper_of_sourceTokens hagain) hderives
  exact ⟨again, same, hagain, hread, hsame.trans htext.symm⟩

theorem readsBack_of_readType_generic :
    ∃ all type, sourceTokens "Vec < u8 >" = .ok all ∧ all ⊆ all ∧
      readType all = .ok (type, []) ∧ type.text = "Vec<u8>" ∧
      ReadsBack "Vec<u8>" (lexemes all) ∧ IsNormal "Vec<u8>" := by
  have hsegments : segments "Vec < u8 >".toList = .ok
      [⟨some .ident, "Vec".toList⟩, ⟨none, [' ']⟩, ⟨some .punct, ['<']⟩, ⟨none, [' ']⟩,
        ⟨some .ident, "u8".toList⟩, ⟨none, [' ']⟩, ⟨some .punct, ['>']⟩] := by
    refine segments_cons _ 2 rfl (segments_cons _ 0 rfl (segments_cons _ 0 rfl ?_))
    refine segments_cons _ 0 rfl (segments_cons _ 1 rfl (segments_cons _ 0 rfl ?_))
    exact segments_cons _ 0 rfl segments_nil
  have hall := sourceTokens_of_segments hsegments
  have hread : readType (place 0 .start [⟨some .ident, "Vec".toList⟩, ⟨none, [' ']⟩,
      ⟨some .punct, ['<']⟩, ⟨none, [' ']⟩, ⟨some .ident, "u8".toList⟩, ⟨none, [' ']⟩,
      ⟨some .punct, ['>']⟩]) = .ok (⟨"Vec<u8>", ⟨1, 1⟩⟩, []) := by
    have hinner : Goal.pass [.type, .argumentRest, .pathRest]
        [⟨ident "u8", ⟨1, 7⟩, 6, 8⟩, ⟨punct ">", ⟨1, 10⟩, 9, 10⟩] = .ok [] :=
      pass_of_step rfl (pass_of_step rfl (pass_of_step rfl (pass_of_step rfl
        (pass_of_step rfl (pass_of_step rfl pass_nil)))))
    have hpass : Goal.pass [.type] [⟨ident "Vec", ⟨1, 1⟩, 0, 3⟩, ⟨punct "<", ⟨1, 5⟩, 4, 5⟩,
        ⟨ident "u8", ⟨1, 7⟩, 6, 8⟩, ⟨punct ">", ⟨1, 10⟩, 9, 10⟩] = .ok [] :=
      pass_of_step rfl (pass_of_step rfl (pass_of_step rfl (pass_of_step rfl
        (pass_of_step rfl hinner))))
    have hplace : place 0 .start [⟨some .ident, "Vec".toList⟩, ⟨none, [' ']⟩,
        ⟨some .punct, ['<']⟩, ⟨none, [' ']⟩, ⟨some .ident, "u8".toList⟩, ⟨none, [' ']⟩,
        ⟨some .punct, ['>']⟩] = [⟨ident "Vec", ⟨1, 1⟩, 0, 3⟩, ⟨punct "<", ⟨1, 5⟩, 4, 5⟩,
        ⟨ident "u8", ⟨1, 7⟩, 6, 8⟩, ⟨punct ">", ⟨1, 10⟩, 9, 10⟩] := rfl
    rw [hplace, readType, hpass]
    rfl
  obtain ⟨consumed, hsplit, hiff, hnormal⟩ :=
    readsBack_of_readType hall (List.Subset.refl _) hread
  rw [lexemes, lexemes, List.map_nil, List.append_nil] at hsplit
  subst hsplit
  have hlegible : Legible [ident "Vec", punct "<", ident "u8", punct ">"] := by
    simp [Legible, merges, fusingMarks, ident, punct]
  exact ⟨_, _, hall, List.Subset.refl _, hread, rfl, hiff.mpr hlegible, hnormal hlegible⟩

/-- A colon before a path from the root is lost in the length of an array: `:` and `::` are written
out as `:::`. -/
theorem readsBack_fails_colon :
    ∃ all type, sourceTokens "[A; \x7blet n: ::B = 4; n\x7d]" = .ok all ∧
      readType all = .ok (type, []) ∧ type.text = "[A; \x7b let n :::B = 4; n \x7d]" ∧
      ¬ ReadsBack type.text (lexemes all) := by
  have hsegments : segments "[A; \x7blet n: ::B = 4; n\x7d]".toList = .ok
      [⟨some .punct, ['[']⟩, ⟨some .ident, ['A']⟩, ⟨some .punct, [';']⟩, ⟨none, [' ']⟩,
        ⟨some .punct, "\x7b".toList⟩, ⟨some .ident, "let".toList⟩, ⟨none, [' ']⟩,
        ⟨some .ident, ['n']⟩, ⟨some .punct, [':']⟩, ⟨none, [' ']⟩, ⟨some .punct, "::".toList⟩,
        ⟨some .ident, ['B']⟩, ⟨none, [' ']⟩, ⟨some .punct, ['=']⟩, ⟨none, [' ']⟩,
        ⟨some .literal, ['4']⟩, ⟨some .punct, [';']⟩, ⟨none, [' ']⟩, ⟨some .ident, ['n']⟩,
        ⟨some .punct, "\x7d".toList⟩, ⟨some .punct, [']']⟩] := by
    refine segments_cons _ 0 rfl (segments_cons _ 0 rfl (segments_cons _ 0 rfl ?_))
    refine segments_cons _ 0 rfl (segments_cons _ 0 rfl (segments_cons _ 2 rfl ?_))
    refine segments_cons _ 0 rfl (segments_cons _ 0 rfl (segments_cons _ 0 rfl ?_))
    refine segments_cons _ 0 rfl (segments_cons _ 1 rfl (segments_cons _ 0 rfl ?_))
    refine segments_cons _ 0 rfl (segments_cons _ 0 rfl (segments_cons _ 0 rfl ?_))
    refine segments_cons _ 0 rfl (segments_cons _ 0 rfl (segments_cons _ 0 rfl ?_))
    exact segments_cons _ 0 rfl (segments_cons _ 0 rfl (segments_cons _ 0 rfl segments_nil))
  have hall := sourceTokens_of_segments hsegments
  have hlength : IsValue [punct "\x7b", ident "let", ident "n", punct ":", punct "::", ident "B",
      punct "=", ⟨.literal, "4"⟩, punct ";", ident "n", punct "\x7d"] := by
    have hinside : Balanced [ident "let", ident "n", punct ":", punct "::", ident "B", punct "=",
        ⟨.literal, "4"⟩, punct ";", ident "n"] :=
      .plain rfl rfl (.plain rfl rfl (.plain rfl rfl (.plain rfl rfl (.plain rfl rfl
        (.plain rfl rfl (.plain rfl rfl (.plain rfl rfl (.plain rfl rfl .nil))))))))
    exact ⟨.group .curly hinside .nil, by simp⟩
  have helement : Derives .type [ident "A"] := by
    have hword : Derives .segment [ident "A"] := .word rfl (by decide)
    have hpath : Derives .path [ident "A"] :=
      @Derives.path false [[ident "A"]] (by simp) (by simpa using hword)
    exact .named hpath (by decide)
  obtain ⟨type, hwhole, htext⟩ :=
    readWholeType_of_derives (proper_of_sourceTokens hall) (.array helement hlength)
  have hread := readType_of_readWholeType hwhole
  refine ⟨_, type, hall, hread, htext, fun hback => ?_⟩
  rw [readsBack_iff, htext] at hback
  have hlegible := (lexed_spelling_iff fun t ht =>
    shaped_of_tokens (tokens_of_sourceTokens hall) ht).mp hback
  revert hlegible
  simp [Legible, merges, fusingMarks, lexemes, place]

end Microtypes
