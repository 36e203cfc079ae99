import Microtypes.Proofs.OneLine

/-!
# Declared names in Rust

A declared name is an identifier of Rust in every edition, up to two gaps. Five words are no
identifiers even behind a raw mark; they are declared with one all the same, and where one of them
is refused, the message asks for just that. And a word that only the latest edition keeps for itself
is declared as it stands (`legalIdent_iff_of_readSource`).
-/

namespace Microtypes

open Lexeme (punct ident)

variable {name source word : String} {blocks : List Declaration} {location : Location}

/-! ## Identifiers of Rust -/

/-- The editions of Rust. -/
inductive Edition where
  | rust2015
  | rust2018
  | rust2021
  | rust2024
deriving DecidableEq, Repr

/-- The keywords of every edition, those in use and those kept for later. -/
def commonKeywords : List String :=
  ["_", "as", "break", "const", "continue", "crate", "else", "enum", "extern", "false", "fn", "for",
    "if", "impl", "in", "let", "loop", "match", "mod", "move", "mut", "pub", "ref", "return",
    "self", "Self", "static", "struct", "super", "trait", "true", "type", "unsafe", "use", "where",
    "while", "abstract", "become", "box", "do", "final", "macro", "override", "priv", "typeof",
    "unsized", "virtual", "yield"]

/-- The keywords that came with the second edition. -/
def laterKeywords : List String := ["async", "await", "dyn", "try"]

/-- The keywords of an edition. -/
def Edition.keywords : Edition → List String
  | .rust2015 => commonKeywords
  | .rust2018 | .rust2021 => commonKeywords ++ laterKeywords
  | .rust2024 => commonKeywords ++ laterKeywords ++ ["gen"]

/-- The words that are no identifiers even behind a raw mark. -/
def unrawableWords : List String := ["_", "crate", "self", "super", "Self"]

/-- Whether a text is an identifier of Rust in an edition. -/
inductive LegalIdent (edition : Edition) : String → Prop
  | plain {name : String} (hname : IsPlainIdent name.toList) (hword : name ∉ edition.keywords) :
      LegalIdent edition name
  | raw {name : String} (hname : IsPlainIdent name.toList) (hword : name ∉ unrawableWords) :
      LegalIdent edition ("r#" ++ name)

/-- The keywords of an edition are refused as names, but for the latest one. -/
theorem reserved_of_mem_keywords : ∀ edition : Edition, ∀ word ∈ edition.keywords,
    word ∈ reservedWords ∨ edition = .rust2024 ∧ word = "gen" := by
  intro edition
  cases edition <;> decide

theorem toList_rawMark (name : String) : ("r#" ++ name).toList = 'r' :: '#' :: name.toList := by
  rw [String.toList_append]
  rfl

/-- Behind a raw mark there is no plain identifier. -/
theorem not_isPlainIdent_rawMark (name : String) : ¬ IsPlainIdent ("r#" ++ name).toList := by
  intro h
  rw [toList_rawMark] at h
  have hmark : isIdentRest '#' = true := h.rest '#' (by simp)
  cases hmark

/-- A raw identifier is legal by the word behind its mark. -/
theorem legalIdent_rawMark_iff {edition : Edition} (h : IsPlainIdent name.toList) :
    LegalIdent edition ("r#" ++ name) ↔ name ∉ unrawableWords := by
  constructor
  · generalize hraw : "r#" ++ name = text
    rintro (⟨hplain, -⟩ | @⟨word, -, hword⟩)
    · rw [← hraw] at hplain
      exact absurd hplain (not_isPlainIdent_rawMark name)
    · rw [String.append_right_inj] at hraw
      rwa [hraw]
  · exact .raw h

/-- A plain identifier is legal unless it is a keyword. -/
theorem legalIdent_plain_iff {edition : Edition} (h : IsPlainIdent name.toList) :
    LegalIdent edition name ↔ name ∉ edition.keywords := by
  constructor
  · rintro (⟨-, hword⟩ | -)
    · exact hword
    · exact absurd h (not_isPlainIdent_rawMark _)
  · exact .plain h

/-! ## Declared names -/

/-- A name that can be declared is legal but for the two gaps. -/
theorem legalIdent_iff_of_isDeclarable (h : IsDeclarable name) (edition : Edition) :
    LegalIdent edition name ↔ name ∉ unrawableWords.map ("r#" ++ ·) ∧
      ¬ (edition = .rust2024 ∧ name = "gen") := by
  -- A raw name can only fall into the first gap, and a plain one into the second.
  obtain ⟨raw, plain, hplain, htext⟩ := h.form
  rw [← String.toList_ofList (l := plain)] at hplain htext
  generalize String.ofList plain = word at hplain htext
  cases raw with
  | false =>
    obtain rfl : name = word := String.toList_inj.mp htext
    have hraw : name ∉ unrawableWords.map ("r#" ++ ·) := by
      rw [List.mem_map]
      rintro ⟨word, -, rfl⟩
      exact not_isPlainIdent_rawMark word hplain
    rw [legalIdent_plain_iff hplain, and_iff_right hraw]
    refine not_congr ⟨fun hmem => ?_, ?_⟩
    · exact (reserved_of_mem_keywords edition name hmem).resolve_left h.unreserved
    · rintro ⟨rfl, rfl⟩
      decide
  | true =>
    obtain rfl : name = "r#" ++ word := by
      rw [← String.toList_inj, toList_rawMark]
      exact htext
    have hgen : ¬ (edition = .rust2024 ∧ "r#" ++ word = "gen") := by
      rintro ⟨-, heq⟩
      have hchars := congrArg String.toList heq
      rw [toList_rawMark] at hchars
      cases hchars
    rw [legalIdent_rawMark_iff hplain, and_iff_left hgen, List.mem_map]
    simp only [String.append_right_inj, exists_eq_right]

/-- Every reserved word is an identifier, as far as its characters go. -/
theorem isPlainIdent_of_reserved (h : word ∈ reservedWords) : IsPlainIdent word.toList := by
  have hall : (reservedWords.all fun word =>
      startsIdent word.toList && word.toList.all isIdentRest) = true := by decide +kernel
  have hword := List.all_eq_true.mp hall word h
  rw [Bool.and_eq_true, List.all_eq_true] at hword
  exact ⟨hword.1, hword.2⟩

/-- What a source refuses as a keyword is a reserved word. -/
theorem reserved_of_readSource
    (h : readSource source = .error (.of (.grammatical (.keyword word)) location)) :
    word ∈ reservedWords := by
  cases hts : sourceTokens source with
  | error stop =>
    rw [readSource, hts] at h
    cases h
    obtain ⟨cause, hlexical⟩ := lexical_of_sourceTokens hts
    cases hlexical
  | ok ts =>
    obtain ⟨fault, hread, hstop⟩ := tokens_of_readSource_error hts h
    have hcause := congrArg Problem.cause (Stop.problem.inj hstop)
    exact (cites_readBlocks hread).keyword word (Cause.grammatical.inj hcause).symm

theorem message_keyword (word : String) : (SyntaxCause.keyword word).message =
    "`" ++ word ++ "` is a reserved keyword; use `" ++ ("r#" ++ word) ++ "`" := by
  have hmark : "` is a reserved keyword; use `r#" = "` is a reserved keyword; use `" ++ "r#" := rfl
  show "`" ++ word ++ ("`" ++ " is a reserved keyword; use `r#") ++ word ++ "`" = _
  simp only [String.append_assoc, String.reduceAppend]
  rw [hmark, String.append_assoc]

/-- A declared name is legal in Rust exactly if it is none of five words behind a raw mark and, in
the latest edition, not the new keyword of that edition. Where a name is refused as a keyword, the
name that the message proposes is legal exactly if the refused one is none of the five words. -/
theorem legalIdent_iff_of_readSource (source : String) :
    (∀ blocks, readSource source = .ok blocks →
      ∀ block ∈ blocks, ∀ decl ∈ block.names, ∀ edition : Edition,
        LegalIdent edition decl.name ↔ decl.name ∉ unrawableWords.map ("r#" ++ ·) ∧
          ¬ (edition = .rust2024 ∧ decl.name = "gen")) ∧
      ∀ word location,
        readSource source = .error (.of (.grammatical (.keyword word)) location) →
        ∃ proposal, (SyntaxCause.keyword word).message =
            "`" ++ word ++ "` is a reserved keyword; use `" ++ proposal ++ "`" ∧
          ∀ edition : Edition, LegalIdent edition proposal ↔ word ∉ unrawableWords := by
  constructor
  · intro blocks h block hblock decl hdecl edition
    exact legalIdent_iff_of_isDeclarable (isDeclarable_of_readSource h hblock hdecl) edition
  · intro word location h
    refine ⟨"r#" ++ word, message_keyword word, fun edition => ?_⟩
    exact legalIdent_rawMark_iff (isPlainIdent_of_reserved (reserved_of_readSource h))

/-! ## Sole names -/

/-- The tokens of a block `A` with the only name `x`. -/
def soleTokens (x : String) : List Token :=
  [⟨ident "A", ⟨1, 1⟩, 0, 1⟩, ⟨punct "\x7b", ⟨1, 2⟩, 1, 2⟩,
    ⟨ident x, ⟨1, 3⟩, 2, 2 + x.length⟩,
    ⟨punct "\x7d", ⟨1, 3 + x.length⟩, 2 + x.length, 3 + x.length⟩]

section Sole

variable {chars : List Char} {x : String} {cause : SyntaxCause}

theorem readAttributes_soleTokens (chars : List Char) (x : String) :
    readAttributes chars (soleTokens x) = .ok ([], soleTokens x) :=
  readAttributes_of_other (show TokenKind.ident ≠ .doc by decide) rfl

theorem readAttributes_soleName (chars : List Char) (x : String) :
    readAttributes chars ((soleTokens x).drop 2) = .ok ([], (soleTokens x).drop 2) :=
  readAttributes_of_other (show TokenKind.ident ≠ .doc by decide) rfl

theorem pass_soleTokens (x : String) :
    Goal.pass [.type] (soleTokens x) = .ok ((soleTokens x).drop 1) :=
  pass_of_step rfl (pass_of_step rfl (pass_of_step rfl (pass_of_step rfl pass_nil)))

/-- A name that can be declared makes a block. -/
theorem readBlocks_sole (hclose : startsWith ((soleTokens x).drop 2) Delimiter.curly.closer = false)
    (hname : nameFault? (ident x) = none) :
    readBlocks chars (soleTokens x) = .ok [⟨[], ⟨"A", ⟨1, 1⟩⟩, "", [⟨x, [], ⟨1, 3⟩⟩]⟩] := by
  have hread := readName_of_attributes hname (readAttributes_soleName chars x)
  have hblock := readBlock_of_parts (readAttributes_soleTokens chars x) rfl
    (readType_of_pass (pass_soleTokens x)) rfl rfl (readNames_last hclose hread rfl) rfl rfl
  exact readBlocks_of_readBlock hblock readBlocks_nil

/-- A name that cannot be declared is refused at its place. -/
theorem readBlocks_sole_fault
    (hclose : startsWith ((soleTokens x).drop 2) Delimiter.curly.closer = false)
    (hname : nameFault? (ident x) = some cause) :
    readBlocks chars (soleTokens x) = .error ⟨cause, (soleTokens x).drop 2⟩ := by
  have hread : readName chars ((soleTokens x).drop 2) = .error ⟨cause, (soleTokens x).drop 2⟩ := by
    rw [readName, readAttributes_soleName]
    simp only [soleTokens, List.drop_succ_cons, List.drop_zero, hname]
  have hnames : readNames chars ((soleTokens x).drop 2) =
      .error ⟨cause, (soleTokens x).drop 2⟩ := by
    rw [readNames, hclose, if_neg Bool.false_ne_true]
    split
    · next hfault =>
      rw [hread] at hfault
      cases hfault
      rfl
    · next hok =>
      rw [hread] at hok
      cases hok
  have hvisibility : readVisibility (soleTokens x) = .ok ("", soleTokens x) := rfl
  obtain ⟨inner, htype⟩ : ∃ inner, readType (soleTokens x) = .ok (inner, (soleTokens x).drop 1) :=
    ⟨_, readType_of_pass (pass_soleTokens x)⟩
  have hopener : readWord Delimiter.curly.opener "`\x7b` after the inner type"
      ((soleTokens x).drop 1) = .ok (_, (soleTokens x).drop 2) := readWord_cons rfl
  have hblock : readBlock chars (soleTokens x) = .error ⟨cause, (soleTokens x).drop 2⟩ := by
    simp only [readBlock, bind, Except.bind, readAttributes_soleTokens, hvisibility, htype, hopener,
      hnames]
  rw [soleTokens, readBlocks_cons, ← soleTokens, hblock]

theorem readSource_sole_fault (htokens : sourceTokens source = .ok (soleTokens x))
    (hclose : startsWith ((soleTokens x).drop 2) Delimiter.curly.closer = false)
    (hname : nameFault? (ident x) = some cause) :
    readSource source = .error (.of (.grammatical cause) ⟨1, 3⟩) := by
  rw [readSource, htokens]
  simp only [bind, Except.bind, readBlocks_sole_fault hclose hname]
  rfl

end Sole

/-- The names `r#B` and `B` are legal, and so is the one that the message about `fn` proposes. -/
theorem legalIdent_iff_of_readSource_fn :
    (readSource "A\x7br#B,B\x7d" = .ok [rawBlock] ∧ ∀ decl ∈ rawBlock.names,
      LegalIdent .rust2024 decl.name) ∧
    readSource "A\x7bfn\x7d" = .error (.of (.grammatical (.keyword "fn")) ⟨1, 3⟩) ∧
      ∃ proposal, (SyntaxCause.keyword "fn").message =
          "`fn` is a reserved keyword; use `" ++ proposal ++ "`" ∧
        LegalIdent .rust2024 proposal := by
  have hsegments : segments "A\x7bfn\x7d".toList = .ok
      [⟨some .ident, ['A']⟩, ⟨some .punct, "\x7b".toList⟩, ⟨some .ident, "fn".toList⟩,
        ⟨some .punct, "\x7d".toList⟩] :=
    segments_cons _ 0 rfl (segments_cons _ 0 rfl (segments_cons _ 1 rfl
      (segments_cons _ 0 rfl segments_nil)))
  have hrefused : readSource "A\x7bfn\x7d" = .error (.of (.grammatical (.keyword "fn")) ⟨1, 3⟩) :=
    readSource_sole_fault (sourceTokens_of_segments hsegments) rfl rfl
  refine ⟨⟨readSource_raw, fun decl hdecl => ?_⟩, hrefused, ?_⟩
  · refine ((legalIdent_iff_of_readSource _).1 _ readSource_raw rawBlock List.mem_cons_self decl
      hdecl _).mpr ?_
    revert decl
    decide
  · obtain ⟨proposal, hmessage, hlegal⟩ := (legalIdent_iff_of_readSource _).2 _ _ hrefused
    exact ⟨proposal, hmessage, (hlegal _).mpr (by decide)⟩

/-- The word `self` is no identifier behind a raw mark. It is declared with one, and where it is
refused without, the message proposes just that. -/
theorem legalIdent_fails_self :
    (∃ block, readSource "A\x7br#self\x7d" = .ok [block] ∧
      ∃ decl ∈ block.names, ∀ edition, ¬ LegalIdent edition decl.name) ∧
    readSource "A\x7bself\x7d" = .error (.of (.grammatical (.keyword "self")) ⟨1, 3⟩) ∧
      ∃ proposal, (SyntaxCause.keyword "self").message =
          "`self` is a reserved keyword; use `" ++ proposal ++ "`" ∧
        ∀ edition, ¬ LegalIdent edition proposal := by
  have hillegal (edition : Edition) : ¬ LegalIdent edition ("r#" ++ "self") := by
    rw [legalIdent_rawMark_iff (isPlainIdent_of_reserved (by decide))]
    decide
  have hraw : segments "A\x7br#self\x7d".toList = .ok
      [⟨some .ident, ['A']⟩, ⟨some .punct, "\x7b".toList⟩, ⟨some .ident, "r#self".toList⟩,
        ⟨some .punct, "\x7d".toList⟩] :=
    segments_cons _ 0 rfl (segments_cons _ 0 rfl (segments_cons _ 5 rfl
      (segments_cons _ 0 rfl segments_nil)))
  have hplain : segments "A\x7bself\x7d".toList = .ok
      [⟨some .ident, ['A']⟩, ⟨some .punct, "\x7b".toList⟩, ⟨some .ident, "self".toList⟩,
        ⟨some .punct, "\x7d".toList⟩] :=
    segments_cons _ 0 rfl (segments_cons _ 0 rfl (segments_cons _ 3 rfl
      (segments_cons _ 0 rfl segments_nil)))
  have hdeclared := readSource_of_readBlocks (sourceTokens_of_segments hraw)
    (@readBlocks_sole _ "r#self" rfl rfl)
  have hrefused : readSource "A\x7bself\x7d" =
      .error (.of (.grammatical (.keyword "self")) ⟨1, 3⟩) :=
    readSource_sole_fault (sourceTokens_of_segments hplain) rfl rfl
  exact ⟨⟨_, hdeclared, _, List.mem_cons_self, hillegal⟩, hrefused, "r#self",
    message_keyword "self", hillegal⟩

end Microtypes
