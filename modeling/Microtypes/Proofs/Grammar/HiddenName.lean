import Microtypes.Proofs.Grammar.Reading
import Microtypes.Proofs.Grammar.Standing
import Microtypes.Rust.Wrapper

/-!
# Names of hidden wrappers

The name of a hidden wrapper begins with a stem that no declared name may begin with, and goes on
with the declared name without its raw mark. So it is never the name of anything that is declared,
and it is shared only by declarations of the same identifier (`hiddenNamesApart_of_readSource`).
-/

namespace Microtypes

open Lexeme (punct ident)

variable {s t : String} {name : List Char} {source : String} {blocks : List Declaration}

/-- Whether the characters are an identifier without a raw mark. -/
structure IsPlainIdent (name : List Char) : Prop where
  start : startsIdent name = true
  rest : ∀ c ∈ name, isIdentRest c = true

/-- Whether a name can be declared. -/
structure IsDeclarable (name : String) : Prop where
  /-- It is an identifier, perhaps with a raw mark. -/
  form : ∃ (raw : Bool) (plain : List Char), IsPlainIdent plain ∧
    name.toList = (if raw then ['r', '#'] else []) ++ plain
  unreserved : name ∉ reservedWords
  /-- It does not begin as the names of generated types do, whether or not it has a raw mark. -/
  stem : ¬ reservedStem.toList <+: withoutRawMark name.toList

/-- Whether two names are the same identifier, each with or without a raw mark. -/
def SameIdent (s t : String) : Prop :=
  ∃ plain, IsPlainIdent plain ∧ (s.toList = plain ∨ s.toList = 'r' :: '#' :: plain) ∧
    (t.toList = plain ∨ t.toList = 'r' :: '#' :: plain)

/-- Whether the name of the hidden wrapper for `s` keeps away from the name `t` and from the name of
the hidden wrapper for `t`. -/
structure HiddenApart (s t : String) : Prop where
  /-- It is an identifier without a raw mark. -/
  plain : IsPlainIdent (hiddenName s).toList
  unreserved : hiddenName s ∉ reservedWords
  ne : hiddenName s ≠ t
  ne_plain : (hiddenName s).toList ≠ withoutRawMark t.toList
  /-- It is shared by the same identifier only. -/
  shared : hiddenName s = hiddenName t ↔ SameIdent s t

/-! ## Raw marks -/

theorem withoutRawMark_raw (plain : List Char) : withoutRawMark ('r' :: '#' :: plain) = plain := rfl

theorem IsPlainIdent.withoutRawMark (h : IsPlainIdent name) : withoutRawMark name = name := by
  unfold Microtypes.withoutRawMark
  split
  · -- A number sign is no character of an identifier.
    have hmark : isIdentRest '#' = true := h.rest '#' (by simp)
    cases hmark
  · rfl

theorem IsDeclarable.withoutRawMark (h : IsDeclarable s) :
    ∃ plain, IsPlainIdent plain ∧ withoutRawMark s.toList = plain ∧
      (s.toList = plain ∨ s.toList = 'r' :: '#' :: plain) := by
  obtain ⟨raw, plain, hplain, htext⟩ := h.form
  cases raw with
  | false => exact ⟨plain, hplain, by rw [htext]; exact hplain.withoutRawMark, Or.inl htext⟩
  | true => exact ⟨plain, hplain, by rw [htext]; exact withoutRawMark_raw plain, Or.inr htext⟩

theorem withoutRawMark_of_sameIdent (h : SameIdent s t) :
    withoutRawMark s.toList = withoutRawMark t.toList := by
  obtain ⟨plain, hplain, hs, ht⟩ := h
  have hwithout {u : String} (hu : u.toList = plain ∨ u.toList = 'r' :: '#' :: plain) :
      withoutRawMark u.toList = plain := by
    rcases hu with hu | hu
    · rw [hu]
      exact hplain.withoutRawMark
    · rw [hu]
      exact withoutRawMark_raw plain
  rw [hwithout hs, hwithout ht]

theorem sameIdent_iff (hs : IsDeclarable s) (ht : IsDeclarable t) :
    SameIdent s t ↔ withoutRawMark s.toList = withoutRawMark t.toList := by
  constructor
  · exact withoutRawMark_of_sameIdent
  · intro heq
    obtain ⟨plain, hplain, hwithout, htext⟩ := hs.withoutRawMark
    obtain ⟨plain', -, hwithout', htext'⟩ := ht.withoutRawMark
    obtain rfl : plain = plain' := by rw [← hwithout, ← hwithout', heq]
    exact ⟨plain, hplain, htext, htext'⟩

/-! ## Hidden names -/

theorem toList_hiddenName (s : String) :
    (hiddenName s).toList = (reservedStem ++ "Secret").toList ++ withoutRawMark s.toList := by
  rw [hiddenName, String.toList_append, String.toList_ofList]

theorem stem_isPrefix_hiddenName (s : String) : reservedStem.toList <+: (hiddenName s).toList := by
  rw [toList_hiddenName, String.toList_append, List.append_assoc]
  exact List.prefix_append _ _

theorem hiddenName_inj :
    hiddenName s = hiddenName t ↔ withoutRawMark s.toList = withoutRawMark t.toList := by
  rw [← String.toList_inj, toList_hiddenName, toList_hiddenName, List.append_cancel_left_eq]

theorem isPlainIdent_hiddenName (h : IsDeclarable s) : IsPlainIdent (hiddenName s).toList := by
  obtain ⟨plain, hplain, hwithout, -⟩ := h.withoutRawMark
  rw [toList_hiddenName, hwithout]
  refine ⟨rfl, ?_⟩
  have hstem : ∀ c ∈ (reservedStem ++ "Secret").toList, isIdentRest c = true :=
    List.all_eq_true.mp (by decide +kernel)
  exact List.forall_mem_append.mpr ⟨hstem, hplain.rest⟩

/-- No word of the language begins with the stem. -/
theorem hiddenName_unreserved (s : String) : hiddenName s ∉ reservedWords := by
  have hall : ∀ word ∈ reservedWords, ¬ reservedStem.toList <+: word.toList := by
    decide +kernel
  intro hmem
  exact hall _ hmem (stem_isPrefix_hiddenName s)

theorem hiddenApart_of_isDeclarable (hs : IsDeclarable s) (ht : IsDeclarable t) :
    HiddenApart s t where
  plain := isPlainIdent_hiddenName hs
  unreserved := hiddenName_unreserved s
  ne := by
    rintro rfl
    apply ht.stem
    rw [(isPlainIdent_hiddenName hs).withoutRawMark]
    exact stem_isPrefix_hiddenName s
  ne_plain := by
    intro heq
    apply ht.stem
    rw [← heq]
    exact stem_isPrefix_hiddenName s
  shared := by
    rw [hiddenName_inj]
    exact (sameIdent_iff hs ht).symm

/-! ## Declared names -/

/-- An identifier is a plain one, perhaps behind a raw mark. -/
theorem form_of_identExtent (h : identExtent name = some name.length) :
    ∃ (raw : Bool) (plain : List Char), IsPlainIdent plain ∧
      name = (if raw then ['r', '#'] else []) ++ plain := by
  rcases identExtent_cases h with hall | ⟨plain, rfl, hstart⟩
  · exact ⟨false, name, ⟨startsIdent_of_identExtent h, hall⟩, rfl⟩
  · refine ⟨true, plain, ⟨hstart, all_of_runLength ?_⟩, rfl⟩
    rw [identExtent_raw, if_pos hstart] at h
    have hlength := Option.some.inj h
    simp only [List.length_cons] at hlength
    omega

/-- A token that is no wrong name can be declared. -/
theorem isDeclarable_of_nameFault {u : Lexeme} (hu : u.Shaped) (h : nameFault? u = none) :
    IsDeclarable u.text := by
  obtain ⟨hkind, hword, hstem⟩ := nameFault?_eq_none_iff.mp h
  rw [Lexeme.Shaped, hkind] at hu
  refine ⟨form_of_identExtent hu, hword, fun hstarts => ?_⟩
  rw [isReservedName, List.isPrefixOf_iff_prefix.mpr hstarts] at hstem
  cases hstem

theorem isDeclarable_of_readSource {block : Declaration} {decl : DeclaredName}
    (h : readSource source = .ok blocks) (hblock : block ∈ blocks) (hdecl : decl ∈ block.names) :
    IsDeclarable decl.name := by
  obtain ⟨ts, run, hts, hrun, hstand⟩ := exists_standsAs_of_mem_names h hblock hdecl
  cases hstand with
  | @mk _ _ u _ hname =>
    have hmem : u ∈ ts := hrun.subset (List.mem_append_right _ List.mem_cons_self)
    have hshaped : u.toLexeme.Shaped :=
      shaped_of_tokens (tokens_of_sourceTokens hts) (List.mem_map_of_mem hmem)
    exact isDeclarable_of_nameFault hshaped hname

theorem isDeclarable_of_mem_specsOf {spec : Spec} (h : readSource source = .ok blocks)
    (hspec : spec ∈ specsOf blocks) : IsDeclarable spec.name := by
  obtain ⟨block, hblock, hspec⟩ := List.mem_flatMap.mp hspec
  obtain ⟨decl, hdecl, rfl⟩ := List.mem_map.mp hspec
  exact isDeclarable_of_readSource h hblock hdecl

/-- Every name of a source that is read can be declared, and so the names of hidden wrappers keep
away from all of them and from each other. -/
theorem hiddenNamesApart_of_readSource (h : readSource source = .ok blocks) :
    (∀ block ∈ blocks, ∀ decl ∈ block.names, IsDeclarable decl.name) ∧
      ∀ s ∈ specsOf blocks, ∀ t ∈ specsOf blocks, HiddenApart s.name t.name := by
  constructor
  · intro block hblock decl hdecl
    exact isDeclarable_of_readSource h hblock hdecl
  · intro s hs t ht
    exact hiddenApart_of_isDeclarable (isDeclarable_of_mem_specsOf h hs)
      (isDeclarable_of_mem_specsOf h ht)

/-- The tokens of a block in which an identifier is declared with and without a raw mark. -/
def rawTokens : List Token :=
  [⟨ident "A", ⟨1, 1⟩, 0, 1⟩, ⟨punct "\x7b", ⟨1, 2⟩, 1, 2⟩, ⟨ident "r#B", ⟨1, 3⟩, 2, 5⟩,
    ⟨punct ",", ⟨1, 6⟩, 5, 6⟩, ⟨ident "B", ⟨1, 7⟩, 6, 7⟩, ⟨punct "\x7d", ⟨1, 8⟩, 7, 8⟩]

/-- The block that is read from them. -/
def rawBlock : Declaration :=
  ⟨[], ⟨"A", ⟨1, 1⟩⟩, "", [⟨"r#B", [], ⟨1, 3⟩⟩, ⟨"B", [], ⟨1, 7⟩⟩]⟩

theorem readSource_raw : readSource "A\x7br#B,B\x7d" = .ok [rawBlock] := by
  have hsegments : segments "A\x7br#B,B\x7d".toList = .ok
      [⟨some .ident, ['A']⟩, ⟨some .punct, "\x7b".toList⟩, ⟨some .ident, "r#B".toList⟩,
        ⟨some .punct, [',']⟩, ⟨some .ident, ['B']⟩, ⟨some .punct, "\x7d".toList⟩] := by
    refine segments_cons _ 0 rfl (segments_cons _ 0 rfl (segments_cons _ 2 rfl ?_))
    exact segments_cons _ 0 rfl (segments_cons _ 0 rfl (segments_cons _ 0 rfl segments_nil))
  have htokens : sourceTokens "A\x7br#B,B\x7d" = .ok rawTokens :=
    sourceTokens_of_segments hsegments
  have hA : readAttributes "A\x7br#B,B\x7d".toList rawTokens = .ok ([], _) :=
    readAttributes_of_other (show TokenKind.ident ≠ .doc by decide) rfl
  have hraw : readAttributes "A\x7br#B,B\x7d".toList (rawTokens.drop 2) = .ok ([], _) :=
    readAttributes_of_other (show TokenKind.ident ≠ .doc by decide) rfl
  have hB : readAttributes "A\x7br#B,B\x7d".toList (rawTokens.drop 4) = .ok ([], _) :=
    readAttributes_of_other (show TokenKind.ident ≠ .doc by decide) rfl
  have hlast : readNames "A\x7br#B,B\x7d".toList (rawTokens.drop 4) =
      .ok ([⟨"B", [], ⟨1, 7⟩⟩], rawTokens.drop 5) :=
    readNames_last rfl (readName_of_attributes (by decide) hB) rfl
  have hnames : readNames "A\x7br#B,B\x7d".toList (rawTokens.drop 2) =
      .ok ([⟨"r#B", [], ⟨1, 3⟩⟩, ⟨"B", [], ⟨1, 7⟩⟩], rawTokens.drop 5) :=
    readNames_cons rfl (readName_of_attributes (by decide) hraw) rfl hlast
  have hpass : Goal.pass [.type] rawTokens = .ok (rawTokens.drop 1) :=
    pass_of_step rfl (pass_of_step rfl (pass_of_step rfl (pass_of_step rfl pass_nil)))
  have hblock := readBlock_of_parts hA rfl (readType_of_pass hpass) rfl rfl hnames rfl rfl
  exact readSource_of_readBlocks htokens (readBlocks_of_readBlock hblock readBlocks_nil)

/-- The name `B`, declared with and without a raw mark, has one hidden name, which is neither. -/
theorem hiddenNamesApart_of_readSource_raw :
    readSource "A\x7br#B,B\x7d" = .ok [rawBlock] ∧ IsDeclarable "r#B" ∧ HiddenApart "r#B" "B" ∧
      hiddenName "r#B" = hiddenName "B" := by
  obtain ⟨hdeclared, hapart⟩ := hiddenNamesApart_of_readSource readSource_raw
  obtain ⟨s, hs, hsname⟩ : ∃ s ∈ specsOf [rawBlock], s.name = "r#B" :=
    ⟨_, List.mem_cons_self, rfl⟩
  obtain ⟨t, ht, htname⟩ : ∃ t ∈ specsOf [rawBlock], t.name = "B" :=
    ⟨_, List.mem_cons_of_mem _ List.mem_cons_self, rfl⟩
  have hst := hapart s hs t ht
  rw [hsname, htname] at hst
  refine ⟨readSource_raw, ?_, hst, hst.shared.mpr ?_⟩
  · exact hdeclared rawBlock List.mem_cons_self ⟨"r#B", [], ⟨1, 3⟩⟩ List.mem_cons_self
  · exact ⟨['B'], ⟨rfl, List.forall_mem_singleton.mpr rfl⟩, Or.inr rfl, Or.inl rfl⟩

end Microtypes
