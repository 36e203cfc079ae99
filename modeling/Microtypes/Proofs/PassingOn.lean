import Microtypes.Proofs.Control.Requests
import Microtypes.Proofs.Expansion
import Microtypes.Proofs.Grammar.Standing
import Microtypes.Proofs.Rust.Heading

/-!
# Attributes end up where they belong

Control attributes steer the generation and leave no trace of their own. All other attributes of a
name, and then those of its block, stand verbatim at the head of its wrapper, and nothing else of
the wrapper depends on them (`passesOn_of_ofSource`).
-/

namespace Microtypes

open Lexeme (punct ident)

variable {features : Features} {spec : Spec} {attributes : List Attribute} {source : String}
  {blocks : List Declaration}

/-! ## Specifications without attributes to pass on -/

/-- A specification with its control attributes only. -/
def Spec.bare (spec : Spec) : Spec :=
  { spec with attributes := spec.attributes.filter Attribute.isControl }

theorem attributesAt_filter_isControl (marker : Marker) (attributes : List Attribute) :
    attributesAt marker.path (attributes.filter Attribute.isControl) =
      attributesAt marker.path attributes := by
  rw [attributesAt, attributesAt, List.filter_filter]
  refine List.filter_congr fun a _ => ?_
  cases hpath : a.path == marker.path with
  | false => rfl
  | true =>
    have hcontrol : a.isControl = true := by
      rw [Attribute.isControl, beq_iff_eq.mp hpath]
      cases marker <;> decide
    rw [hcontrol]
    rfl

/-- What is asked for does not depend on the attributes that are passed on. -/
theorem controls_filter_isControl (attributes : List Attribute) :
    controls (attributes.filter Attribute.isControl) = controls attributes := by
  simp only [controls_eq, secretControl, kindControl, columnControl, markerAt,
    attributesAt_filter_isControl]

theorem passedOn_filter_isControl (attributes : List Attribute) :
    passedOn (attributes.filter Attribute.isControl) = [] := by
  rw [passedOn, List.filter_filter, List.filter_eq_nil_iff]
  simp

theorem ofSpec_bare (spec : Spec) : Wrapper.ofSpec spec.bare = (Wrapper.ofSpec spec).bare := by
  rw [Wrapper.ofSpec, Spec.bare, passedOn_filter_isControl]
  rfl

/-- The attributes that are passed on come in front of what becomes of the specification without
them. -/
theorem expandSpec_eq_bare (spec : Spec) (features : Features) :
    ∃ group, expandSpec features spec = (expandSpec features spec.bare).map
      (.after (passedItems group ((passedOn spec.attributes).map Attribute.text))) := by
  rw [expandSpec_eq, expandSpec_eq, ofSpec_bare, Spec.bare, controls_filter_isControl]
  cases controls spec.attributes with
  | ok control => exact ⟨control.headGroup, outcomeOf_eq_bare (.ofSpec spec) control features⟩
  | error stop =>
    cases stop with
    | problem problem => exact ⟨.core, rfl⟩
    | abort abort => exact ⟨.core, rfl⟩

theorem defines_of_expandSpec {wrapper : Generated}
    (h : expandSpec features spec.bare = .ok (.generated wrapper)) :
    Defines (.ofSpec spec) wrapper.items := by
  rw [expandSpec_eq] at h
  split at h
  · rw [ofSpec_bare] at h
    exact defines_of_outcomeOf h
  · cases h
  · cases h

/-! ## Sources -/

/-- The texts of the attributes of a specification that are no control attributes. -/
def Spec.passedTexts (spec : Spec) : List String :=
  (spec.attributes.filter (·.path ∉ ["secret", "string", "int", "diesel"])).map Attribute.text

theorem passedTexts_eq (spec : Spec) :
    spec.passedTexts = (passedOn spec.attributes).map Attribute.text := by
  rw [Spec.passedTexts, passedOn_eq_filter]

/-- Whether a wrapper carries the attributes that are passed on to it. -/
structure Generated.Carries (wrapper : Generated) (spec : Spec) (features : Features) : Prop where
  /-- Their texts are one item, or none if there are none. The other items are those of the wrapper
  without these attributes. -/
  items : ∃ group others, wrapper.items = passedItems group spec.passedTexts ++ others ∧
    expandSpec features spec.bare = .ok (.generated { wrapper with items := others })
  /-- The lines begin with the texts, and go on with attribute lines of the generator and then with
  the definition of the wrapper. -/
  lines : ∃ marks field tail, (∀ line ∈ marks, line ∈ generatorLines) ∧
    renderItems wrapper.items =
      spec.passedTexts ++ marks ++ (Wrapper.ofSpec spec).structLine field :: tail

theorem carries_of_expandSpec {wrapper : Generated}
    (h : expandSpec features spec = .ok (.generated wrapper)) : wrapper.Carries spec features := by
  obtain ⟨group, heq⟩ := expandSpec_eq_bare spec features
  rw [h, ← passedTexts_eq] at heq
  cases hbare : expandSpec features spec.bare with
  | error abort => rw [hbare] at heq; cases heq
  | ok outcome =>
    rw [hbare] at heq
    cases outcome with
    | failed diagnostic => cases heq
    | generated wrapper' =>
      cases heq
      have hdefines := defines_of_expandSpec hbare
      refine ⟨⟨group, wrapper'.items, rfl, hbare⟩, ?_⟩
      obtain ⟨marks, field, tail, hlines, hmarks⟩ := hdefines
      refine ⟨marks, field, tail, hmarks, ?_⟩
      rw [renderItems_passed (Defines.ne_nil ⟨marks, field, tail, hlines, hmarks⟩), hlines,
        List.append_assoc]

/-- Whether an expansion passes the attributes in its source on to the right wrappers. -/
structure Expansion.PassesOn (e : Expansion) (source : String) (blocks : List Declaration)
    (features : Features) : Prop where
  /-- The tokens of the source are those of the blocks in turn, each with its attributes and names
  where they stand. -/
  stands : ∃ ts runs, sourceTokens source = .ok ts ∧ ts = List.flatten runs ∧
    List.Forall₂ (Declaration.StandsAs source.toList) runs blocks
  /-- There is one specification for each declared name, in the order of the source, with the
  attributes of the name and then those of its block. -/
  specs : e.specs = blocks.flatMap fun block => block.names.map fun decl =>
    ⟨block.inner, decl.name, block.visibility, decl.attributes ++ block.attributes, decl.location⟩
  /-- Each result belongs to its specification. -/
  results : List.Forall₂ (fun spec outcome => outcome.name? = some spec.name ∧
    ∀ wrapper, outcome = .generated wrapper → wrapper.Carries spec features) e.specs e.results

/-- A result of an expansion is the diagnostic of a source that is refused, or it is that of a
specification. -/
theorem origin_of_mem_results {e : Expansion} {outcome : Outcome}
    (he : Expansion.ofSource source features = .ok e) (houtcome : outcome ∈ e.results) :
    (∃ problem, readSource source = .error (.problem problem) ∧
      outcome = .failed (problem.diagnostic none)) ∨
    ∃ blocks, readSource source = .ok blocks ∧ e.specs = specsOf blocks ∧
      ∃ spec ∈ specsOf blocks, expandSpec features spec = .ok outcome := by
  cases hread : readSource source with
  | error stop =>
    rw [Expansion.ofSource, hread] at he
    cases stop with
    | abort abort => cases he
    | problem problem =>
      cases he
      exact .inl ⟨problem, rfl, List.mem_singleton.mp houtcome⟩
  | ok blocks =>
    obtain ⟨results, hresults, rfl⟩ := results_of_ofSource hread he
    exact .inr ⟨blocks, rfl, rfl, exists_of_forall₂ (mapM_ok_iff.mp hresults) houtcome⟩

/-- Where there is an expansion, attributes end up where they belong. -/
theorem passesOn_of_ofSource {e : Expansion} (hread : readSource source = .ok blocks)
    (he : Expansion.ofSource source features = .ok e) : e.PassesOn source blocks features := by
  obtain ⟨ts, hts, hblocks⟩ := readBlocks_of_readSource hread
  obtain ⟨runs, hruns, hstand⟩ := standAs_of_readBlocks (proper_of_sourceTokens hts)
    (tiles_of_sourceTokens hts).standsIn hblocks
  rw [ofSource_of_readSource hread] at he
  cases hresults : (specsOf blocks).mapM (expandSpec features) with
  | error abort => rw [hresults] at he; cases he
  | ok results =>
    rw [hresults] at he
    cases he
    refine ⟨⟨ts, runs, hts, hruns, hstand⟩, rfl, (mapM_ok_iff.mp hresults).imp ?_⟩
    intro spec outcome hspec
    refine ⟨name_of_expandSpec hspec, ?_⟩
    rintro wrapper rfl
    exact carries_of_expandSpec hspec

/-! ## An attribute of a name and one of its block -/

/-- A block with an attribute, in which a name has an attribute and a control attribute. -/
def markedSource : String := "#[a]A\x7b#[b]#[string]B\x7d"

/-- The tokens of the source. -/
def markedTokens : List Token :=
  [⟨punct "#", ⟨1, 1⟩, 0, 1⟩, ⟨punct "[", ⟨1, 2⟩, 1, 2⟩, ⟨ident "a", ⟨1, 3⟩, 2, 3⟩,
    ⟨punct "]", ⟨1, 4⟩, 3, 4⟩, ⟨ident "A", ⟨1, 5⟩, 4, 5⟩, ⟨punct "\x7b", ⟨1, 6⟩, 5, 6⟩,
    ⟨punct "#", ⟨1, 7⟩, 6, 7⟩, ⟨punct "[", ⟨1, 8⟩, 7, 8⟩, ⟨ident "b", ⟨1, 9⟩, 8, 9⟩,
    ⟨punct "]", ⟨1, 10⟩, 9, 10⟩, ⟨punct "#", ⟨1, 11⟩, 10, 11⟩, ⟨punct "[", ⟨1, 12⟩, 11, 12⟩,
    ⟨ident "string", ⟨1, 13⟩, 12, 18⟩, ⟨punct "]", ⟨1, 19⟩, 18, 19⟩, ⟨ident "B", ⟨1, 20⟩, 19, 20⟩,
    ⟨punct "\x7d", ⟨1, 21⟩, 20, 21⟩]

/-- The block that is read from them. -/
def markedBlock : Declaration :=
  ⟨[⟨"a", .bare, "#[a]", ⟨1, 1⟩⟩], ⟨"A", ⟨1, 5⟩⟩, "",
    [⟨"B", [⟨"b", .bare, "#[b]", ⟨1, 7⟩⟩, ⟨"string", .bare, "#[string]", ⟨1, 11⟩⟩], ⟨1, 20⟩⟩]⟩

theorem sourceTokens_marked : sourceTokens markedSource = .ok markedTokens := by
  have hsegments : segments markedSource.toList = .ok
      [⟨some .punct, ['#']⟩, ⟨some .punct, ['[']⟩, ⟨some .ident, ['a']⟩, ⟨some .punct, [']']⟩,
        ⟨some .ident, ['A']⟩, ⟨some .punct, "\x7b".toList⟩, ⟨some .punct, ['#']⟩,
        ⟨some .punct, ['[']⟩, ⟨some .ident, ['b']⟩, ⟨some .punct, [']']⟩, ⟨some .punct, ['#']⟩,
        ⟨some .punct, ['[']⟩, ⟨some .ident, "string".toList⟩, ⟨some .punct, [']']⟩,
        ⟨some .ident, ['B']⟩, ⟨some .punct, "\x7d".toList⟩] := by
    refine segments_cons _ 0 rfl (segments_cons _ 0 rfl (segments_cons _ 0 rfl ?_))
    refine segments_cons _ 0 rfl (segments_cons _ 0 rfl (segments_cons _ 0 rfl ?_))
    refine segments_cons _ 0 rfl (segments_cons _ 0 rfl (segments_cons _ 0 rfl ?_))
    refine segments_cons _ 0 rfl (segments_cons _ 0 rfl (segments_cons _ 0 rfl ?_))
    refine segments_cons _ 5 rfl (segments_cons _ 0 rfl (segments_cons _ 0 rfl ?_))
    exact segments_cons _ 0 rfl segments_nil
  exact sourceTokens_of_segments hsegments

theorem readBlock_marked :
    readBlock markedSource.toList markedTokens = .ok (markedBlock, []) := by
  have hA : readAttributes markedSource.toList (markedTokens.drop 4) = .ok ([], _) :=
    readAttributes_of_other (show TokenKind.ident ≠ .doc by decide) rfl
  have hB : readAttributes markedSource.toList (markedTokens.drop 14) = .ok ([], _) :=
    readAttributes_of_other (show TokenKind.ident ≠ .doc by decide) rfl
  have ha := readAttributes_of_mark (show TokenKind.punct ≠ .doc by decide) rfl
    (show readAfterMark _ ⟨punct "#", ⟨1, 1⟩, 0, 1⟩ (markedTokens.drop 1) =
      .ok (_, markedTokens.drop 4) from rfl) hA
  have hstring := readAttributes_of_mark (show TokenKind.punct ≠ .doc by decide) rfl
    (show readAfterMark _ ⟨punct "#", ⟨1, 11⟩, 10, 11⟩ (markedTokens.drop 11) =
      .ok (_, markedTokens.drop 14) from rfl) hB
  have hb := readAttributes_of_mark (show TokenKind.punct ≠ .doc by decide) rfl
    (show readAfterMark _ ⟨punct "#", ⟨1, 7⟩, 6, 7⟩ (markedTokens.drop 7) =
      .ok (_, markedTokens.drop 10) from rfl) hstring
  have hnames := readNames_last rfl (readName_of_attributes (by decide) hb) rfl
  have hpass : Goal.pass [.type] (markedTokens.drop 4) = .ok (markedTokens.drop 5) :=
    pass_of_step rfl (pass_of_step rfl (pass_of_step rfl (pass_of_step rfl pass_nil)))
  exact readBlock_of_parts ha rfl (readType_of_pass hpass) rfl rfl hnames rfl rfl

theorem readSource_marked : readSource markedSource = .ok [markedBlock] :=
  readSource_of_readBlocks sourceTokens_marked
    (readBlocks_of_readBlock readBlock_marked readBlocks_nil)

/-- The attribute `b` of the name comes first and then `a` of its block. The control attribute is
gone. -/
theorem passesOn_of_ofSource_marked :
    ∃ e wrapper, readSource markedSource = .ok [markedBlock] ∧
      Expansion.ofSource markedSource .default = .ok e ∧
      e.PassesOn markedSource [markedBlock] .default ∧
      e.results = [.generated wrapper] ∧
      (renderItems wrapper.items).take 2 = ["#[b]", "#[a]"] := by
  obtain ⟨spec, hspec⟩ : ∃ spec, specsOf [markedBlock] = [spec] := ⟨_, rfl⟩
  obtain ⟨wrapper, hwrapper⟩ : ∃ wrapper, expandSpec .default spec = .ok (.generated wrapper) := by
    cases hspec
    exact ⟨_, rfl⟩
  have he := ofSource_of_readSource readSource_marked .default
  rw [hspec, List.mapM_cons, hwrapper] at he
  refine ⟨_, wrapper, readSource_marked, he, passesOn_of_ofSource readSource_marked he, rfl, ?_⟩
  obtain ⟨marks, field, tail, -, hlines⟩ := (carries_of_expandSpec hwrapper).lines
  cases hspec
  rw [hlines]
  rfl

end Microtypes
