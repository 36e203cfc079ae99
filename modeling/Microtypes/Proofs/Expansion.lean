import Mathlib.Data.List.Forall2
import Microtypes.Expansion
import Microtypes.Proofs.Control.Secret
import Microtypes.Proofs.Grammar.Acceptance
import Microtypes.Proofs.Grammar.Reading

/-!
# Every declared name has its result

Expanding a source that the grammar accepts gives one result for each declared name, in order, and
each is the result of its specification by itself. The one exception is a secret attribute that
misses an argument: it ends the whole run (`answers_iff`).
-/

namespace Microtypes

open Lexeme (punct ident)

variable {features : Features} {spec : Spec} {specs : List Spec} {source : String}
  {blocks : List Declaration} {results : List Outcome}

/-- The name that an outcome is about. -/
def Outcome.name? : Outcome → Option String
  | .generated wrapper => some wrapper.name
  | .failed diagnostic => diagnostic.name

/-! ## One specification -/

/-- The column conversions are planned only where a column type is given. -/
theorem columnItems_ok (variant : Variant) (w : Wrapper) (control : Control) (features : Features) :
    ∃ items, columnItems variant w control (planFor control features) = .ok items := by
  have hplan : (planFor control features).columnMapping = control.columnMapping.isSome := by
    unfold planFor
    split <;> rfl
  rw [columnItems, hplan]
  cases control.columnMapping with
  | none => exact ⟨_, rfl⟩
  | some mapping => exact ⟨_, rfl⟩

/-- What is supported is written out: the plan asks for nothing that the control attributes do not
give. -/
theorem outcomeOf_ok (w : Wrapper) (control : Control) (features : Features) :
    ∃ outcome, outcomeOf w control features = .ok outcome ∧ outcome.name? = some w.name := by
  unfold outcomeOf
  cases unsupported? control features with
  | some problem => exact ⟨_, rfl, rfl⟩
  | none =>
    cases hsecret : control.secret with
    | none =>
      obtain ⟨items, hitems⟩ := columnItems_ok .normal w control features
      refine ⟨.generated ⟨w.name, planFor control features,
        normalBase w (planFor control features) ++ items⟩, ?_, rfl⟩
      simp only [Option.isNone_none, if_true, normalItems, hitems, bind, Except.bind, pure,
        Except.pure]
    | some marker =>
      obtain ⟨items, hitems⟩ := columnItems_ok .secret w control features
      refine ⟨.generated ⟨w.name, planFor control features,
        secretBase w (planFor control features) ++ items⟩, ?_, rfl⟩
      simp only [Option.isNone_some, Bool.false_eq_true, if_false, secretItems, hsecret, hitems,
        bind, Except.bind, pure, Except.pure]

theorem name_of_expandSpec {outcome : Outcome} (h : expandSpec features spec = .ok outcome) :
    outcome.name? = some spec.name := by
  rw [expandSpec_eq] at h
  split at h
  · next control _ =>
    obtain ⟨_, hok, hname⟩ := outcomeOf_ok (.ofSpec spec) control features
    rw [hok] at h
    cases h
    exact hname
  · cases h
    rfl
  · cases h

/-- A specification has its result unless its secret misses an argument. -/
theorem expandSpec_ok_iff :
    (∃ outcome, expandSpec features spec = .ok outcome) ↔
      ¬ SecretMissesArgument spec.attributes := by
  have haborts := fun abort => @controls_aborts_iff spec.attributes abort
  rw [expandSpec_eq]
  cases hcontrols : controls spec.attributes with
  | ok control =>
    rw [hcontrols] at haborts
    obtain ⟨outcome, hok, -⟩ := outcomeOf_ok (.ofSpec spec) control features
    refine ⟨fun _ hmisses => ?_, fun _ => ⟨outcome, hok⟩⟩
    cases (haborts .emptyArgument).mpr ⟨rfl, hmisses⟩
  | error stop =>
    rw [hcontrols] at haborts
    cases stop with
    | problem problem =>
      refine ⟨fun _ hmisses => ?_, fun _ => ⟨_, rfl⟩⟩
      cases (haborts .emptyArgument).mpr ⟨rfl, hmisses⟩
    | abort abort =>
      refine ⟨?_, fun h => absurd ((haborts abort).mp rfl).2 h⟩
      rintro ⟨outcome, ⟨⟩⟩

/-! ## All specifications -/

theorem mapM_ok_iff : specs.mapM (expandSpec features) = .ok results ↔
    List.Forall₂ (fun spec outcome => expandSpec features spec = .ok outcome) specs results := by
  induction specs generalizing results with
  | nil => cases results <;> simp [pure, Except.pure]
  | cons spec specs ih =>
    rw [List.mapM_cons]
    cases hspec : expandSpec features spec with
    | error abort => cases results <;> simp [hspec, bind, Except.bind]
    | ok outcome =>
      cases hlater : specs.mapM (expandSpec features) with
      | error abort => cases results <;> simp [hspec, bind, Except.bind, ← ih, hlater]
      | ok later =>
        cases results <;> simp [hspec, bind, Except.bind, pure, Except.pure, ← ih, hlater]

theorem ofSource_of_readSource (h : readSource source = .ok blocks) (features : Features) :
    Expansion.ofSource source features =
      ((specsOf blocks).mapM (expandSpec features)).map (⟨blocks, specsOf blocks, ·⟩) := by
  rw [Expansion.ofSource, h]
  simp only [bind, Except.bind]
  cases (specsOf blocks).mapM (expandSpec features) <;> rfl

theorem results_of_ofSource {e : Expansion} (hread : readSource source = .ok blocks)
    (he : Expansion.ofSource source features = .ok e) :
    ∃ results, (specsOf blocks).mapM (expandSpec features) = .ok results ∧
      e = ⟨blocks, specsOf blocks, results⟩ := by
  rw [ofSource_of_readSource hread] at he
  cases hresults : (specsOf blocks).mapM (expandSpec features) with
  | error abort =>
    rw [hresults] at he
    cases he
  | ok results =>
    rw [hresults] at he
    cases he
    exact ⟨results, rfl, rfl⟩

/-- What an expansion has to hold for the blocks of a source. -/
structure Expansion.Answers (e : Expansion) (blocks : List Declaration) (features : Features) :
    Prop where
  declarations : e.declarations = blocks
  /-- There is one result for each declared name, block by block and name by name. -/
  names : e.results.map Outcome.name? =
    blocks.flatMap fun block => block.names.map fun decl => some decl.name
  /-- Each result is that of its specification by itself. -/
  alone : List.Forall₂ (fun spec outcome => expandSpec features spec = .ok outcome)
    (specsOf blocks) e.results

theorem names_specsOf (blocks : List Declaration) : (specsOf blocks).map (some ∘ Spec.name) =
    blocks.flatMap fun block => block.names.map fun decl => some decl.name := by
  rw [specsOf, List.map_flatMap]
  congr 1
  funext block
  simp [Declaration.specs]

theorem names_of_forall₂
    (h : List.Forall₂ (fun spec outcome => expandSpec features spec = .ok outcome) specs results) :
    results.map Outcome.name? = specs.map (some ∘ Spec.name) := by
  induction h with
  | nil => rfl
  | cons hspec _ ih =>
    rw [List.map_cons, List.map_cons, ih, name_of_expandSpec hspec]
    rfl

theorem exists_forall₂_iff :
    (∃ results, List.Forall₂ (fun spec outcome => expandSpec features spec = .ok outcome)
      specs results) ↔ ∀ spec ∈ specs, ¬ SecretMissesArgument spec.attributes := by
  induction specs with
  | nil => simp
  | cons spec specs ih =>
    rw [List.forall_mem_cons, ← ih, ← @expandSpec_ok_iff features]
    constructor
    · rintro ⟨results, h⟩
      cases h with
      | cons hspec hlater => exact ⟨⟨_, hspec⟩, _, hlater⟩
    · rintro ⟨⟨outcome, hspec⟩, results, hlater⟩
      exact ⟨outcome :: results, .cons hspec hlater⟩

/-- A source that the grammar accepts is answered, name by name, exactly if no declared name has a
secret that misses an argument. -/
theorem answers_iff (h : readSource source = .ok blocks) (features : Features) :
    (∃ e, Expansion.ofSource source features = .ok e ∧ e.Answers blocks features) ↔
      ∀ block ∈ blocks, ∀ decl ∈ block.names,
        ¬ SecretMissesArgument (decl.attributes ++ block.attributes) := by
  have hspecs : (∀ spec ∈ specsOf blocks, ¬ SecretMissesArgument spec.attributes) ↔
      ∀ block ∈ blocks, ∀ decl ∈ block.names,
        ¬ SecretMissesArgument (decl.attributes ++ block.attributes) := by
    simp only [specsOf, Declaration.specs, List.mem_flatMap, List.mem_map]
    constructor
    · intro hall block hblock decl hdecl
      exact hall _ ⟨block, hblock, decl, hdecl, rfl⟩
    · rintro hall spec ⟨block, hblock, decl, hdecl, rfl⟩
      exact hall block hblock decl hdecl
  rw [← hspecs, ← exists_forall₂_iff]
  unfold Expansion.ofSource
  rw [h]
  constructor
  · rintro ⟨e, -, hanswers⟩
    exact ⟨_, hanswers.alone⟩
  · rintro ⟨results, hresults⟩
    refine ⟨⟨blocks, specsOf blocks, results⟩, ?_, rfl, ?_, hresults⟩
    · simp only [mapM_ok_iff.mpr hresults, bind, Except.bind, pure, Except.pure]
    · rw [names_of_forall₂ hresults, names_specsOf]

/-! ## A name that fails and one that does not -/

/-- The tokens of `B,C` and the closing bracket. -/
def namesTokens : List Token :=
  [⟨ident "B", ⟨1, 15⟩, 14, 15⟩, ⟨punct ",", ⟨1, 16⟩, 15, 16⟩, ⟨ident "C", ⟨1, 17⟩, 16, 17⟩,
    ⟨punct "\x7d", ⟨1, 18⟩, 17, 18⟩]

/-- The tokens of a secret attribute with the token `x` in it, after its mark, and of the names. -/
def secretTokens (x : Lexeme) : List Token :=
  [⟨punct "[", ⟨1, 4⟩, 3, 4⟩, ⟨ident "secret", ⟨1, 5⟩, 4, 10⟩, ⟨punct "(", ⟨1, 11⟩, 10, 11⟩,
    ⟨x, ⟨1, 12⟩, 11, 12⟩, ⟨punct ")", ⟨1, 13⟩, 12, 13⟩, ⟨punct "]", ⟨1, 14⟩, 13, 14⟩] ++ namesTokens

/-- The tokens of a block in which the first of two names has such an attribute. -/
def blockTokens (x : Lexeme) : List Token :=
  [⟨ident "A", ⟨1, 1⟩, 0, 1⟩, ⟨punct "\x7b", ⟨1, 2⟩, 1, 2⟩, ⟨punct "#", ⟨1, 3⟩, 2, 3⟩] ++
    secretTokens x

theorem readAfterMark_secretTokens {source : List Char} {x : Lexeme} (mark : Token)
    (hopens : x.opens? = none) (hcloses : x.closes? = none) :
    ∃ attr, attr.path = "secret" ∧ attr.form = .delimited .round [⟨x, ⟨1, 12⟩, 11, 12⟩] ∧
      readAfterMark source mark (secretTokens x) = .ok (attr, namesTokens) := by
  have hgroup : passGroup ((secretTokens x).drop 2) =
      .ok (⟨punct "]", ⟨1, 14⟩, 13, 14⟩ :: namesTokens) := by
    have hround : Lexeme.opens? (punct "(") = some .round := rfl
    have hclose : Lexeme.closes? (punct ")") = some .round := rfl
    have hclose' : Lexeme.opens? (punct ")") = none := rfl
    simp only [secretTokens, List.cons_append, List.nil_append, List.drop_succ_cons,
      List.drop_zero, passGroup, passClosers, hround, hopens, hcloses, hclose, hclose', if_true]
  have hform : readForm ((secretTokens x).drop 2) =
      .ok (.delimited .round [⟨x, ⟨1, 12⟩, 11, 12⟩], ⟨punct "]", ⟨1, 14⟩, 13, 14⟩ :: namesTokens) :=
    readForm_of_group rfl hgroup
  exact ⟨_, rfl, rfl, readAfterMark_of_parts rfl rfl rfl hform rfl⟩

theorem readBlocks_blockTokens {source : List Char} {x : Lexeme} (hopens : x.opens? = none)
    (hcloses : x.closes? = none) :
    ∃ attr, attr.path = "secret" ∧ attr.form = .delimited .round [⟨x, ⟨1, 12⟩, 11, 12⟩] ∧
      readBlocks source (blockTokens x) =
        .ok [⟨[], ⟨"A", ⟨1, 1⟩⟩, "", [⟨"B", [attr], ⟨1, 15⟩⟩, ⟨"C", [], ⟨1, 17⟩⟩]⟩] := by
  obtain ⟨attr, hpath, hform, hafter⟩ :=
    @readAfterMark_secretTokens source x ⟨punct "#", ⟨1, 3⟩, 2, 3⟩ hopens hcloses
  refine ⟨attr, hpath, hform, ?_⟩
  have hA : readAttributes source (blockTokens x) = .ok ([], _) :=
    readAttributes_of_other (show TokenKind.ident ≠ .doc by decide) rfl
  have hB : readAttributes source (⟨punct "#", ⟨1, 3⟩, 2, 3⟩ :: secretTokens x) =
      .ok ([attr], namesTokens) :=
    readAttributes_of_mark (show TokenKind.punct ≠ .doc by decide) rfl hafter
      (readAttributes_of_other (by decide) rfl)
  have hC : readAttributes source (namesTokens.drop 2) = .ok ([], _) :=
    readAttributes_of_other (show TokenKind.ident ≠ .doc by decide) rfl
  have hlast : readNames source (namesTokens.drop 2) =
      .ok ([⟨"C", [], ⟨1, 17⟩⟩], namesTokens.drop 3) :=
    readNames_last rfl (readName_of_attributes (by decide) hC) rfl
  have hnames : readNames source (⟨punct "#", ⟨1, 3⟩, 2, 3⟩ :: secretTokens x) =
      .ok ([⟨"B", [attr], ⟨1, 15⟩⟩, ⟨"C", [], ⟨1, 17⟩⟩], namesTokens.drop 3) :=
    readNames_cons rfl (readName_of_attributes (by decide) hB) rfl hlast
  have hpass : Goal.pass [.type] (blockTokens x) = .ok ((blockTokens x).drop 1) :=
    pass_of_step rfl (pass_of_step rfl (pass_of_step rfl (pass_of_step rfl pass_nil)))
  have hblock := readBlock_of_parts hA rfl (readType_of_pass hpass) rfl rfl hnames rfl rfl
  exact readBlocks_of_readBlock hblock readBlocks_nil

theorem sourceTokens_malformed :
    sourceTokens "A\x7b#[secret(x)]B,C\x7d" = .ok (blockTokens (ident "x")) := by
  have hsegments : segments "A\x7b#[secret(x)]B,C\x7d".toList = .ok
      [⟨some .ident, ['A']⟩, ⟨some .punct, "\x7b".toList⟩, ⟨some .punct, ['#']⟩,
        ⟨some .punct, ['[']⟩, ⟨some .ident, "secret".toList⟩, ⟨some .punct, ['(']⟩,
        ⟨some .ident, ['x']⟩, ⟨some .punct, [')']⟩, ⟨some .punct, [']']⟩, ⟨some .ident, ['B']⟩,
        ⟨some .punct, [',']⟩, ⟨some .ident, ['C']⟩, ⟨some .punct, "\x7d".toList⟩] := by
    refine segments_cons _ 0 rfl (segments_cons _ 0 rfl (segments_cons _ 0 rfl ?_))
    refine segments_cons _ 0 rfl (segments_cons _ 5 rfl (segments_cons _ 0 rfl ?_))
    refine segments_cons _ 0 rfl (segments_cons _ 0 rfl (segments_cons _ 0 rfl ?_))
    refine segments_cons _ 0 rfl (segments_cons _ 0 rfl (segments_cons _ 0 rfl ?_))
    exact segments_cons _ 0 rfl segments_nil
  exact sourceTokens_of_segments hsegments

/-- The secret attribute of `B` is malformed, and `C` has its wrapper all the same. -/
theorem answers_iff_malformed :
    ∃ blocks e, readSource "A\x7b#[secret(x)]B,C\x7d" = .ok blocks ∧
      Expansion.ofSource "A\x7b#[secret(x)]B,C\x7d" .default = .ok e ∧
      e.Answers blocks .default ∧ e.results.map Outcome.name? = [some "B", some "C"] := by
  have htokens := sourceTokens_malformed
  obtain ⟨attr, hpath, hform, hblocks⟩ :=
    @readBlocks_blockTokens "A\x7b#[secret(x)]B,C\x7d".toList (ident "x") rfl rfl
  have hread := readSource_of_readBlocks htokens hblocks
  have hnone : ∀ block ∈ [(⟨[], ⟨"A", ⟨1, 1⟩⟩, "",
      [⟨"B", [attr], ⟨1, 15⟩⟩, ⟨"C", [], ⟨1, 17⟩⟩]⟩ : Declaration)], ∀ decl ∈ block.names,
      ¬ SecretMissesArgument (decl.attributes ++ block.attributes) := by
    intro block hblock decl hdecl
    rw [List.mem_singleton.mp hblock] at hdecl ⊢
    rintro ⟨a, tokens, ha, hforma, hmisses⟩
    simp only [List.append_nil] at ha
    rcases List.mem_cons.mp hdecl with rfl | hdecl
    · rw [attributesAt, List.filter_cons, hpath] at ha
      cases ha
      rw [hform] at hforma
      cases hforma
      generalize hts : lexemes [(⟨ident "x", ⟨1, 12⟩, 11, 12⟩ : Token)] = ts at hmisses
      cases hmisses with
      | here rest => simp [lexemes, ident, punct] at hts
      | later h => simp [lexemes, ident, punct] at hts
    · rw [List.mem_singleton.mp hdecl] at ha
      cases ha
  obtain ⟨e, he, hanswers⟩ := (answers_iff hread .default).mpr hnone
  exact ⟨_, e, hread, he, hanswers, hanswers.names⟩

/-- Where the argument of the secret attribute is missing, neither `B` nor `C` has a result. -/
theorem answers_fails_missing_argument :
    (∃ blocks, readSource "A\x7b#[secret(,)]B,C\x7d" = .ok blocks) ∧
      Expansion.ofSource "A\x7b#[secret(,)]B,C\x7d" .default = .error .emptyArgument := by
  have hsegments : segments "A\x7b#[secret(,)]B,C\x7d".toList = .ok
      [⟨some .ident, ['A']⟩, ⟨some .punct, "\x7b".toList⟩, ⟨some .punct, ['#']⟩,
        ⟨some .punct, ['[']⟩, ⟨some .ident, "secret".toList⟩, ⟨some .punct, ['(']⟩,
        ⟨some .punct, [',']⟩, ⟨some .punct, [')']⟩, ⟨some .punct, [']']⟩, ⟨some .ident, ['B']⟩,
        ⟨some .punct, [',']⟩, ⟨some .ident, ['C']⟩, ⟨some .punct, "\x7d".toList⟩] := by
    refine segments_cons _ 0 rfl (segments_cons _ 0 rfl (segments_cons _ 0 rfl ?_))
    refine segments_cons _ 0 rfl (segments_cons _ 5 rfl (segments_cons _ 0 rfl ?_))
    refine segments_cons _ 0 rfl (segments_cons _ 0 rfl (segments_cons _ 0 rfl ?_))
    refine segments_cons _ 0 rfl (segments_cons _ 0 rfl (segments_cons _ 0 rfl ?_))
    exact segments_cons _ 0 rfl segments_nil
  have htokens : sourceTokens "A\x7b#[secret(,)]B,C\x7d" = .ok (blockTokens (punct ",")) :=
    sourceTokens_of_segments hsegments
  obtain ⟨attr, hpath, hform, hblocks⟩ :=
    @readBlocks_blockTokens "A\x7b#[secret(,)]B,C\x7d".toList (punct ",") rfl rfl
  have hread := readSource_of_readBlocks htokens hblocks
  refine ⟨⟨_, hread⟩, ?_⟩
  have hmisses : SecretMissesArgument [attr] := by
    refine ⟨attr, _, ?_, hform, .here []⟩
    rw [attributesAt, List.filter_cons, hpath]
    rfl
  have hcontrols := controls_aborts_iff.mpr ⟨rfl, hmisses⟩
  have hspec : expandSpec .default
      ⟨⟨"A", ⟨1, 1⟩⟩, "B", "", [attr], ⟨1, 15⟩⟩ = .error .emptyArgument := by
    rw [expandSpec_eq, hcontrols]
  rw [Expansion.ofSource, hread]
  simp only [specsOf, Declaration.specs, List.flatMap_cons, List.flatMap_nil, List.map_cons,
    List.append_nil, List.mapM_cons, hspec]
  rfl

end Microtypes
