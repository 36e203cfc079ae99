import Microtypes.Proofs.Control.Likeness
import Microtypes.Proofs.Rust.Bare

/-!
# Expanding alike sources

Alike specifications have alike results: the same problem at an alike place, or the same wrapper but
for the texts of the attributes that are passed on.
-/

namespace Microtypes

variable {source source' : List Char} {L : Likeness source source'} {features : Features}

/-- Whether two specifications are the same but for alike attributes and places. -/
structure Spec.Alike (L : Likeness source source') (spec spec' : Spec) : Prop where
  inner : spec.inner.Alike L spec'.inner
  name : spec.name = spec'.name
  visibility : spec.visibility = spec'.visibility
  attributes : List.Forall₂ (Attribute.Alike L) spec.attributes spec'.attributes
  location : L.place spec.location spec'.location

/-- Whether the results of two specifications are alike. Two wrappers differ in the item of the
attributes that are passed on at most, and two diagnostics in their places. -/
inductive Outcome.Alike (L : Likeness source source') (spec spec' : Spec) : Outcome → Outcome → Prop
  | generated {name : String} {plan : Plan} (group : Group) (items : List Item) :
      Alike L spec spec'
        (.generated ⟨name, plan, (Wrapper.ofSpec spec).attributeItems group ++ items⟩)
        (.generated ⟨name, plan, (Wrapper.ofSpec spec').attributeItems group ++ items⟩)
  | failed {kind : ErrorKind} {message : String} {name : Option String}
      {location location' : Location} (h : L.place location location') :
      Alike L spec spec' (.failed ⟨kind, message, location, name⟩)
        (.failed ⟨kind, message, location', name⟩)

/-- Whether two specifications, each with its result, are alike. -/
structure AlikeAnswers (L : Likeness source source') (answer answer' : Spec × Outcome) : Prop where
  spec : answer.1.Alike L answer'.1
  result : Outcome.Alike L answer.1 answer'.1 answer.2 answer'.2

/-- Whether two expansions are alike. -/
inductive Expansion.Alike (L : Likeness source source') : Expansion → Expansion → Prop
  /-- The blocks are alike, one by one, and so are the specifications with their results. -/
  | answered {blocks blocks' : List Declaration} {answers answers' : List (Spec × Outcome)}
      (hblocks : List.Forall₂ (Declaration.Alike L) blocks blocks')
      (hanswers : List.Forall₂ (AlikeAnswers L) answers answers') :
      Alike L ⟨blocks, answers.map Prod.fst, answers.map Prod.snd⟩
        ⟨blocks', answers'.map Prod.fst, answers'.map Prod.snd⟩
  | refused {kind : ErrorKind} {message : String} {location location' : Location}
      (h : L.place location location') :
      Alike L ⟨[], [], [.failed ⟨kind, message, location, none⟩]⟩
        ⟨[], [], [.failed ⟨kind, message, location', none⟩]⟩

namespace Likeness

/-! ## Plans -/

theorem failed_alike {spec spec' : Spec} {problem problem' : Problem}
    (h : problem.Alike L problem') (name : Option String) :
    Outcome.Alike L spec spec' (.failed (problem.diagnostic name))
      (.failed (problem'.diagnostic name)) := by
  rw [Problem.diagnostic, Problem.diagnostic, h.cause]
  exact .failed h.location

variable {control control' : Control}

theorem rel_or {α β : Type} {R : α → β → Prop} {x y : Option α} {x' y' : Option β}
    (hx : Option.Rel R x x') (hy : Option.Rel R y y') : Option.Rel R (x.or y) (x'.or y') := by
  cases hx with
  | none => exact hy
  | some h => exact .some h

theorem unsupported_alike (h : control.Alike L control') :
    Option.Rel (Problem.Alike L) (unsupported? control features)
      (unsupported? control' features) := by
  obtain ⟨secret, kind, column⟩ := control
  obtain ⟨secret', kind', column'⟩ := control'
  obtain ⟨hsecret, hkind, hcolumn⟩ := h
  simp only at hsecret hkind hcolumn
  refine rel_or ?_ ?_
  · cases hcolumn with
    | none => exact .none
    | some hcolumn =>
      simp only [bind, Option.bind]
      split
      · exact .none
      · exact .some (.mk rfl hcolumn.location)
  · cases hsecret with
    | none => exact .none
    | some hsecret =>
      simp only [bind, Option.bind, hsecret.serialize]
      split
      · exact .some (.mk rfl hsecret.location)
      · split
        · exact .some (.mk rfl hsecret.location)
        · cases hkind with
          | none => exact .none
          | some hkind =>
            simp only [hkind.kind]
            split
            · exact .some (.mk rfl hkind.location)
            · exact .none

theorem isKind_eq (h : control.Alike L control') (kind : InnerKind) :
    control.isKind kind = control'.isKind kind := by
  have hkind := h.kind
  rw [Control.isKind, Control.isKind]
  generalize control.kind = request, control'.kind = request' at hkind
  cases hkind with
  | none => rfl
  | some hrequest => rw [Option.any_some, Option.any_some, hrequest.kind]

theorem columnMapping_isSome_eq (h : control.Alike L control') :
    control.columnMapping.isSome = control'.columnMapping.isSome := by
  have hcolumn := h.columnMapping
  generalize control.columnMapping = column, control'.columnMapping = column' at hcolumn
  cases hcolumn <;> rfl

theorem planFor_eq (h : control.Alike L control') :
    planFor control features = planFor control' features := by
  have hsecret := h.secret
  rw [planFor, planFor, isKind_eq h, isKind_eq h, columnMapping_isSome_eq h]
  generalize control.secret = secret, control'.secret = secret' at hsecret
  cases hsecret with
  | none => rfl
  | some hrequest => simp only [hrequest.serialize]

theorem columnItems_eq (variant : Variant) (w : Wrapper) (plan : Plan)
    (h : control.Alike L control') :
    columnItems variant w control plan = columnItems variant w control' plan := by
  have hcolumn := h.columnMapping
  rw [columnItems, columnItems]
  generalize control.columnMapping = column, control'.columnMapping = column' at hcolumn
  cases hcolumn with
  | none => rfl
  | some hrequest => simp only [hrequest.sqlType.text]

theorem secret_isNone_eq (h : control.Alike L control') :
    control.secret.isNone = control'.secret.isNone := by
  have hsecret := h.secret
  generalize control.secret = secret, control'.secret = secret' at hsecret
  cases hsecret <;> rfl

/-! ## Results -/

/-- What is supported is written out the same. -/
theorem outcomeOf_eq (w : Wrapper) (h : control.Alike L control')
    (hsupported : unsupported? control features = none)
    (hsupported' : unsupported? control' features = none) :
    outcomeOf w control features = outcomeOf w control' features := by
  unfold outcomeOf
  rw [hsupported, hsupported', planFor_eq h, secret_isNone_eq h]
  simp only
  split
  · simp only [normalItems, columnItems_eq _ _ _ h]
  · simp only [secretItems, columnItems_eq _ _ _ h, secret_isNone_eq h]

/-- Specifications whose wrappers differ in the attributes that are passed on have alike results. -/
theorem outcome_of {spec spec' : Spec} (h : control.Alike L control')
    (hbare : (Wrapper.ofSpec spec).bare = (Wrapper.ofSpec spec').bare) :
    Agree Eq (Outcome.Alike L spec spec') (outcomeOf (.ofSpec spec) control features)
      (outcomeOf (.ofSpec spec') control' features) := by
  have hgroup : control.headGroup = control'.headGroup := by
    rw [Control.headGroup, Control.headGroup, secret_isNone_eq h]
  rw [outcomeOf_eq_bare (.ofSpec spec), outcomeOf_eq_bare (.ofSpec spec'), hbare, hgroup]
  have hproblem := @unsupported_alike _ _ L features _ _ h
  cases hsupported : unsupported? control features with
  | some problem =>
    rw [hsupported] at hproblem
    unfold outcomeOf
    rw [hsupported]
    generalize unsupported? control' features = unsupported at hproblem
    cases hproblem with
    | some hproblem => exact .ok (failed_alike hproblem _)
  | none =>
    have hsupported' : unsupported? control' features = none := by
      rw [hsupported] at hproblem
      generalize unsupported? control' features = unsupported at hproblem
      cases hproblem
      rfl
    rw [outcomeOf_eq _ h hsupported hsupported']
    unfold outcomeOf
    rw [hsupported']
    simp only
    generalize (if control'.secret.isNone then normalItems else secretItems)
      (Wrapper.ofSpec spec').bare control' (planFor control' features) = emitted
    cases emitted with
    | error abort => exact .error rfl
    | ok items => exact .ok (.generated _ items)

/-- Alike specifications have alike results. -/
theorem expand_spec {spec spec' : Spec} (h : spec.Alike L spec') :
    Agree Eq (Outcome.Alike L spec spec') (expandSpec features spec)
      (expandSpec features spec') := by
  have hcontrols := controls_alike h.attributes
  rw [expandSpec_eq, expandSpec_eq]
  generalize controls spec.attributes = asked, controls spec'.attributes = asked' at hcontrols
  cases hcontrols with
  | ok hcontrol =>
    refine outcome_of hcontrol ?_
    simp only [Wrapper.bare, Wrapper.ofSpec, Wrapper.ofParts, h.name, h.inner.text, h.visibility]
  | error hstop =>
    cases hstop with
    | problem hproblem =>
      rw [h.name]
      exact .ok (failed_alike hproblem _)
    | abort abort => exact .error rfl

/-! ## Sources -/

/-- Sources with alike tokens that end at alike places have alike blocks, or fail alike. -/
theorem read_source {s s' : String} {L : Likeness s.toList s'.toList} {ts ts' : List Token}
    (hts : sourceTokens s = .ok ts) (hts' : sourceTokens s' = .ok ts') (h : L.Tokens ts ts')
    (heof : L.place (.ofEnd s.toList) (.ofEnd s'.toList)) :
    Agree (Stop.Alike L) (List.Forall₂ (Declaration.Alike L)) (readSource s) (readSource s') := by
  rw [readSource, readSource, hts, hts']
  exact (reads_blocks h).mapError fun hfault => .problem (problem_of_fault hfault heof)

theorem specs_of {block block' : Declaration} (h : block.Alike L block') :
    List.Forall₂ (Spec.Alike L) block.specs block'.specs := by
  refine List.rel_map (fun decl decl' hdecl => ?_) h.names
  exact .mk h.inner hdecl.name h.visibility (List.rel_append hdecl.attributes h.attributes)
    hdecl.location

theorem specsOf_alike {blocks blocks' : List Declaration}
    (h : List.Forall₂ (Declaration.Alike L) blocks blocks') :
    List.Forall₂ (Spec.Alike L) (specsOf blocks) (specsOf blocks') :=
  List.rel_flatMap h fun _ _ => specs_of

theorem expand_specs {specs specs' : List Spec} (h : List.Forall₂ (Spec.Alike L) specs specs') :
    Agree Eq
      (fun results results' => ∃ answers answers', List.Forall₂ (AlikeAnswers L) answers answers' ∧
        answers.map Prod.fst = specs ∧ answers.map Prod.snd = results ∧
        answers'.map Prod.fst = specs' ∧ answers'.map Prod.snd = results')
      (specs.mapM (expandSpec features)) (specs'.mapM (expandSpec features)) := by
  induction h with
  | nil => exact .ok ⟨[], [], .nil, rfl, rfl, rfl, rfl⟩
  | cons hspec _ ih =>
    rw [List.mapM_cons, List.mapM_cons]
    refine (expand_spec hspec).bind fun hresult => ih.bind fun hresults => ?_
    obtain ⟨answers, answers', hanswers, rfl, rfl, rfl, rfl⟩ := hresults
    exact .ok ⟨(_, _) :: answers, (_, _) :: answers', .cons (.mk hspec hresult) hanswers,
      rfl, rfl, rfl, rfl⟩

/-- Where the blocks of two sources are alike, and so are their problems, the expansions are. -/
theorem expansion_alike {s s' : String}
    (h : Agree (Stop.Alike L) (List.Forall₂ (Declaration.Alike L)) (readSource s) (readSource s')) :
    Agree Eq (Expansion.Alike L) (Expansion.ofSource s features)
      (Expansion.ofSource s' features) := by
  rw [Expansion.ofSource, Expansion.ofSource]
  generalize readSource s = blocks, readSource s' = blocks' at h
  cases h with
  | ok hblocks =>
    refine (expand_specs (specsOf_alike hblocks)).bind fun hresults => ?_
    obtain ⟨answers, answers', hanswers, hspecs, rfl, hspecs', rfl⟩ := hresults
    simp only [← hspecs, ← hspecs']
    exact .ok (.answered hblocks hanswers)
  | error hstop =>
    cases hstop with
    | @problem problem problem' hproblem =>
      simp only [Problem.diagnostic, hproblem.cause]
      exact .ok (.refused hproblem.location)
    | abort abort => exact .error rfl

end Likeness
end Microtypes
