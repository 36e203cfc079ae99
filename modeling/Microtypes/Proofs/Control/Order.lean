import Microtypes.Proofs.Expansion
import Microtypes.Proofs.Grammar.Likeness

/-!
# The order of attributes

What the attributes of a specification come to depends on which attributes they are, and not on
their order. In another order they are granted the same, or they break the same rule first, perhaps
at another place (`sameAnswer_of_perm`): a rule that is broken by two attributes stays broken
wherever they stand, and a request is read from the only attribute of its kind.
-/

namespace Microtypes

variable {attrs attrs' : List Attribute} {spec spec' : Spec} {features : Features}

/-- Whether two runs end early for the same cause, whichever place is blamed. -/
inductive Stop.SameCause : Stop → Stop → Prop
  | problem {problem problem' : Problem} (h : problem.cause = problem'.cause) :
      SameCause (.problem problem) (.problem problem')
  | abort (abort : Abort) : SameCause (.abort abort) (.abort abort)

theorem Stop.SameCause.refl (stop : Stop) : stop.SameCause stop := by
  cases stop with
  | problem problem => exact .problem rfl
  | abort abort => exact .abort abort

/-- A run agrees with itself. -/
theorem agree_sameCause_refl {α : Type} (run : Except Stop α) :
    Agree Stop.SameCause Eq run run := by
  cases run with
  | ok result => exact .ok rfl
  | error stop => exact .error (.refl stop)

/-! ## Attributes in another order -/

theorem passedOn_perm (h : attrs.Perm attrs') : (passedOn attrs).Perm (passedOn attrs') :=
  h.filter _

/-- The only attribute of a kind is found in any order, and two of them are refused in any order. -/
theorem markerAt_perm (marker : Marker) (h : attrs.Perm attrs') :
    Agree Stop.SameCause Eq (markerAt marker attrs) (markerAt marker attrs') := by
  have hat : (attributesAt marker.path attrs).Perm (attributesAt marker.path attrs') := h.filter _
  rw [markerAt, markerAt]
  generalize attributesAt marker.path attrs = found, attributesAt marker.path attrs' = found' at hat
  rcases found with _ | ⟨only, _ | ⟨second, more⟩⟩
  · obtain rfl := List.nil_perm.mp hat
    exact .ok rfl
  · obtain rfl := List.singleton_perm.mp hat
    exact .ok rfl
  · rcases found' with _ | ⟨first', _ | ⟨second', more'⟩⟩
    · cases List.perm_nil.mp hat
    · cases List.perm_singleton.mp hat
    · exact .error (.problem rfl)

theorem secretControl_perm (h : attrs.Perm attrs') :
    Agree Stop.SameCause Eq (secretControl attrs) (secretControl attrs') := by
  rw [secretControl, secretControl]
  refine (markerAt_perm .secret h).bind ?_
  rintro found _ rfl
  exact agree_sameCause_refl _

theorem kindControl_perm (h : attrs.Perm attrs') :
    Agree Stop.SameCause Eq (kindControl attrs) (kindControl attrs') := by
  rw [kindControl, kindControl]
  refine (markerAt_perm .string h).bind ?_
  rintro string _ rfl
  refine (markerAt_perm .int h).bind ?_
  rintro int _ rfl
  exact agree_sameCause_refl _

theorem columnControl_perm (h : attrs.Perm attrs') :
    Agree Stop.SameCause Eq (columnControl attrs) (columnControl attrs') := by
  rw [columnControl, columnControl]
  refine (markerAt_perm .columnMapping h).bind ?_
  rintro found _ rfl
  exact agree_sameCause_refl _

/-- The same is asked for in any order, at the same places, or the same rule is broken first. -/
theorem controls_perm (h : attrs.Perm attrs') :
    Agree Stop.SameCause Eq (controls attrs) (controls attrs') := by
  rw [controls_eq, controls_eq]
  refine (secretControl_perm h).bind ?_
  rintro secret _ rfl
  refine (kindControl_perm h).bind ?_
  rintro kind _ rfl
  refine (columnControl_perm h).bind ?_
  rintro columnMapping _ rfl
  exact .ok rfl

/-! ## Specifications -/

/-- Whether two outcomes are wrappers of the same name and plan, or the same diagnostic. -/
inductive Outcome.SamePlan : Outcome → Outcome → Prop
  | generated {wrapper wrapper' : Generated} (hname : wrapper.name = wrapper'.name)
      (hplan : wrapper.plan = wrapper'.plan) : SamePlan (.generated wrapper) (.generated wrapper')
  | failed (diagnostic : Diagnostic) : SamePlan (.failed diagnostic) (.failed diagnostic)

/-- Whether the attributes of two specifications come to the same. -/
inductive Spec.SameAnswer (spec spec' : Spec) : Prop
  /-- The same is asked for at the same places, and the same attributes are passed on in some order.
  Then both can be had, with the same plan, or both are refused by the same diagnostic. -/
  | granted {control : Control} (h : controls spec.attributes = .ok control)
      (h' : controls spec'.attributes = .ok control)
      (hpassed : (passedOn spec.attributes).Perm (passedOn spec'.attributes))
      (houtcomes : ∀ features, ∃ outcome outcome',
        outcomeOf (.ofSpec spec) control features = .ok outcome ∧
          outcomeOf (.ofSpec spec') control features = .ok outcome' ∧
          outcome.SamePlan outcome')
  /-- The same is reported, perhaps at different places. -/
  | refused {problem problem' : Problem} (h : controls spec.attributes = .error (.problem problem))
      (h' : controls spec'.attributes = .error (.problem problem'))
      (hkind : (problem.diagnostic (some spec.name)).kind =
        (problem'.diagnostic (some spec'.name)).kind)
      (hmessage : (problem.diagnostic (some spec.name)).message =
        (problem'.diagnostic (some spec'.name)).message)
      (hname : (problem.diagnostic (some spec.name)).name =
        (problem'.diagnostic (some spec'.name)).name)
  | aborted {abort : Abort} (h : controls spec.attributes = .error (.abort abort))
      (h' : controls spec'.attributes = .error (.abort abort))

/-- What a wrapper is refused for depends on its requests and its name, and so does its plan. -/
theorem samePlan_of_outcomeOf {w w' : Wrapper} (hname : w.name = w'.name) (control : Control)
    (features : Features) : ∃ outcome outcome', outcomeOf w control features = .ok outcome ∧
      outcomeOf w' control features = .ok outcome' ∧ outcome.SamePlan outcome' := by
  obtain ⟨outcome, hw, -⟩ := outcomeOf_ok w control features
  obtain ⟨outcome', hw', -⟩ := outcomeOf_ok w' control features
  refine ⟨outcome, outcome', hw, hw', ?_⟩
  unfold outcomeOf at hw hw'
  cases hsupported : unsupported? control features with
  | some problem =>
    rw [hsupported] at hw hw'
    cases hw
    cases hw'
    rw [hname]
    exact .failed _
  | none =>
    rw [hsupported] at hw hw'
    simp only [bind, Except.bind] at hw hw'
    split at hw
    · cases hw
    · split at hw'
      · cases hw'
      · cases hw
        cases hw'
        exact .generated hname rfl

/-- Attributes in another order come to the same. -/
theorem sameAnswer_of_perm (hname : spec.name = spec'.name)
    (hattrs : spec.attributes.Perm spec'.attributes) : spec.SameAnswer spec' := by
  rcases (controls_perm hattrs).cases with
    ⟨control, _, hcontrol, hcontrol', rfl⟩ | ⟨_, _, hstop, hstop', hcause⟩
  · exact .granted hcontrol hcontrol' (passedOn_perm hattrs)
      (@samePlan_of_outcomeOf (.ofSpec spec) (.ofSpec spec') hname control)
  · cases hcause with
    | problem hcause =>
      refine .refused hstop hstop' ?_ ?_ (congrArg some hname)
      · exact congrArg Cause.kind hcause
      · exact congrArg Cause.message hcause
    | abort => exact .aborted hstop hstop'

/-- Two attributes `secret` around `string` are refused in either order, each time for the one that
comes second. -/
theorem sameAnswer_of_perm_twice :
    ∃ spec spec' : Spec, spec.name = spec'.name ∧ spec.attributes.Perm spec'.attributes ∧
      controls spec.attributes = .error (.of (.control (.duplicate "secret")) ⟨1, 20⟩) ∧
      controls spec'.attributes = .error (.of (.control (.duplicate "secret")) ⟨1, 1⟩) ∧
      spec.SameAnswer spec' := by
  obtain ⟨attrs, hattrs⟩ : ∃ attrs : List Attribute, attrs =
      [⟨"secret", .bare, "#[secret]", ⟨1, 20⟩⟩, ⟨"string", .bare, "#[string]", ⟨1, 10⟩⟩,
        ⟨"secret", .bare, "#[secret]", ⟨1, 1⟩⟩] := ⟨_, rfl⟩
  refine ⟨⟨⟨"A", ⟨1, 29⟩⟩, "B", "", attrs.reverse, ⟨1, 31⟩⟩,
    ⟨⟨"A", ⟨1, 29⟩⟩, "B", "", attrs, ⟨1, 31⟩⟩, rfl, attrs.reverse_perm, ?_, ?_,
    sameAnswer_of_perm rfl attrs.reverse_perm⟩
  · subst hattrs
    rfl
  · subst hattrs
    rfl

end Microtypes
