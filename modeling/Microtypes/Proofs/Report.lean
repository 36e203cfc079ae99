import Microtypes.Proofs.Control.Requests
import Microtypes.Proofs.PassingOn
import Microtypes.Proofs.Rust.Emission
import Microtypes.Report.Summary
import Microtypes.Report.Table

/-!
# Reports agree with what is generated

The numbers of a summary and the rows of the plan table are made from the plans of the wrappers.
They agree with the code all the same: a group is counted, and listed, for just those wrappers that
have an item of it (`tallies_of_ofSource`).
-/

namespace Microtypes

variable {source : String} {features : Features} {spec : Spec} {outcome : Outcome} {group : Group}
  {e : Expansion}

/-- Whether an outcome is a wrapper with an item of a group. -/
def Outcome.hasItem (group : Group) : Outcome → Bool
  | .generated wrapper => wrapper.items.any (·.group = group)
  | .failed _ => false

/-- Whether a row of the plan table is that of a wrapper called `name`, and a group is among those
that it lists. -/
def ListsGroup (width : Nat) (name row : String) (group : Group) : Prop :=
  ∃ (variant : Variant) (listed : List Group), group ∈ listed ∧
    row = "  " ++ padRight width name ++ "  " ++ padRight 6 variant.name ++ "  " ++
      ", ".intercalate (listed.map Group.name)

/-- Whether a wrapper has items of just the groups that it is planned to have, and is a secret one
just where a secret is asked for. -/
structure Generated.AsPlanned (wrapper : Generated) (spec : Spec) : Prop where
  groups : ∀ group, (∃ item ∈ wrapper.items, item.group = group) ↔ wrapper.plan.has group = true
  variant : wrapper.plan.variant = .secret ↔
    ∃ a ∈ spec.attributes, a.path = Marker.secret.path

/-- Whether the reports on an expansion agree with its source and its results. -/
structure Expansion.Tallies (e : Expansion) (source label : String) : Prop where
  total : e.counts.normal + e.counts.secret + e.counts.errors =
    max e.counts.microtypes e.counts.errors
  results : e.counts.normal + e.counts.secret + e.counts.errors = e.results.length
  /-- There is one result for each declared name. -/
  declared : ∀ blocks, readSource source = .ok blocks →
    e.counts.microtypes = (blocks.flatMap Declaration.names).length ∧
      e.results.length = (blocks.flatMap Declaration.names).length
  /-- A source that breaks the grammar has one result. -/
  refused : ∀ stop, readSource source = .error stop →
    e.counts.microtypes = 0 ∧ e.results.length = 1
  planned : ∀ wrapper ∈ e.generated, ∃ spec,
    (spec, .generated wrapper) ∈ e.specs.zip e.results ∧ wrapper.AsPlanned spec
  /-- A group is counted for the wrappers that have an item of it. -/
  counted : e.counts.groups =
    Group.all.map fun group => (group.name, (e.results.countP (·.hasItem group) : Int))
  /-- The table lists a group in the rows of these wrappers. -/
  listed : e.specs ≠ [] → ∃ width title rows,
    planTable e label = "\n".intercalate (title :: "" :: rows ++ [""]) ∧
      List.Forall₂ (fun (spec, outcome) row => ∀ group,
        ListsGroup width spec.name row group ↔ outcome.hasItem group = true)
          (e.specs.zip e.results) rows

/-! ## Wrappers -/

theorem hasItem_generated {wrapper : Generated} : (Outcome.generated wrapper).hasItem group = true ↔
    Covers wrapper.items group := by
  simp [Outcome.hasItem, Covers]

theorem asPlanned_of_expandSpec {wrapper : Generated}
    (h : expandSpec features spec = .ok (.generated wrapper)) : wrapper.AsPlanned spec := by
  rw [expandSpec_eq] at h
  split at h
  · next control hcontrols =>
    constructor
    · intro group
      exact covers_iff_of_outcomeOf h
    · rw [(emittedBy_of_outcomeOf h).plan, variant_planFor]
      exact isSome_secret_of_controls hcontrols
  · cases h
  · cases h

/-- The plan of a wrapper asks for the groups that it has items of. -/
theorem has_eq_hasItem {wrapper : Generated}
    (h : expandSpec features spec = .ok (.generated wrapper)) (group : Group) :
    wrapper.plan.has group = (Outcome.generated wrapper).hasItem group := by
  rw [Bool.eq_iff_iff, hasItem_generated]
  exact ((asPlanned_of_expandSpec h).groups group).symm

/-! ## Counts -/

/-- Results are wrappers of one variant or the other, and diagnostics. -/
theorem length_results (e : Expansion) :
    e.counts.normal + e.counts.secret + e.counts.errors = e.results.length := by
  simp only [Expansion.counts, Expansion.generated, Expansion.errors]
  induction e.results with
  | nil => rfl
  | cons outcome results ih =>
    cases outcome with
    | generated wrapper =>
      cases hvariant : wrapper.plan.variant with
      | normal =>
        simp only [List.filterMap_cons, Outcome.generated?, Outcome.failed?, List.countP_cons,
          hvariant, List.length_cons]
        simp
        omega
      | secret =>
        simp only [List.filterMap_cons, Outcome.generated?, Outcome.failed?, List.countP_cons,
          hvariant, List.length_cons]
        simp
        omega
    | failed diagnostic =>
      simp only [List.filterMap_cons, Outcome.generated?, Outcome.failed?, List.length_cons]
      omega

/-! ## The plan table -/

theorem name_ne_nil (group : Group) : group.name.toList ≠ [] := by
  cases group <;> decide +kernel

theorem comma_not_mem_name (group : Group) : ',' ∉ group.name.toList := by
  cases group <;> decide +kernel

theorem name_inj {a b : Group} (h : a.name = b.name) : a = b := by
  have hall : ∀ a ∈ Group.all, ∀ b ∈ Group.all, a.name = b.name → a = b := by decide +kernel
  exact hall a (Group.mem_all a) b (Group.mem_all b) h

/-- Behind the first of the texts that are joined stands a comma or the end. -/
theorem intercalate_eq_append (text : List Char) (texts : List (List Char)) :
    ∃ behind, [',', ' '].intercalate (text :: texts) = text ++ behind ∧
      (∀ c ∈ behind.head?, c = ',') ∧
        behind = if texts = [] then [] else ',' :: ' ' :: [',', ' '].intercalate texts := by
  cases texts with
  | nil => exact ⟨[], by simp, by simp, by simp⟩
  | cons next texts =>
    refine ⟨',' :: ' ' :: [',', ' '].intercalate (next :: texts), ?_, by simp, by simp⟩
    rw [List.intercalate_cons_cons]
    simp

theorem takeWhile_comma {text behind : List Char} (htext : ',' ∉ text)
    (hbehind : ∀ c ∈ behind.head?, c = ',') : (text ++ behind).takeWhile (· ≠ ',') = text := by
  rw [List.takeWhile_append_of_pos]
  · cases behind with
    | nil => simp
    | cons c behind => simp [hbehind c rfl]
  · intro c hc
    refine decide_eq_true ?_
    rintro rfl
    exact htext hc

/-- The names of groups can be told from the text that joins them. -/
theorem names_of_intercalate {as bs : List Group}
    (h : [',', ' '].intercalate (as.map (·.name.toList)) =
      [',', ' '].intercalate (bs.map (·.name.toList))) : as = bs := by
  induction as generalizing bs with
  | nil =>
    cases bs with
    | nil => rfl
    | cons b bs =>
      obtain ⟨behind, hjoin, -, -⟩ := intercalate_eq_append b.name.toList (bs.map (·.name.toList))
      rw [List.map_cons, hjoin] at h
      exact absurd (List.append_eq_nil_iff.mp h.symm).1 (name_ne_nil b)
  | cons a as ih =>
    obtain ⟨behind, hjoin, hcomma, hbehind⟩ :=
      intercalate_eq_append a.name.toList (as.map (·.name.toList))
    rw [List.map_cons, hjoin] at h
    cases bs with
    | nil => exact absurd (List.append_eq_nil_iff.mp h).1 (name_ne_nil a)
    | cons b bs =>
      obtain ⟨behind', hjoin', hcomma', hbehind'⟩ :=
        intercalate_eq_append b.name.toList (bs.map (·.name.toList))
      rw [List.map_cons, hjoin'] at h
      have hname : a.name.toList = b.name.toList := by
        rw [← takeWhile_comma (comma_not_mem_name a) hcomma, h,
          takeWhile_comma (comma_not_mem_name b) hcomma']
      obtain rfl : a = b := name_inj (String.toList_inj.mp hname)
      have hrest : behind = behind' := List.append_cancel_left h
      rw [hbehind, hbehind'] at hrest
      congr 1
      cases as with
      | nil =>
        cases bs with
        | nil => rfl
        | cons b bs => simp at hrest
      | cons a' as =>
        cases bs with
        | nil => simp at hrest
        | cons b' bs =>
          apply ih
          simpa using hrest

/-- What the second column of a row shows for a result. -/
def Outcome.state : Outcome → List Char
  | .generated wrapper => wrapper.plan.variant.name.toList
  | .failed _ => "error ".toList

theorem padRight_variant (variant : Variant) : padRight 6 variant.name = variant.name := by
  cases variant <;> decide +kernel

theorem length_variant (variant : Variant) : variant.name.toList.length = 6 := by
  cases variant <;> decide +kernel

theorem padRight_state (outcome : Outcome) :
    (padRight 6 outcome.columns.1).toList = outcome.state := by
  cases outcome with
  | generated wrapper => exact congrArg String.toList (padRight_variant wrapper.plan.variant)
  | failed diagnostic =>
    have herror : (padRight 6 "error").toList = "error ".toList := by decide +kernel
    exact herror

theorem length_state (outcome : Outcome) : outcome.state.length = 6 := by
  cases outcome with
  | generated wrapper => exact length_variant wrapper.plan.variant
  | failed diagnostic =>
    have herror : "error ".toList.length = 6 := by decide +kernel
    exact herror

/-- No variant is called like an error. -/
theorem state_failed_ne (diagnostic : Diagnostic) (variant : Variant) :
    (Outcome.failed diagnostic).state ≠ variant.name.toList := by
  have hall : ∀ variant : Variant, "error ".toList ≠ variant.name.toList := by
    intro variant
    cases variant <;> decide +kernel
  exact hall variant

/-- The row of a result lists the groups that the result has items of. -/
theorem listsGroup_iff {width : Nat} (h : expandSpec features spec = .ok outcome) :
    ListsGroup width spec.name ("  " ++ padRight width spec.name ++ "  " ++
      padRight 6 outcome.columns.1 ++ "  " ++ outcome.columns.2) group ↔
        outcome.hasItem group = true := by
  constructor
  · rintro ⟨variant, listed, hlisted, hrow⟩
    simp only [String.append_assoc, String.append_right_inj, padRight_variant] at hrow
    have hlists := congrArg String.toList hrow
    simp only [String.toList_append] at hlists
    rw [padRight_state] at hlists
    obtain ⟨hstate, hdetail⟩ :=
      List.append_inj hlists ((length_state outcome).trans (length_variant variant).symm)
    cases outcome with
    | failed diagnostic => exact absurd hstate (state_failed_ne diagnostic variant)
    | generated wrapper =>
      have hgroups : wrapper.plan.groups = listed := by
        have hjoin := List.append_cancel_left hdetail
        simp only [Outcome.columns, String.toList_intercalate, List.map_map] at hjoin
        exact names_of_intercalate hjoin
      rw [← hgroups, Plan.mem_groups] at hlisted
      rw [← has_eq_hasItem h, hlisted]
  · intro hitem
    cases outcome with
    | failed diagnostic => cases hitem
    | generated wrapper =>
      refine ⟨wrapper.plan.variant, wrapper.plan.groups, ?_, rfl⟩
      rw [Plan.mem_groups, has_eq_hasItem h, hitem]

theorem forall₂_planRows {specs : List Spec} {results : List Outcome} (width : Nat)
    (h : List.Forall₂ (fun spec outcome => expandSpec features spec = .ok outcome) specs results) :
    List.Forall₂ (fun (spec, outcome) row => ∀ group,
      ListsGroup width spec.name row group ↔ outcome.hasItem group = true)
        (specs.zip results) (planRows width specs results) := by
  rw [planRows, List.forall₂_map_right_iff, List.forall₂_same]
  rintro ⟨spec, outcome⟩ hmem group
  exact listsGroup_iff (List.forall₂_zip h hmem)

/-! ## Expansions -/

theorem exists_of_mem_generated {wrapper : Generated} (h : wrapper ∈ e.generated) :
    .generated wrapper ∈ e.results := by
  obtain ⟨outcome, houtcome, hwrapper⟩ := List.mem_filterMap.mp h
  cases outcome with
  | generated wrapper' =>
    cases hwrapper
    exact houtcome
  | failed diagnostic => cases hwrapper

theorem exists_zip_of_mem {specs : List Spec} {results : List Outcome}
    (h : List.Forall₂ (fun spec outcome => expandSpec features spec = .ok outcome) specs results)
    (houtcome : outcome ∈ results) :
    ∃ spec, (spec, outcome) ∈ specs.zip results ∧ expandSpec features spec = .ok outcome := by
  induction h with
  | nil => cases houtcome
  | cons hspec _ ih =>
    rcases List.mem_cons.mp houtcome with rfl | houtcome
    · exact ⟨_, List.mem_cons_self, hspec⟩
    · obtain ⟨spec, hmem, hexpand⟩ := ih houtcome
      exact ⟨spec, List.mem_cons_of_mem _ hmem, hexpand⟩

theorem countP_generated {specs : List Spec} {results : List Outcome}
    (h : List.Forall₂ (fun spec outcome => expandSpec features spec = .ok outcome) specs results)
    (group : Group) : (results.filterMap Outcome.generated?).countP (·.plan.has group) =
      results.countP (·.hasItem group) := by
  rw [List.countP_filterMap]
  refine List.countP_congr fun outcome houtcome => ?_
  obtain ⟨spec, -, hexpand⟩ := exists_zip_of_mem h houtcome
  cases outcome with
  | failed diagnostic => rfl
  | generated wrapper =>
    rw [← has_eq_hasItem hexpand]
    rfl

theorem length_specsOf (blocks : List Declaration) :
    (specsOf blocks).length = (blocks.flatMap Declaration.names).length := by
  simp [specsOf, Declaration.specs, List.length_flatMap]

/-- The expansion of a source that is refused. -/
theorem eq_of_ofSource_error {stop : Stop} (hread : readSource source = .error stop)
    (he : Expansion.ofSource source features = .ok e) :
    ∃ diagnostic, e = ⟨[], [], [.failed diagnostic]⟩ := by
  rw [Expansion.ofSource, hread] at he
  cases stop with
  | problem problem =>
    cases he
    exact ⟨_, rfl⟩
  | abort abort => cases he

theorem length_errors_le (e : Expansion) : e.counts.errors ≤ e.results.length := by
  have hle := List.length_filterMap_le Outcome.failed? e.results
  simp only [Expansion.counts, Expansion.errors]
  omega

/-- The table of an expansion with specifications has a row for each of them. -/
theorem planTable_eq (hne : e.specs ≠ []) (label : String) : ∃ width title,
    planTable e label =
      "\n".intercalate (title :: "" :: planRows width e.specs e.results ++ [""]) := by
  have hempty : ¬ e.specs.isEmpty = true := by
    rw [List.isEmpty_iff]
    exact hne
  simp only [planTable, if_neg hempty]
  exact ⟨_, _, rfl⟩

theorem tallies_of_refused (label : String) (diagnostic : Diagnostic)
    (hread : ∀ blocks, readSource source ≠ .ok blocks) :
    Expansion.Tallies ⟨[], [], [.failed diagnostic]⟩ source label where
  total := rfl
  results := rfl
  declared := fun blocks h => absurd h (hread blocks)
  refused := fun _ _ => ⟨rfl, rfl⟩
  planned := fun _ h => absurd h List.not_mem_nil
  counted := rfl
  listed := fun h => absurd rfl h

theorem tallies_of_readSource {blocks : List Declaration} {results : List Outcome} (label : String)
    (hread : readSource source = .ok blocks)
    (h : List.Forall₂ (fun spec outcome => expandSpec features spec = .ok outcome)
      (specsOf blocks) results) :
    Expansion.Tallies ⟨blocks, specsOf blocks, results⟩ source label where
  total := by
    have hlength := length_results ⟨blocks, specsOf blocks, results⟩
    have herrors := length_errors_le ⟨blocks, specsOf blocks, results⟩
    have hspecs : (Expansion.counts ⟨blocks, specsOf blocks, results⟩).microtypes =
        results.length := congrArg Nat.cast h.length_eq
    simp only at hlength herrors
    omega
  results := length_results _
  declared := by
    intro blocks' hread'
    rw [hread] at hread'
    cases hread'
    have hspecs := length_specsOf blocks
    refine ⟨congrArg Nat.cast hspecs, ?_⟩
    rw [← hspecs]
    exact h.length_eq.symm
  refused := by
    intro stop hstop
    rw [hread] at hstop
    cases hstop
  planned := by
    intro wrapper hwrapper
    obtain ⟨spec, hmem, hexpand⟩ := exists_zip_of_mem h (exists_of_mem_generated hwrapper)
    exact ⟨spec, hmem, asPlanned_of_expandSpec hexpand⟩
  counted := by
    refine List.map_congr_left fun group _ => ?_
    rw [← countP_generated h]
    rfl
  listed := by
    intro hne
    obtain ⟨width, title, htable⟩ := planTable_eq hne label
    exact ⟨width, title, _, htable, forall₂_planRows width h⟩

/-- Where there is an expansion, the reports on it agree with it. -/
theorem tallies_of_ofSource (he : Expansion.ofSource source features = .ok e) (label : String) :
    e.Tallies source label := by
  cases hread : readSource source with
  | error stop =>
    obtain ⟨diagnostic, rfl⟩ := eq_of_ofSource_error hread he
    refine tallies_of_refused label diagnostic fun blocks hblocks => ?_
    rw [hread] at hblocks
    cases hblocks
  | ok blocks =>
    obtain ⟨results, hresults, rfl⟩ := results_of_ofSource hread he
    exact tallies_of_readSource label hread (mapM_ok_iff.mp hresults)

/-- A name whose inner type is like a string is counted as one normal wrapper, and listed with the
string operations. -/
theorem tallies_of_ofSource_marked :
    ∃ e, Expansion.ofSource markedSource .default = .ok e ∧ e.Tallies markedSource "types" ∧
      e.counts.normal = 1 ∧ e.results.map (Outcome.hasItem .stringOps) = [true] := by
  obtain ⟨spec, hspec⟩ : ∃ spec, specsOf [markedBlock] = [spec] := ⟨_, rfl⟩
  obtain ⟨wrapper, hwrapper, hvariant, hgroup⟩ :
      ∃ wrapper, expandSpec .default spec = .ok (.generated wrapper) ∧
        wrapper.plan.variant = .normal ∧ wrapper.plan.has .stringOps = true := by
    cases hspec
    exact ⟨_, rfl, rfl, rfl⟩
  have he := ofSource_of_readSource readSource_marked .default
  rw [hspec, List.mapM_cons, hwrapper] at he
  refine ⟨_, he, tallies_of_ofSource he "types", ?_, ?_⟩
  · simp [Expansion.counts, Expansion.generated, Outcome.generated?, hvariant]
  · simp [← has_eq_hasItem hwrapper, hgroup]

end Microtypes
