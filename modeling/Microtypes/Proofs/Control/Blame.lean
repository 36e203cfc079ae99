import Microtypes.Capability.Plan
import Microtypes.Proofs.Control.Rules
import Microtypes.Proofs.Grammar.Citation

/-!
# Where control attributes are blamed

A problem of a list of attributes is at one of them or at an argument of it, and quotes no token but
the argument at its place (`blamed_of_controls`). What is asked for and cannot be had is blamed on
an attribute that asks for it (`blamed_of_unsupported`).
-/

namespace Microtypes

variable {attrs : List Attribute} {a : Attribute} {marker : Marker} {problem : Problem}
  {control : Control} {features : Features} {depth : Int} {tokens ts : List Token}

/-- The text of a token that the message of a cause quotes. -/
def Cause.cited? : Cause → Option String
  | .grammatical cause => cause.cited?
  | .control (.columnKey found) => some found
  | .lexical _ | .control _ | .unsupported _ => none

/-- What else is put into the message of a cause. -/
def Cause.named? : Cause → Option String
  | .grammatical cause => cause.needed?
  | .control (.duplicate path) => some path
  | .lexical _ | .control _ | .unsupported _ => none

/-- Whether a problem quotes no token but one that stands at its place, and what else is put into
its message stands on one line. -/
structure Problem.Cites (ts : List Token) (problem : Problem) : Prop where
  quotes : ∀ text ∈ problem.cause.cited?, ∃ t ∈ ts, t.location = problem.location ∧ t.text = text
  names : ∀ name ∈ problem.cause.named?, '\n' ∉ name.toList

/-- Whether a problem is at an attribute or at one of its arguments, and quotes no token but the
argument at its place. -/
structure Attribute.Blamed (a : Attribute) (problem : Problem) : Prop where
  place : problem.location = a.location ∨ ∃ t ∈ a.arguments, problem.location = t.location
  cites : problem.Cites a.arguments

namespace Problem

theorem Cites.of_fixed (hcited : problem.cause.cited? = none)
    (hnamed : problem.cause.named? = none) : problem.Cites ts where
  quotes _ h := by
    rw [hcited] at h
    cases h
  names _ h := by
    rw [hnamed] at h
    cases h

theorem Cites.mono (h : problem.Cites tokens) (hsubset : tokens ⊆ ts) : problem.Cites ts where
  quotes text htext := by
    obtain ⟨t, ht, hplace, hquoted⟩ := h.quotes text htext
    exact ⟨t, hsubset ht, hplace, hquoted⟩
  names := h.names

end Problem

/-- A syntax fault quotes a token only where there is one. -/
theorem cites_of_fault {fault : SyntaxFault} (h : fault.Cites) (hrest : fault.rest <:+ ts)
    (eof : Location) : (fault.problem eof).Cites ts where
  quotes text htext := by
    have hquoted := h.quotes text htext
    obtain ⟨cause, rest⟩ := fault
    cases rest with
    | nil => cases hquoted
    | cons t rest => exact ⟨t, hrest.subset List.mem_cons_self, rfl, Option.some.inj hquoted⟩
  names := h.needs

/-- A syntax fault is at one of the tokens, or where they are said to end. -/
theorem location_of_fault {fault : SyntaxFault} (hrest : fault.rest <:+ ts) (eof : Location) :
    fault.location eof = eof ∨ ∃ t ∈ ts, fault.location eof = t.location := by
  obtain ⟨cause, rest⟩ := fault
  cases rest with
  | nil => exact .inl rfl
  | cons t rest => exact .inr ⟨t, hrest.subset List.mem_cons_self, rfl⟩

/-! ## Reading attributes -/

theorem mem_of_mem_attributesAt {path : String} (h : a ∈ attributesAt path attrs) : a ∈ attrs :=
  (List.mem_filter.mp h).1

/-- A marker that is given twice is blamed on the second attribute. -/
theorem blamed_of_markerAt (h : markerAt marker attrs = .error (.problem problem)) :
    ∃ a ∈ attrs, a.Blamed problem := by
  unfold markerAt at h
  split at h
  · cases h
  · cases h
  · next second _ htwice =>
    cases h
    have hmem : second ∈ attributesAt marker.path attrs := by simp [htwice]
    refine ⟨second, mem_of_mem_attributesAt hmem, .inl rfl, ?_, ?_⟩
    · rintro _ ⟨⟩
    · rintro _ ⟨⟩
      cases marker <;> exact feed_not_mem_of_chars rfl (by decide)

/-- The pieces between commas hold tokens of the list only. -/
theorem mem_of_mem_commaPieces {piece : List Token} {t : Token}
    (h : piece ∈ commaPieces depth tokens) (ht : t ∈ piece) : t ∈ tokens := by
  induction tokens generalizing depth piece with
  | nil =>
    obtain rfl := List.mem_singleton.mp h
    cases ht
  | cons token rest ih =>
    rw [commaPieces] at h
    split at h
    · rcases List.mem_cons.mp h with rfl | h
      · cases ht
      · exact List.mem_cons_of_mem _ (ih h ht)
    · split at h
      · next hnone => exact absurd hnone (commaPieces_ne_nil _ _)
      · next first pieces hpieces =>
        rcases List.mem_cons.mp h with rfl | h
        · rcases List.mem_cons.mp ht with rfl | ht
          · exact List.mem_cons_self
          · exact List.mem_cons_of_mem _ (ih (hpieces ▸ List.mem_cons_self) ht)
        · exact List.mem_cons_of_mem _ (ih (hpieces ▸ List.mem_cons_of_mem _ h) ht)

theorem mem_of_mem_argumentLists {argument : List Token} {t : Token}
    (h : argument ∈ argumentLists tokens) (ht : t ∈ argument) : t ∈ tokens := by
  unfold argumentLists at h
  simp only at h
  split at h
  · exact mem_of_mem_commaPieces ((List.dropLast_subset _ h)) ht
  · exact mem_of_mem_commaPieces h ht

theorem offendingArgument_mem {arguments : List (List Token)} (h : arguments ≠ []) :
    offendingArgument arguments ∈ arguments := by
  unfold offendingArgument
  cases hfind : arguments.find? (!isSerializeWord ·) with
  | some argument => exact List.mem_of_find?_eq_some hfind
  | none =>
    rw [Option.getD_none, List.getLastD_eq_getLast?, List.getLast?_eq_some_getLast h,
      Option.getD_some]
    exact List.getLast_mem h

theorem blamed_of_readSecret (h : readSecret a = .error (.problem problem)) : a.Blamed problem := by
  have hcites (place : Location) : Problem.Cites a.arguments ⟨.control .secretForm, place⟩ :=
    .of_fixed rfl rfl
  have hfirst : a.Blamed ⟨.control .secretForm,
      (a.arguments.head?.map (·.location)).getD a.location⟩ := by
    refine ⟨?_, hcites _⟩
    cases a.arguments with
    | nil => exact .inl rfl
    | cons t rest => exact .inr ⟨t, List.mem_cons_self, rfl⟩
  unfold readSecret at h
  split at h
  · cases h
  · cases h
    exact hfirst
  · cases h
    exact hfirst
  · cases h
    exact hfirst
  · next tokens hform =>
    split at h
    · cases h
    · next argument others hlists =>
      split at h
      · cases h
      · split at h
        · cases h
        · next t rest hoffending =>
          cases h
          have hargument := offendingArgument_mem (List.cons_ne_nil argument others)
          rw [hoffending, ← hlists] at hargument
          have ht := mem_of_mem_argumentLists hargument List.mem_cons_self
          exact ⟨.inr ⟨t, by rwa [Attribute.arguments, hform], rfl⟩, hcites _⟩

theorem blamed_of_readColumnType (hp : ∀ t ∈ lexemes a.arguments, t.Proper)
    (h : readColumnType a = .error problem) : a.Blamed problem := by
  unfold readColumnType at h
  split at h
  · next key rest hform =>
    have hargs : a.arguments = key :: rest := by rw [Attribute.arguments, hform]
    have hat (t : Token) (ht : t ∈ key :: rest) (cause : ControlCause)
        (hcited : ∀ text ∈ Cause.cited? (.control cause), t.text = text)
        (hnamed : Cause.named? (.control cause) = none) :
        a.Blamed ⟨.control cause, t.location⟩ := by
      refine ⟨.inr ⟨t, hargs ▸ ht, rfl⟩, fun text htext => ?_, fun _ hname => ?_⟩
      · exact ⟨t, hargs ▸ ht, rfl, hcited text htext⟩
      · rw [hnamed] at hname
        cases hname
    split at h
    · cases h
      exact hat key List.mem_cons_self _ (fun _ htext => Option.some.inj htext) rfl
    · split at h
      · cases h
        exact hat key List.mem_cons_self _ (by rintro _ ⟨⟩) rfl
      · next equals type =>
        have hequals : equals ∈ key :: equals :: type := List.mem_cons_of_mem _ List.mem_cons_self
        split at h
        · cases h
          exact hat equals hequals _ (by rintro _ ⟨⟩) rfl
        · split at h
          · cases h
            exact hat equals hequals _ (by rintro _ ⟨⟩) rfl
          · next last hlast =>
            have htype : type ⊆ a.arguments := by
              rw [hargs]
              exact fun t ht => List.mem_cons_of_mem _ (List.mem_cons_of_mem _ ht)
            obtain ⟨fault, hread, rfl⟩ := mapError_eq_error_iff.mp h
            have hrest := suffix_of_readWholeType
              (fun t ht => hp t (List.map_subset _ htype ht)) hread
            refine ⟨.inr ?_, (cites_of_fault (cites_readWholeType hread) hrest _).mono htype⟩
            rcases location_of_fault hrest last.location with hplace | ⟨t, ht, hplace⟩
            · exact ⟨last, htype (List.mem_of_getLast? hlast), hplace⟩
            · exact ⟨t, htype ht, hplace⟩
  · cases h
    exact ⟨.inl rfl, .of_fixed rfl rfl⟩

/-! ## All control attributes -/

theorem mem_of_markerAt (h : markerAt marker attrs = .ok (some a)) : a ∈ attrs := by
  have hmem : a ∈ attributesAt marker.path attrs := by simp [markerAt_ok_iff.mp h]
  exact mem_of_mem_attributesAt hmem

theorem blamed_of_secretControl (h : secretControl attrs = .error (.problem problem)) :
    ∃ a ∈ attrs, a.Blamed problem := by
  obtain hmarker | ⟨found, hmarker, h⟩ := bind_eq_error_iff.mp h
  · exact blamed_of_markerAt hmarker
  · cases found with
    | none => cases h
    | some marker =>
      obtain hread | ⟨request, -, h⟩ := bind_eq_error_iff.mp h
      · exact ⟨marker, mem_of_markerAt hmarker, blamed_of_readSecret hread⟩
      · cases h

theorem blamed_of_kindControl (h : kindControl attrs = .error (.problem problem)) :
    ∃ a ∈ attrs, a.Blamed problem := by
  obtain hstring | ⟨string, hstring, h⟩ := bind_eq_error_iff.mp h
  · exact blamed_of_markerAt hstring
  · obtain hint | ⟨int, hint, h⟩ := bind_eq_error_iff.mp h
    · exact blamed_of_markerAt hint
    · cases string with
      | none => cases int <;> cases h
      | some s =>
        cases int with
        | none => cases h
        | some i =>
          cases h
          rcases Location.later_eq_or s.location i.location with hplace | hplace
          · exact ⟨s, mem_of_markerAt hstring, .inl hplace, .of_fixed rfl rfl⟩
          · exact ⟨i, mem_of_markerAt hint, .inl hplace, .of_fixed rfl rfl⟩

theorem blamed_of_columnControl (hp : ∀ a ∈ attrs, ∀ t ∈ lexemes a.arguments, t.Proper)
    (h : columnControl attrs = .error (.problem problem)) : ∃ a ∈ attrs, a.Blamed problem := by
  obtain hmarker | ⟨found, hmarker, h⟩ := bind_eq_error_iff.mp h
  · exact blamed_of_markerAt hmarker
  · cases found with
    | none => cases h
    | some marker =>
      obtain h | ⟨type, -, h⟩ := bind_eq_error_iff.mp h
      · obtain ⟨problem', hread, hwrapped⟩ := mapError_eq_error_iff.mp h
        cases hwrapped
        have hmem := mem_of_markerAt hmarker
        exact ⟨marker, hmem, blamed_of_readColumnType (hp marker hmem) hread⟩
      · cases h

/-- The control attributes are refused for one of the attributes. -/
theorem blamed_of_controls (hp : ∀ a ∈ attrs, ∀ t ∈ lexemes a.arguments, t.Proper)
    (h : controls attrs = .error (.problem problem)) : ∃ a ∈ attrs, a.Blamed problem := by
  rw [controls_eq] at h
  obtain hsecret | ⟨secret, -, h⟩ := bind_eq_error_iff.mp h
  · exact blamed_of_secretControl hsecret
  · obtain hkind | ⟨kind, -, h⟩ := bind_eq_error_iff.mp h
    · exact blamed_of_kindControl hkind
    · obtain hcolumn | ⟨columnMapping, -, h⟩ := bind_eq_error_iff.mp h
      · exact blamed_of_columnControl hp hcolumn
      · cases h

/-! ## What cannot be had -/

theorem Settles.wanted {α : Type} {rules : List ControlRule} {Wanted : α → Prop} {result : α}
    (h : Settles attrs rules Wanted (.ok result)) : Wanted result := by
  cases h with
  | granted _ hresult => exact hresult

theorem mem_of_head?_attributesAt {path : String} (h : (attributesAt path attrs).head? = some a) :
    a ∈ attrs :=
  mem_of_mem_attributesAt (List.mem_of_mem_head? h)

/-- Every request is at the attribute that makes it. -/
theorem exists_secret_of_controls {request : SecretRequest} (h : controls attrs = .ok control)
    (hrequest : control.secret = some request) : ∃ a ∈ attrs, request.location = a.location := by
  have hsecret := (controls_ok_iff.mp h).1
  have hsettles := settles_secretControl fun abort habort => by
    cases hsecret.symm.trans habort
  rw [hsecret, hrequest] at hsettles
  have hasks := hsettles.wanted
  generalize hfound : (attributesAt Marker.secret.path attrs).head? = found at hasks
  cases hasks with
  | some hasks => exact ⟨_, mem_of_head?_attributesAt hfound, hasks.2⟩

theorem exists_kind_of_controls {request : KindRequest} (h : controls attrs = .ok control)
    (hrequest : control.kind = some request) : ∃ a ∈ attrs, request.location = a.location := by
  have hsettles := settles_kindControl attrs
  rw [(controls_ok_iff.mp h).2.1, hrequest] at hsettles
  rcases Option.or_eq_some_iff.mp hsettles.wanted.symm with hstring | ⟨-, hint⟩
  · obtain ⟨a, ha, rfl⟩ := Option.map_eq_some_iff.mp hstring
    exact ⟨a, mem_of_head?_attributesAt ha, rfl⟩
  · obtain ⟨a, ha, rfl⟩ := Option.map_eq_some_iff.mp hint
    exact ⟨a, mem_of_head?_attributesAt ha, rfl⟩

theorem exists_column_of_controls {request : ColumnRequest} (h : controls attrs = .ok control)
    (hrequest : control.columnMapping = some request) :
    ∃ a ∈ attrs, request.location = a.location := by
  have hsettles := settles_columnControl attrs
  rw [(controls_ok_iff.mp h).2.2, hrequest] at hsettles
  have hasks := hsettles.wanted
  generalize hfound : (attributesAt Marker.columnMapping.path attrs).head? = found at hasks
  cases hasks with
  | some hasks => exact ⟨_, mem_of_head?_attributesAt hfound, hasks.2⟩

/-- A combination that is not supported is reported at a request that takes part in it. -/
theorem request_of_unsupported (h : unsupported? control features = some problem) :
    (∃ cause, problem.cause = .unsupported cause) ∧
      ((∃ request, control.secret = some request ∧ problem.location = request.location) ∨
        (∃ request, control.kind = some request ∧ problem.location = request.location) ∨
        ∃ request, control.columnMapping = some request ∧ problem.location = request.location) := by
  unfold unsupported? at h
  rcases Option.or_eq_some_iff.mp h with hcolumn | ⟨-, hsecret⟩
  · obtain ⟨mapping, hmapping, hproblem⟩ := Option.bind_eq_some_iff.mp hcolumn
    split at hproblem
    · cases hproblem
    · cases hproblem
      exact ⟨⟨_, rfl⟩, .inr (.inr ⟨mapping, hmapping, rfl⟩)⟩
  · obtain ⟨marker, hmarker, hproblem⟩ := Option.bind_eq_some_iff.mp hsecret
    split at hproblem
    · cases hproblem
      exact ⟨⟨_, rfl⟩, .inl ⟨marker, hmarker, rfl⟩⟩
    · split at hproblem
      · cases hproblem
        exact ⟨⟨_, rfl⟩, .inl ⟨marker, hmarker, rfl⟩⟩
      · obtain ⟨kind, hkind, hproblem⟩ := Option.bind_eq_some_iff.mp hproblem
        split at hproblem
        · cases hproblem
          exact ⟨⟨_, rfl⟩, .inr (.inl ⟨kind, hkind, rfl⟩)⟩
        · cases hproblem

/-- What cannot be had is blamed on an attribute. -/
theorem blamed_of_unsupported (hcontrol : controls attrs = .ok control)
    (h : unsupported? control features = some problem) : ∃ a ∈ attrs, a.Blamed problem := by
  obtain ⟨⟨cause, hcause⟩, hplace⟩ := request_of_unsupported h
  have hcites (ts : List Token) : problem.Cites ts :=
    .of_fixed (by rw [hcause]; rfl) (by rw [hcause]; rfl)
  have hat : ∃ a ∈ attrs, problem.location = a.location := by
    rcases hplace with ⟨_, hsecret, hplace⟩ | ⟨_, hkind, hplace⟩ | ⟨_, hcolumn, hplace⟩
    · rw [hplace]
      exact exists_secret_of_controls hcontrol hsecret
    · rw [hplace]
      exact exists_kind_of_controls hcontrol hkind
    · rw [hplace]
      exact exists_column_of_controls hcontrol hcolumn
  obtain ⟨a, ha, hplace⟩ := hat
  exact ⟨a, ha, .inl hplace, hcites _⟩

end Microtypes
