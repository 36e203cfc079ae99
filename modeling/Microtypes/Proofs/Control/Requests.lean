import Microtypes.Control.Reader

/-!
# Requests come from attributes

What is asked for by control attributes is read from the only attribute of each kind. So there is a
request for a secret if and only if there is a secret attribute (`isSome_secret_of_controls`), and
the type of a column stands in the arguments of a column attribute (`column_of_controls`). The
attributes that ask for nothing are passed on (`passedOn_eq_filter`).
-/

namespace Microtypes

variable {attributes : List Attribute} {control : Control} {marker : Marker}
  {found : Option Attribute} {a : Attribute} {type : WrittenType} {mapping : ColumnRequest}

theorem controls_ok_iff : controls attributes = .ok control ↔
    secretControl attributes = .ok control.secret ∧ kindControl attributes = .ok control.kind ∧
      columnControl attributes = .ok control.columnMapping := by
  obtain ⟨secret, kind, columnMapping⟩ := control
  simp only [controls_eq, bind, Except.bind]
  cases secretControl attributes with
  | error stop => simp
  | ok secret' =>
    cases kindControl attributes with
    | error stop => simp
    | ok kind' =>
      cases columnControl attributes with
      | error stop => simp
      | ok columnMapping' => simp [pure, Except.pure]

theorem isControl_iff (a : Attribute) :
    a.isControl = true ↔ a.path ∈ ["secret", "string", "int", "diesel"] := by
  rw [Attribute.isControl, List.any_eq_true]
  simp only [beq_iff_eq]
  exact List.mem_map.symm

/-- The attributes that are passed on are those with none of the four paths. -/
theorem passedOn_eq_filter (attributes : List Attribute) : passedOn attributes =
    attributes.filter fun a => a.path ∉ ["secret", "string", "int", "diesel"] := by
  rw [passedOn]
  congr 1
  funext a
  rw [Bool.eq_iff_iff, decide_eq_true_iff, ← isControl_iff, Bool.not_eq_true, Bool.not_eq_true']

/-- An attribute of a kind is found if it is the only one of this kind. -/
theorem markerAt_ok_iff : markerAt marker attributes = .ok found ↔
    attributesAt marker.path attributes = found.toList := by
  unfold markerAt
  rcases attributesAt marker.path attributes with _ | ⟨only, _ | ⟨second, more⟩⟩
  · cases found <;> simp
  · cases found <;> simp
  · cases found <;> simp

/-- A request for a secret comes from an attribute. -/
theorem isSome_secret_of_controls (h : controls attributes = .ok control) :
    control.secret.isSome = true ↔ ∃ a ∈ attributes, a.path = Marker.secret.path := by
  have hmem : (∃ a ∈ attributes, a.path = Marker.secret.path) ↔
      attributesAt Marker.secret.path attributes ≠ [] := by
    simp [attributesAt]
  obtain ⟨found, hmarker, hsecret⟩ := bind_eq_ok_iff.mp (controls_ok_iff.mp h).1
  rw [hmem, markerAt_ok_iff.mp hmarker]
  cases found with
  | none =>
    have hnone : none = control.secret := Except.ok.inj hsecret
    simp [← hnone]
  | some marker =>
    obtain ⟨request, -, hrequest⟩ := bind_eq_ok_iff.mp hsecret
    have hsome : some request = control.secret := Except.ok.inj hrequest
    simp [← hsome]

/-- The type of a column is what stands behind the key and the equals sign. -/
theorem readWholeType_of_readColumnType (h : readColumnType a = .ok type) :
    readWholeType (a.arguments.drop 2) = .ok type := by
  unfold readColumnType at h
  split at h
  · next key rest hform =>
    split at h
    · cases h
    · split at h
      · cases h
      · next equals tokens =>
        split at h
        · cases h
        · split at h
          · cases h
          · rw [Attribute.arguments, hform]
            exact mapError_eq_ok_iff.mp h
  · cases h

/-- The type of a column comes from a column attribute. -/
theorem column_of_controls (h : controls attributes = .ok control)
    (hmapping : control.columnMapping = some mapping) :
    ∃ a ∈ attributesAt Marker.columnMapping.path attributes,
      readColumnType a = .ok mapping.sqlType := by
  have hcolumn := (controls_ok_iff.mp h).2.2
  rw [hmapping] at hcolumn
  obtain ⟨found, hmarker, hcolumn⟩ := bind_eq_ok_iff.mp hcolumn
  cases found with
  | none => cases hcolumn
  | some marker =>
    obtain ⟨type, htype, hcolumn⟩ := bind_eq_ok_iff.mp hcolumn
    cases hcolumn
    refine ⟨marker, ?_, mapError_eq_ok_iff.mp htype⟩
    rw [markerAt_ok_iff.mp hmarker]
    exact List.mem_singleton_self marker

end Microtypes
