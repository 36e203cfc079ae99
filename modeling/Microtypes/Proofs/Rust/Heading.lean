import Microtypes.Proofs.Rust.Bare

/-!
# The head of a wrapper

The lines of a wrapper begin with the attributes that are passed on to it. Below them come lines of
attributes that the generator adds, and then the line that defines the wrapper, with no blank line
in between (`defines_of_outcomeOf`).
-/

namespace Microtypes

variable {w : Wrapper} {control : Control} {plan : Plan} {features : Features} {group : Group}
  {lines texts : List String} {items : List Item}

/-! ## Lines of items -/

/-- An item of attribute lines sits on what follows. -/
theorem renderItems_attributes (h : items ≠ []) :
    renderItems (.attributes group lines :: items) = lines ++ renderItems items := by
  obtain ⟨item, items, rfl⟩ := List.exists_cons_of_ne_nil h
  exact congrArg (· ++ _) (List.append_nil lines)

theorem renderItems_passed (h : items ≠ []) :
    renderItems (passedItems group texts ++ items) = texts ++ renderItems items := by
  cases texts with
  | nil => rfl
  | cons text texts => exact renderItems_attributes h

theorem exists_renderItems_code (group : Group) (lines : List String) (items : List Item) :
    ∃ tail, renderItems (.code group lines :: items) = lines ++ tail := by
  cases items with
  | nil => exact ⟨[], (List.append_nil lines).symm⟩
  | cons item items => exact ⟨_, List.append_assoc ..⟩

/-! ## The definition -/

/-- The attribute lines that the generator puts on a definition. -/
def generatorLines : List String := serdeLines ++ secretTypeLines

/-- Whether the lines of items begin with the line that defines the wrapper, below attribute lines
of the generator only. -/
def Defines (w : Wrapper) (items : List Item) : Prop :=
  ∃ marks field tail, renderItems items = marks ++ w.structLine field :: tail ∧
    ∀ line ∈ marks, line ∈ generatorLines

namespace Defines

theorem ne_nil (h : Defines w items) : items ≠ [] := by
  rintro rfl
  obtain ⟨marks, field, tail, hlines, -⟩ := h
  exact List.append_ne_nil_of_right_ne_nil marks (List.cons_ne_nil _ _) hlines.symm

theorem code {marks : List String} (field : String) (more : List String)
    (hmarks : ∀ line ∈ marks, line ∈ generatorLines) :
    Defines w (.code group (marks ++ w.structLine field :: more) :: items) := by
  obtain ⟨tail, hlines⟩ := exists_renderItems_code group (marks ++ w.structLine field :: more) items
  refine ⟨marks, field, more ++ tail, ?_, hmarks⟩
  rw [hlines, List.append_assoc, List.cons_append]

theorem attributes (hlines : ∀ line ∈ lines, line ∈ generatorLines) (h : Defines w items) :
    Defines w (.attributes group lines :: items) := by
  have hne := h.ne_nil
  obtain ⟨marks, field, tail, hitems, hmarks⟩ := h
  refine ⟨lines ++ marks, field, tail, ?_, List.forall_mem_append.mpr ⟨hlines, hmarks⟩⟩
  rw [renderItems_attributes hne, hitems, List.append_assoc]

theorem serde (plan : Plan) (h : Defines w items) : Defines w (serdeItems plan ++ items) := by
  unfold serdeItems itemsIf
  split
  · exact h.attributes fun line hline => List.mem_append_left _ hline
  · exact h

end Defines

theorem defines_normalBase (w : Wrapper) (plan : Plan) (more : List Item) :
    Defines w (normalBase w.bare plan ++ more) := by
  have hmarks : ∀ line ∈ ["#[repr(transparent)]"], line ∈ generatorLines := by
    simp [generatorLines, secretTypeLines]
  simp only [normalBase, List.append_assoc]
  exact (Defines.code s!"pub {w.inner}" [] hmarks).serde plan

theorem defines_secretBase (w : Wrapper) (plan : Plan) (more : List Item) :
    Defines w (secretBase w.bare plan ++ more) := by
  have hcode (field : String) (items : List Item) :
      Defines w (.code .secretWrapper [w.structLine field] :: items) :=
    .code field [] (List.forall_mem_nil _)
  simp only [secretBase, secretStructItems, List.append_assoc, List.cons_append]
  exact ((hcode _ _).serde plan).attributes fun line hline => List.mem_append_right _ hline

theorem defines_normalItems (h : normalItems w.bare control plan = .ok items) :
    Defines w items := by
  obtain ⟨more, -, h⟩ := bind_eq_ok_iff.mp h
  cases h
  exact defines_normalBase w plan more

theorem defines_secretItems (h : secretItems w.bare control plan = .ok items) :
    Defines w items := by
  unfold secretItems at h
  split at h
  · cases h
  · obtain ⟨more, -, h⟩ := bind_eq_ok_iff.mp h
    cases h
    exact defines_secretBase w plan more

/-- What becomes of a bare wrapper begins with its definition. -/
theorem defines_of_outcomeOf {wrapper : Generated}
    (h : outcomeOf w.bare control features = .ok (.generated wrapper)) :
    Defines w wrapper.items := by
  unfold outcomeOf at h
  split at h
  · cases h
  · obtain ⟨items, hitems, h⟩ := bind_eq_ok_iff.mp h
    cases h
    split at hitems
    · exact defines_normalItems hitems
    · exact defines_secretItems hitems

end Microtypes
