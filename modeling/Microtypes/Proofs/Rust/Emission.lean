import Microtypes.Expansion

/-!
# What is written out for a wrapper

A wrapper is written out as planned: it has an item of each group that its plan asks for, and of no
other group (`covers_iff_of_outcomeOf`).
-/

namespace Microtypes

variable {w : Wrapper} {control : Control} {features : Features} {plan : Plan} {g : Generated}
  {variant : Variant} {items more : List Item} {group : Group}

/-! ## Inversion -/

/-- The items that convert from and to a column of a type. -/
def columnPair (variant : Variant) (w : Wrapper) (sqlType : String) : List Item :=
  [fromColumnImpl w.name w.inner sqlType (constructorOf variant w.name),
    toColumnImpl w.name w.inner sqlType (borrowOf variant w.name)].map (.code .columnMapping)

/-- The column conversions are there if they are planned, and then for the type that is given. -/
theorem columnItems_ok_iff : columnItems variant w control plan = .ok items ↔
    (plan.columnMapping = false ∧ items = []) ∨
      ∃ mapping, plan.columnMapping = true ∧ control.columnMapping = some mapping ∧
        items = columnPair variant w mapping.sqlType.text := by
  unfold columnItems
  cases hplan : plan.columnMapping with
  | false => simp [eq_comm]
  | true =>
    cases control.columnMapping with
    | none => simp
    | some mapping => simp [columnPair, eq_comm]

/-- How a wrapper came about. -/
structure Generated.EmittedBy (g : Generated) (w : Wrapper) (control : Control)
    (features : Features) : Prop where
  supported : unsupported? control features = none
  name : g.name = w.name
  plan : g.plan = planFor control features
  /-- The items are those of the variant that is asked for, and then the column conversions. -/
  items : ∃ more, (control.secret = none ∧ g.items = normalBase w g.plan ++ more ∧
      columnItems .normal w control g.plan = .ok more) ∨
    ∃ marker, control.secret = some marker ∧ g.items = secretBase w g.plan ++ more ∧
      columnItems .secret w control g.plan = .ok more

theorem emittedBy_of_outcomeOf (h : outcomeOf w control features = .ok (.generated g)) :
    g.EmittedBy w control features := by
  unfold outcomeOf at h
  split at h
  · cases h
  · next hsupported =>
    obtain ⟨items, hitems, h⟩ := bind_eq_ok_iff.mp h
    cases h
    cases hsecret : control.secret with
    | none =>
      rw [hsecret, Option.isNone_none, if_pos rfl] at hitems
      obtain ⟨more, hcolumn, hmore⟩ := bind_eq_ok_iff.mp hitems
      cases hmore
      exact ⟨hsupported, rfl, rfl, more, Or.inl ⟨hsecret, rfl, hcolumn⟩⟩
    | some marker =>
      rw [hsecret, Option.isNone_some, if_neg Bool.false_ne_true, secretItems, hsecret] at hitems
      obtain ⟨more, hcolumn, hmore⟩ := bind_eq_ok_iff.mp hitems
      cases hmore
      exact ⟨hsupported, rfl, rfl, more, Or.inr ⟨marker, hsecret, rfl, hcolumn⟩⟩

/-! ## Groups of items -/

/-- Whether there is an item of a group. -/
def Covers (items : List Item) (group : Group) : Prop :=
  ∃ item ∈ items, item.group = group

@[simp] theorem covers_nil : Covers [] group ↔ False := by
  simp [Covers]

@[simp] theorem covers_cons {item : Item} :
    Covers (item :: items) group ↔ item.group = group ∨ Covers items group := by
  simp [Covers]

@[simp] theorem covers_append :
    Covers (items ++ more) group ↔ Covers items group ∨ Covers more group := by
  simp [Covers, or_and_right, exists_or]

@[simp] theorem covers_itemsIf {present : Bool} :
    Covers (itemsIf present items) group ↔ present = true ∧ Covers items group := by
  cases present <;> simp [itemsIf]

@[simp] theorem group_code (lines : List String) : (Item.code group lines).group = group := rfl

@[simp] theorem group_attributes (lines : List String) :
    (Item.attributes group lines).group = group := rfl

/-- Items of code cover their own group. -/
theorem covers_map_code {own : Group} {blocks : List (List String)} (h : blocks ≠ []) :
    Covers (blocks.map (.code own)) group ↔ own = group := by
  obtain ⟨block, blocks, rfl⟩ := List.exists_cons_of_ne_nil h
  constructor
  · rintro ⟨item, hitem, hgroup⟩
    obtain ⟨lines, -, rfl⟩ := List.mem_map.mp hitem
    exact hgroup
  · intro hgroup
    exact ⟨.code own block, List.mem_cons_self, hgroup⟩

theorem group_of_covers_attributeItems {own : Group} (h : Covers (w.attributeItems own) group) :
    own = group := by
  unfold Wrapper.attributeItems at h
  split at h
  · cases covers_nil.mp h
  · simpa using h

theorem covers_stringItems (name inner : String) :
    Covers (stringItems name inner) group ↔ .stringOps = group :=
  covers_map_code (List.cons_ne_nil _ _)

theorem covers_secretStringItems (name : String) :
    Covers (secretStringItems name) group ↔ .stringOps = group :=
  covers_map_code (List.cons_ne_nil _ _)

theorem covers_intItems (name inner : String) :
    Covers (intItems name inner) group ↔ .intOps = group :=
  covers_map_code (List.cons_ne_nil _ _)

theorem covers_serdeItems (plan : Plan) :
    Covers (serdeItems plan) group ↔ plan.serdeDerive = true ∧ .serdeDerive = group := by
  simp [serdeItems]

theorem covers_columnItems (h : columnItems variant w control plan = .ok items) :
    Covers items group ↔ plan.columnMapping = true ∧ .columnMapping = group := by
  rcases columnItems_ok_iff.mp h with ⟨hplan, rfl⟩ | ⟨mapping, hplan, -, rfl⟩
  · simp [hplan]
  · rw [columnPair, covers_map_code (List.cons_ne_nil _ _)]
    simp [hplan]

/-- The groups of a normal wrapper but for its column conversions. -/
theorem covers_normalBase (w : Wrapper) (plan : Plan) : Covers (normalBase w plan) group ↔
    .core = group ∨ (plan.serdeDerive = true ∧ .serdeDerive = group) ∨
      (plan.dereference = true ∧ .dereference = group) ∨
      (plan.stringOps = true ∧ .stringOps = group) ∨ (plan.intOps = true ∧ .intOps = group) := by
  simp only [normalBase, covers_append, covers_cons, covers_nil, covers_itemsIf, group_code,
    covers_serdeItems, covers_stringItems, covers_intItems]
  by_cases hcore : .core = group
  · simp [hcore]
  · have hhead : ¬ Covers (w.attributeItems .core) group := mt group_of_covers_attributeItems hcore
    simp [hcore, hhead, or_assoc]

/-- The groups of a secret wrapper but for its column conversions. -/
theorem covers_secretBase (w : Wrapper) (plan : Plan) : Covers (secretBase w plan) group ↔
    .secretWrapper = group ∨ (plan.serdeDerive = true ∧ .serdeDerive = group) ∨
      (plan.serializableSecret = true ∧ .serializableSecret = group) ∨
      (plan.testDebug = true ∧ .testDebug = group) ∨
      (plan.stringOps = true ∧ .stringOps = group) := by
  have htest : Covers (secretTestItems w.name w.inner plan) group ↔
      (plan.testDebug = true ∧ .testDebug = group) ∨
        (plan.testDebug = false ∧ .secretWrapper = group) := by
    unfold secretTestItems
    cases plan.testDebug <;> simp
  simp only [secretBase, secretStructItems, covers_append, covers_cons, covers_nil, covers_itemsIf,
    group_code, group_attributes, covers_serdeItems, covers_secretStringItems, htest]
  by_cases hown : .secretWrapper = group
  · simp [hown]
  · have hhead : ¬ Covers (w.attributeItems .secretWrapper) group :=
      mt group_of_covers_attributeItems hown
    simp [hown, hhead, or_assoc]

/-- A wrapper has an item of a group if and only if its plan asks for the group. -/
theorem covers_iff_of_outcomeOf (h : outcomeOf w control features = .ok (.generated g)) :
    Covers g.items group ↔ g.plan.has group = true := by
  obtain ⟨more, ⟨hsecret, hitems, hcolumn⟩ | ⟨marker, hsecret, hitems, hcolumn⟩⟩ :=
    (emittedBy_of_outcomeOf h).items
  · rw [hitems, covers_append, covers_normalBase, covers_columnItems hcolumn,
      (emittedBy_of_outcomeOf h).plan, planFor, hsecret]
    cases group <;> simp [Plan.has]
  · rw [hitems, covers_append, covers_secretBase, covers_columnItems hcolumn,
      (emittedBy_of_outcomeOf h).plan, planFor, hsecret]
    cases group <;> simp [Plan.has]

/-- The variant of a wrapper is the one that is asked for. -/
theorem variant_planFor (control : Control) (features : Features) :
    (planFor control features).variant = .secret ↔ control.secret.isSome = true := by
  unfold planFor
  cases control.secret <;> simp [Plan.variant]

end Microtypes
