import Mathlib.Data.List.Chain
import Microtypes.Proofs.Rust.Bare
import Microtypes.Proofs.Rust.Emission

/-!
# Blank lines in generated code

Blank lines stand between other lines, and by themselves: generated lines never begin or end with a
blank line, and never have two of them in a row (`tidy_renderItems`). Between the items of a wrapper
stand the gaps that `LaidOut` describes, and nothing else (`exists_laidOut`).
-/

namespace Microtypes

variable {w : Wrapper} {plan : Plan} {lines more body : List String} {items rest : List Item}
  {name inner head path type bound value sqlType : String}

@[simp] theorem toString_text (text : String) : toString text = text := rfl

/-! ## Tidy lines -/

/-- Whether blank lines stand between other lines, and by themselves. -/
structure Tidy (lines : List String) : Prop where
  nonempty : lines ≠ []
  first : lines.head? ≠ some ""
  last : lines.getLast? ≠ some ""
  /-- Of two lines in a row at most one is blank. -/
  apart : lines.IsChain fun line next => line ≠ "" ∨ next ≠ ""

namespace Tidy

theorem singleton {line : String} (h : line ≠ "") : Tidy [line] :=
  ⟨List.cons_ne_nil _ _, by simpa using h, by simpa using h, .singleton _⟩

/-- Below tidy lines, which do not end with a blank line, more lines may begin with one. -/
theorem apart_append (h : Tidy lines)
    (hmore : more.IsChain fun line next => line ≠ "" ∨ next ≠ "") :
    (lines ++ more).IsChain fun line next => line ≠ "" ∨ next ≠ "" := by
  refine List.isChain_append.mpr ⟨h.apart, hmore, fun line hline next _ => .inl ?_⟩
  rintro rfl
  exact h.last hline

theorem append (h : Tidy lines) (hmore : Tidy more) : Tidy (lines ++ more) where
  nonempty := List.append_ne_nil_of_left_ne_nil h.nonempty _
  first := by
    rw [List.head?_append_of_ne_nil _ h.nonempty]
    exact h.first
  last := by
    rw [List.getLast?_append_of_ne_nil _ hmore.nonempty]
    exact hmore.last
  apart := h.apart_append hmore.apart

theorem cons {line : String} (h : line ≠ "") (hmore : Tidy more) : Tidy (line :: more) :=
  (singleton h).append hmore

/-- A blank line between tidy lines. -/
theorem append_blank (h : Tidy lines) (hmore : Tidy more) : Tidy (lines ++ "" :: more) where
  nonempty := List.append_ne_nil_of_left_ne_nil h.nonempty _
  first := by
    rw [List.head?_append_of_ne_nil _ h.nonempty]
    exact h.first
  last := by
    rw [List.getLast?_append_of_ne_nil _ (List.cons_ne_nil _ _),
      List.getLast?_cons_of_ne_nil hmore.nonempty]
    exact hmore.last
  apart := by
    refine h.apart_append (hmore.apart.cons fun next hnext => .inr ?_)
    rintro rfl
    exact hmore.first hnext

theorem of_forall (hnonempty : lines ≠ []) (h : ∀ line ∈ lines, line ≠ "") : Tidy lines := by
  induction lines with
  | nil => exact absurd rfl hnonempty
  | cons line lines ih =>
    obtain ⟨hline, hlines⟩ := List.forall_mem_cons.mp h
    cases lines with
    | nil => exact singleton hline
    | cons next lines => exact cons hline (ih (List.cons_ne_nil _ _) hlines)

/-! ## Layout -/

theorem indentLine_eq_empty_iff {line : String} : indentLine line = "" ↔ line = "" := by
  rw [indentLine]
  split
  · rfl
  · next hline => simpa [String.append_eq_empty_iff] using hline

theorem map_indentLine_ne {line? : Option String} (h : line? ≠ some "") :
    line?.map indentLine ≠ some "" := by
  rw [Ne, Option.map_eq_some_iff]
  rintro ⟨line, rfl, hblank⟩
  exact h (congrArg some (indentLine_eq_empty_iff.mp hblank))

theorem indented (h : Tidy body) : Tidy (body.map indentLine) where
  nonempty := mt List.map_eq_nil_iff.mp h.nonempty
  first := by
    rw [List.head?_map]
    exact map_indentLine_ne h.first
  last := by
    rw [List.getLast?_map]
    exact map_indentLine_ne h.last
  apart := by
    rw [List.isChain_map]
    refine h.apart.imp fun line next hlines => ?_
    rwa [Ne, Ne, indentLine_eq_empty_iff, indentLine_eq_empty_iff]

theorem braced (h : Tidy body) : Tidy (braced head body) :=
  (cons (by simp) h.indented).append (singleton (by decide))

/-- A line in curly brackets. -/
theorem block {line : String} (h : line ≠ "") : Tidy (Microtypes.braced head [line]) :=
  (singleton h).braced

/-- Blocks of tidy lines with blank lines in between. -/
theorem spacedOut {block : List String} {blocks : List (List String)}
    (h : (block :: blocks).Forall Tidy) : Tidy (spacedOut (block :: blocks)) := by
  rw [Microtypes.spacedOut]
  induction blocks generalizing block with
  | nil => simpa using h
  | cons next blocks ih =>
    obtain ⟨hblock, hlater⟩ := (List.forall_cons _ block (next :: blocks)).mp h
    rw [List.intercalate_cons_cons, List.append_assoc]
    exact hblock.append_blank (ih hlater)

theorem implBlock (h : Tidy body) : Tidy (implBlock path type body) := h.braced

theorem columnImpl (h : Tidy body) : Tidy (columnImpl name inner bound body) := by
  refine (append (of_forall (List.cons_ne_nil _ _) ?_) h.indented).append (singleton (by decide))
  simp

end Tidy

/-! ## Implementations -/

theorem emptyImpl_ne_empty : emptyImpl path type ≠ "" := by
  simp [emptyImpl]

theorem tidy_microtypeImpl (name inner : String) : Tidy (microtypeImpl name inner) := by
  refine .implBlock (.spacedOut ⟨.singleton ?_, .block ?_, .block ?_, .block ?_, .block ?_,
    .block ?_⟩) <;> simp

theorem tidy_fromInnerImpl (name inner : String) : Tidy (fromInnerImpl name inner) :=
  .implBlock (.block (by simp))

theorem tidy_derefImpl (name inner : String) : Tidy (derefImpl name inner) := by
  refine .implBlock (.spacedOut ⟨.singleton ?_, .block ?_⟩) <;> simp

theorem tidy_derefMutImpl (name : String) : Tidy (derefMutImpl name) :=
  .implBlock (.block (by simp))

theorem tidy_formatImpl (name inner path : String) : Tidy (formatImpl name inner path) :=
  .implBlock (.block (by simp))

theorem tidy_infallibleFromStrImpl (name value : String) :
    Tidy (infallibleFromStrImpl name value) := by
  refine .implBlock (.spacedOut ⟨.singleton ?_, .block ?_⟩) <;> simp

theorem tidy_fromStrRefImpl (name : String) (h : value ≠ "") : Tidy (fromStrRefImpl name value) :=
  .implBlock (.block h)

theorem tidy_asRefImpl (name : String) : Tidy (asRefImpl name) := .implBlock (.block (by simp))

theorem tidy_innerFromStrImpl (name inner : String) : Tidy (innerFromStrImpl name inner) := by
  refine .implBlock (.spacedOut ⟨.singleton ?_, .block ?_⟩) <;> simp

theorem tidy_operationImpl (name : String) (op : Arithmetic) : Tidy (operationImpl name op) := by
  refine .implBlock (.spacedOut ⟨.singleton ?_, .block ?_⟩) <;> simp

theorem tidy_assignmentImpl (name : String) (op : Arithmetic) : Tidy (assignmentImpl name op) :=
  .implBlock (.block (by simp))

theorem tidy_fromColumnImpl (name inner sqlType constructor : String) :
    Tidy (fromColumnImpl name inner sqlType constructor) := by
  refine .columnImpl (.cons ?_ (.cons ?_ (.block ?_))) <;> simp

theorem tidy_toColumnImpl (name inner sqlType borrowed : String) :
    Tidy (toColumnImpl name inner sqlType borrowed) := by
  refine .columnImpl (.cons ?_ (.cons ?_ (.cons ?_ (.block ?_)))) <;> simp

theorem tidy_secretMarkerImpls (wrapper : String) : Tidy (secretMarkerImpls wrapper) :=
  .spacedOut ⟨.singleton emptyImpl_ne_empty, .singleton emptyImpl_ne_empty,
    .implBlock (.block (by simp))⟩

theorem tidy_exposeSecretImpl (name inner : String) : Tidy (exposeSecretImpl name inner) :=
  .implBlock (.block (by simp))

theorem tidy_secretConstructorImpl (name wrapper inner : String) :
    Tidy (secretConstructorImpl name wrapper inner) := by
  refine .implBlock (.spacedOut ⟨.singleton ?_, .block ?_⟩) <;> simp

theorem tidy_secretDebugImpl (name inner : String) : Tidy (secretDebugImpl name inner) :=
  .cons (by simp) (.implBlock (.braced (.of_forall (List.cons_ne_nil _ _) (by simp))))

theorem tidy_secretEqImpl (name inner : String) : Tidy (secretEqImpl name inner) :=
  .cons (by simp) (.implBlock (.braced (.of_forall (List.cons_ne_nil _ _) (by simp))))

/-! ## Items -/

/-- Whether items can stand one below the other: their lines are tidy, and none of them waits for
another one at the end. -/
structure Arranged (items : List Item) : Prop where
  tidy : ∀ item ∈ items, Tidy item.lines
  closed : ∀ item ∈ items.getLast?, item.attached = false

namespace Arranged

theorem nil : Arranged [] := ⟨List.forall_mem_nil _, fun item hitem => by cases hitem⟩

theorem append (h : Arranged items) (hmore : Arranged rest) : Arranged (items ++ rest) where
  tidy := List.forall_mem_append.mpr ⟨h.tidy, hmore.tidy⟩
  closed := by
    intro item hitem
    rw [List.getLast?_append, Option.mem_def, Option.or_eq_some_iff] at hitem
    rcases hitem with hitem | ⟨-, hitem⟩
    · exact hmore.closed item hitem
    · exact h.closed item hitem

/-- Items above others may wait for them. -/
theorem below (h : ∀ item ∈ items, Tidy item.lines) (hmore : Arranged rest) (hne : rest ≠ []) :
    Arranged (items ++ rest) where
  tidy := List.forall_mem_append.mpr ⟨h, hmore.tidy⟩
  closed := by
    rw [List.getLast?_append_of_ne_nil _ hne]
    exact hmore.closed

theorem itemsIf {present : Bool} (h : Arranged items) : Arranged (itemsIf present items) := by
  cases present with
  | false => exact nil
  | true => exact h

theorem cons {group : Group} (h : Tidy lines) (hitems : Arranged items) :
    Arranged (.code group lines :: items) := by
  have hfirst : Arranged [.code group lines] := by
    refine ⟨List.forall_mem_singleton.mpr h, ?_⟩
    rintro item ⟨⟩
    rfl
  exact hfirst.append hitems

theorem tail {item : Item} (h : Arranged (item :: items)) : Arranged items where
  tidy := (List.forall_mem_cons.mp h.tidy).2
  closed := by
    cases items with
    | nil => exact nil.closed
    | cons next rest => exact h.closed

theorem map {group : Group} {blocks : List (List String)} (h : ∀ block ∈ blocks, Tidy block) :
    Arranged (blocks.map (.code group)) := by
  induction blocks with
  | nil => exact nil
  | cons block blocks ih =>
    obtain ⟨hblock, hblocks⟩ := List.forall_mem_cons.mp h
    exact cons hblock (ih hblocks)

end Arranged

theorem tidy_passedItems {group : Group} {texts : List String} (h : ∀ text ∈ texts, text ≠ "") :
    ∀ item ∈ passedItems group texts, Tidy item.lines := by
  cases texts with
  | nil => exact List.forall_mem_nil _
  | cons text texts => exact List.forall_mem_singleton.mpr (.of_forall (List.cons_ne_nil _ _) h)

theorem tidy_serdeItems (plan : Plan) : ∀ item ∈ serdeItems plan, Tidy item.lines := by
  rw [serdeItems, itemsIf]
  split
  · exact List.forall_mem_singleton.mpr (.of_forall (List.cons_ne_nil _ _) (by decide))
  · exact List.forall_mem_nil _

theorem arranged_stringItems (name inner : String) : Arranged (stringItems name inner) :=
  .cons (tidy_formatImpl _ _ _) (.cons (tidy_infallibleFromStrImpl _ _)
    (.cons (tidy_fromStrRefImpl _ (by decide)) (.cons (tidy_asRefImpl _) .nil)))

theorem arranged_secretStringItems (name : String) : Arranged (secretStringItems name) :=
  .cons (tidy_infallibleFromStrImpl _ _) (.cons (tidy_fromStrRefImpl _ (by simp)) .nil)

theorem arranged_intItems (name inner : String) : Arranged (intItems name inner) := by
  refine .map ?_
  simp only [List.forall_mem_append, List.forall_mem_map, List.forall_mem_singleton]
  exact ⟨⟨⟨fun path _ => tidy_formatImpl name inner path, fun op _ => tidy_operationImpl name op⟩,
    fun op _ => tidy_assignmentImpl name op⟩, tidy_innerFromStrImpl name inner⟩

theorem arranged_columnItems {variant : Variant} {control : Control}
    (h : columnItems variant w control plan = .ok items) : Arranged items := by
  rcases columnItems_ok_iff.mp h with ⟨-, rfl⟩ | ⟨mapping, -, -, rfl⟩
  · exact .nil
  · exact .cons (tidy_fromColumnImpl _ _ _ _) (.cons (tidy_toColumnImpl _ _ _ _) .nil)

theorem structLine_ne_empty (w : Wrapper) (field : String) : w.structLine field ≠ "" := by
  simp [Wrapper.structLine]

/-- The items of a normal wrapper are arranged if no attribute that is passed on is blank. -/
theorem arranged_normalBase (h : ∀ text ∈ w.attributes, text ≠ "") (plan : Plan) :
    Arranged (normalBase w plan) := by
  have hmarks : ∀ item ∈ w.attributeItems .core ++ serdeItems plan, Tidy item.lines :=
    List.forall_mem_append.mpr ⟨tidy_passedItems h, tidy_serdeItems plan⟩
  -- The attributes are items of their own and attached; the definition is the first item that is
  -- not, and all others stand below it.
  have hstruct : Tidy ["#[repr(transparent)]", w.structLine s!"pub {w.inner}"] :=
    .cons (by decide) (.singleton (structLine_ne_empty w _))
  have hcore : Arranged
      [.code .core ["#[repr(transparent)]", w.structLine s!"pub {w.inner}"],
        .code .core (microtypeImpl w.name w.inner), .code .core (fromInnerImpl w.name w.inner)] :=
    .cons hstruct (.cons (tidy_microtypeImpl _ _) (.cons (tidy_fromInnerImpl _ _) .nil))
  have hderef : Arranged [.code .dereference (derefImpl w.name w.inner),
      .code .dereference (derefMutImpl w.name)] :=
    .cons (tidy_derefImpl _ _) (.cons (tidy_derefMutImpl _) .nil)
  have htypes := Arranged.below hmarks hcore (List.cons_ne_nil _ _)
  exact ((htypes.append hderef.itemsIf).append (arranged_stringItems _ _).itemsIf).append
    (arranged_intItems _ _).itemsIf

theorem arranged_secretStructItems {line : String} (h : line ≠ "") (plan : Plan) :
    Arranged (secretStructItems plan line) := by
  have hmarks : Tidy secretTypeLines := .of_forall (List.cons_ne_nil _ _) (by decide)
  exact .below (List.forall_mem_cons.mpr ⟨hmarks, tidy_serdeItems plan⟩)
    (.cons (.singleton h) .nil) (List.cons_ne_nil _ _)

theorem arranged_secretTestItems (name inner : String) (plan : Plan) :
    Arranged (secretTestItems name inner plan) := by
  rw [secretTestItems]
  split
  · exact .cons (tidy_secretDebugImpl _ _) (.cons (tidy_secretEqImpl _ _) .nil)
  · exact .cons (tidy_secretDebugImpl _ _) .nil

/-- The items of a secret wrapper are arranged if no attribute that is passed on is blank. -/
theorem arranged_secretBase (h : ∀ text ∈ w.attributes, text ≠ "") (plan : Plan) :
    Arranged (secretBase w plan) := by
  have hhead : Arranged (w.attributeItems .secretWrapper ++
      secretStructItems plan (w.structLine s!"{secrecyModule}::Secret<{hiddenName w.name}>")) :=
    .below (tidy_passedItems h) (arranged_secretStructItems (structLine_ne_empty w _) plan)
      (List.cons_ne_nil _ _)
  have hhidden : Arranged (secretStructItems plan s!"struct {hiddenName w.name}({w.inner});") :=
    arranged_secretStructItems (by simp) plan
  have hmarkers : Arranged [.code .secretWrapper (secretMarkerImpls (hiddenName w.name))] :=
    .cons (tidy_secretMarkerImpls _) .nil
  have hserializable : Arranged (itemsIf plan.serializableSecret [.code .serializableSecret
      [emptyImpl s!"{secrecyModule}::SerializableSecret" (hiddenName w.name)]]) :=
    .itemsIf (.cons (.singleton emptyImpl_ne_empty) .nil)
  have haccess : Arranged [.code .secretWrapper (exposeSecretImpl w.name w.inner),
      .code .secretWrapper (secretConstructorImpl w.name (hiddenName w.name) w.inner)] :=
    .cons (tidy_exposeSecretImpl _ _) (.cons (tidy_secretConstructorImpl _ _ _) .nil)
  have htypes := ((hhead.append hhidden).append hmarkers).append hserializable
  exact ((htypes.append haccess).append (arranged_secretTestItems _ _ _)).append
    (arranged_secretStringItems _).itemsIf

/-! ## Layout of items -/

/-- Whether lines are those of items in order, with a gap after each item. -/
structure LaidOut (items : List Item) (gaps : List (List String)) (lines : List String) : Prop where
  count : gaps.length = items.length
  lines : lines = (items.zip gaps).flatMap fun (item, gap) => item.lines ++ gap
  /-- An attached item has another one below it, and no blank line in between. -/
  attached : ∀ i item, items[i]? = some item → item.attached = true →
    gaps[i]? = some [] ∧ i + 1 < items.length
  /-- Below any other item but the last one stands one blank line. -/
  apart : ∀ i item, items[i]? = some item → item.attached = false → i + 1 < items.length →
    gaps[i]? = some [""]
  last : gaps.getLast? = some []

theorem renderItems_cons_cons (item next : Item) (rest : List Item) :
    renderItems (item :: next :: rest) =
      item.lines ++ (if item.attached then [] else [""]) ++ renderItems (next :: rest) := rfl

theorem exists_laidOut (h : Arranged items) (hne : items ≠ []) :
    ∃ gaps, LaidOut items gaps (renderItems items) := by
  -- Only the last item has nothing below it, and it is not attached, so each gap is decided by its
  -- own item.
  induction items with
  | nil => exact absurd rfl hne
  | cons item items ih =>
    cases items with
    | nil =>
      have hlast : item.attached = false := h.closed item rfl
      refine ⟨[[]], rfl, by simp [renderItems, renderPassages], ?_, ?_, rfl⟩
      · intro i item' hitem hattached
        obtain ⟨rfl, rfl⟩ : i = 0 ∧ item = item' := by simpa [List.getElem?_singleton] using hitem
        rw [hlast] at hattached
        cases hattached
      · intro i item' _ _ hlater
        simp at hlater
    | cons next rest =>
      obtain ⟨gaps, hgaps⟩ := ih h.tail (List.cons_ne_nil _ _)
      refine ⟨(if item.attached then [] else [""]) :: gaps, ?_, ?_, ?_, ?_, ?_⟩
      · rw [List.length_cons, hgaps.count]
        rfl
      · rw [renderItems_cons_cons, hgaps.lines]
        rfl
      · intro i item' hitem hattached
        cases i with
        | zero =>
          cases hitem
          exact ⟨by rw [hattached]; rfl, by simp⟩
        | succ i =>
          obtain ⟨hgap, hlater⟩ := hgaps.attached i item' hitem hattached
          exact ⟨hgap, Nat.succ_lt_succ hlater⟩
      · intro i item' hitem hattached hlater
        cases i with
        | zero =>
          cases hitem
          rw [hattached]
          rfl
        | succ i => exact hgaps.apart i item' hitem hattached (Nat.lt_of_succ_lt_succ hlater)
      · have hsome : gaps ≠ [] := by
          rintro rfl
          cases hgaps.count
        rw [List.getLast?_cons_of_ne_nil hsome]
        exact hgaps.last

/-- The lines of a wrapper are tidy. -/
theorem tidy_renderItems (h : Arranged items) (hne : items ≠ []) : Tidy (renderItems items) := by
  induction items with
  | nil => exact absurd rfl hne
  | cons item items ih =>
    have hitem := h.tidy item List.mem_cons_self
    cases items with
    | nil => exact hitem
    | cons next rest =>
      have hlater := ih h.tail (List.cons_ne_nil _ _)
      rw [renderItems_cons_cons, List.append_assoc]
      split
      · exact hitem.append hlater
      · exact hitem.append_blank hlater

/-- The items of a wrapper are arranged if no attribute that is passed on is blank. -/
theorem arranged_of_outcomeOf {control : Control} {features : Features} {g : Generated}
    (htexts : ∀ text ∈ w.attributes, text ≠ "")
    (h : outcomeOf w control features = .ok (.generated g)) : Arranged g.items ∧ g.items ≠ [] := by
  obtain ⟨more, ⟨-, hitems, hmore⟩ | ⟨_, -, hitems, hmore⟩⟩ := (emittedBy_of_outcomeOf h).items
  · rw [hitems]
    exact ⟨(arranged_normalBase htexts _).append (arranged_columnItems hmore), by simp [normalBase]⟩
  · rw [hitems]
    exact ⟨(arranged_secretBase htexts _).append (arranged_columnItems hmore), by simp [secretBase]⟩

end Microtypes
