import Microtypes.Expansion

/-!
# Wrappers without the attributes that are passed on

The attributes that are passed on make up the first item of a wrapper, if there are any. The other
items are those of the bare wrapper, which has none.
-/

namespace Microtypes

/-- The item of the attributes that are passed on, if there are any. -/
def passedItems (group : Group) (texts : List String) : List Item :=
  if texts.isEmpty then [] else [.attributes group texts]

namespace Wrapper

/-- A wrapper without the attributes that are passed on. -/
def bare (w : Wrapper) : Wrapper := { w with attributes := [] }

theorem attributeItems_eq (w : Wrapper) (group : Group) :
    w.attributeItems group = passedItems group w.attributes := rfl

end Wrapper

variable (w : Wrapper) (control : Control) (plan : Plan) (features : Features)

theorem columnItems_bare (variant : Variant) :
    columnItems variant w.bare control plan = columnItems variant w control plan := rfl

theorem normalBase_eq_bare :
    normalBase w plan = passedItems .core w.attributes ++ normalBase w.bare plan := by
  simp only [normalBase, Wrapper.attributeItems_eq, List.append_assoc]
  rfl

theorem secretBase_eq_bare :
    secretBase w plan = passedItems .secretWrapper w.attributes ++ secretBase w.bare plan := by
  simp only [secretBase, Wrapper.attributeItems_eq, List.append_assoc]
  rfl

/-- The group of the item of the attributes that are passed on. -/
def Control.headGroup (control : Control) : Group :=
  if control.secret.isNone then .core else .secretWrapper

/-- An outcome with items in front of those of its wrapper. -/
def Outcome.after (items : List Item) : Outcome → Outcome
  | .generated wrapper => .generated { wrapper with items := items ++ wrapper.items }
  | .failed diagnostic => .failed diagnostic

/-- The attributes that are passed on come in front of what becomes of the bare wrapper. -/
theorem outcomeOf_eq_bare : outcomeOf w control features =
    (outcomeOf w.bare control features).map
      (.after (passedItems control.headGroup w.attributes)) := by
  unfold outcomeOf
  cases unsupported? control features with
  | some problem => rfl
  | none =>
    cases hsecret : control.secret with
    | none =>
      simp only [Control.headGroup, hsecret, Option.isNone_none, if_true, normalItems,
        columnItems_bare, normalBase_eq_bare w]
      cases columnItems .normal w control (planFor control features) with
      | error abort => rfl
      | ok items =>
        simp only [bind, Except.bind, pure, Except.pure, Except.map, Outcome.after,
          List.append_assoc]
        rfl
    | some marker =>
      simp only [Control.headGroup, hsecret, Option.isNone_some, Bool.false_eq_true, if_false,
        secretItems, columnItems_bare, secretBase_eq_bare w]
      cases columnItems .secret w control (planFor control features) with
      | error abort => rfl
      | ok items =>
        simp only [bind, Except.bind, pure, Except.pure, Except.map, Outcome.after,
          List.append_assoc]
        rfl

end Microtypes
