import Microtypes.Proofs.Rust.Emission
import Microtypes.Proofs.Rust.Heading
import Microtypes.Proofs.Rust.Weave

/-!
# The code of implementations

The lines of every implementation are woven from fixed pieces and from the name and the type of the
wrapper. In a secret wrapper no fixed piece holds a word that gives its value away.
-/

namespace Microtypes

variable {given : String → Prop} {outer : List Delimiter} {discreet begins opens : Bool}
  {name inner sqlType wrapper value path type field : String} {lines : List String} {w : Wrapper}
  {plan : Plan}

/-- Code whose lines are woven, wherever it is put. -/
structure Code (discreet : Bool) (given : String → Prop) where
  lines : List String
  woven : ∀ outer, WovenLines discreet given outer outer lines

namespace Code

/-! ## Normal wrappers -/

def microtype (hname : given name) (hinner : given inner) : Code false given where
  lines := microtypeImpl name inner
  woven _ := by
    simp only [microtypeImpl, wrapperTrait, toString, String.reduceAppend]
    refine .implBlock (.fixed [] [] ?_) (.given hname) (.spacedOut
      ⟨.cons (.around [] [] [] hinner ?_ ?_ ?_ ?_) .nil, .fixedBlock ?_ ?_, .fixedBlock ?_ ?_,
        .fixedBlock ?_ ?_, .fixedBlock ?_ ?_, .fixedBlock ?_ ?_⟩) <;> decide +kernel

def fromInner (hname : given name) (hinner : given inner) : Code false given where
  lines := fromInnerImpl name inner
  woven _ := by
    simp only [fromInnerImpl, toString]
    refine .implBlock (.around [] [] [] hinner ?_ ?_ ?_ ?_) (.given hname)
      (.braced (.around [] [.round] [] hinner ?_ ?_ ?_ ?_) (.cons (.fixed [] [] ?_) .nil)) <;>
      decide +kernel

def deref (hname : given name) (hinner : given inner) : Code false given where
  lines := derefImpl name inner
  woven _ := by
    simp only [derefImpl, toString]
    refine .implBlock (.fixed [] [] ?_) (.given hname) (.spacedOut
      ⟨.cons (.around [] [] [] hinner ?_ ?_ ?_ ?_) .nil, .fixedBlock ?_ ?_⟩) <;> decide +kernel

def derefMut (hname : given name) : Code false given where
  lines := derefMutImpl name
  woven _ := by
    unfold derefMutImpl
    refine .implBlock (.fixed [] [] ?_) (.given hname) (.fixedBlock ?_ ?_) <;> decide +kernel

def asRef (hname : given name) : Code false given where
  lines := asRefImpl name
  woven _ := by
    simp only [asRefImpl, strType, toString, String.reduceAppend]
    refine .implBlock (.fixed [] [] ?_) (.given hname) (.fixedBlock ?_ ?_) <;> decide +kernel

def innerFromStr (hname : given name) (hinner : given inner) : Code false given where
  lines := innerFromStrImpl name inner
  woven _ := by
    simp only [innerFromStrImpl, strType, toString, String.reduceAppend]
    refine .implBlock (.fixed [] [] ?_) (.given hname) (.spacedOut
      ⟨.cons (.around [] [] [] hinner ?_ ?_ ?_ ?_) .nil,
        .braced (.fixed [] [] ?_) (.cons (.around [] [] [] hinner ?_ ?_ ?_ ?_) .nil)⟩) <;>
      decide +kernel

def format (hname : given name) (hinner : given inner) (hpath : path ∈ intFormats) :
    Code false given where
  lines := formatImpl name inner path
  woven _ := by
    simp only [intFormats, List.mem_cons, List.not_mem_nil, or_false] at hpath
    rcases hpath with rfl | rfl | rfl | rfl | rfl | rfl | rfl <;>
      simp only [formatImpl, formatterType, toString, String.append_assoc, String.reduceAppend]
    all_goals
      refine .implBlock (.fixed [] [] ?_) (.given hname) (.braced (.fixed [] [] ?_)
        (.cons (.append (.fixed [] [] ?_) (.append (.given hinner) (.fixed [] [] ?_) ?_) ?_)
          .nil)) <;>
        decide +kernel

def operation {op : Arithmetic} (hname : given name) (hop : op ∈ arithmetic) :
    Code false given where
  lines := operationImpl name op
  woven _ := by
    simp only [arithmetic, List.mem_cons, List.not_mem_nil, or_false] at hop
    rcases hop with rfl | rfl | rfl | rfl | rfl <;>
      simp only [operationImpl, toString, String.reduceAppend]
    all_goals
      refine .implBlock (.fixed [] [] ?_) (.given hname)
        (.spacedOut ⟨.cons (.fixed [] [] ?_) .nil, .fixedBlock ?_ ?_⟩) <;> decide +kernel

def assignment {op : Arithmetic} (hname : given name) (hop : op ∈ arithmetic) :
    Code false given where
  lines := assignmentImpl name op
  woven _ := by
    simp only [arithmetic, List.mem_cons, List.not_mem_nil, or_false] at hop
    rcases hop with rfl | rfl | rfl | rfl | rfl <;>
      simp only [assignmentImpl, toString, String.reduceAppend]
    all_goals
      refine .implBlock (.fixed [] [] ?_) (.given hname) (.fixedBlock ?_ ?_) <;> decide +kernel

/-! ## Strings and columns -/

def infallibleFromStr (hname : given name)
    (hvalue : ∀ outer, Woven true given outer outer begins opens value) : Code true given where
  lines := infallibleFromStrImpl name value
  woven _ := by
    simp only [infallibleFromStrImpl, strType, toString, String.reduceAppend]
    refine .implBlock (.fixed [] [] ?_) (.given hname)
      (.spacedOut ⟨.cons (.fixed [] [] ?_) .nil, .braced (.fixed [] [] ?_)
        (.cons (.append (.append (.fixed [] [.round] ?_) (hvalue _)
          (Bool.or_eq_true_iff.mpr (.inl ?_))) (.fixed [.round] [] ?_) (Bool.or_true _)) .nil)⟩) <;>
      decide +kernel

def fromStrRef (hname : given name)
    (hvalue : ∀ outer, Woven true given outer outer begins opens value) : Code true given where
  lines := fromStrRefImpl name value
  woven _ := by
    simp only [fromStrRefImpl, strType, toString, String.reduceAppend]
    refine .implBlock (.fixed [] [] ?_) (.given hname)
      (.braced (.fixed [] [] ?_) (.cons (hvalue _) .nil)) <;> decide +kernel

theorem woven_columnImpl {bound : String} {body : List String} (hname : given name)
    (hinner : given inner) (hbound : ∀ outer, Woven discreet given outer outer false opens bound)
    (hbody : WovenLines discreet given (.curly :: outer) (.curly :: outer) body) :
    WovenLines discreet given outer outer (columnImpl name inner bound body) := by
  have hhead : WovenLines discreet given outer (.curly :: outer) [s!"impl<B> {bound} for {name}",
      "where", "    B: ::diesel::backend::Backend,", s!"    {inner}: {bound},", "\x7b"] := by
    refine .cons (.append (.append (.append (.quiet [] [] ?_) (hbound _) ?_)
        (.quiet [] [] ?_) (Bool.or_true _)) (.given hname) ?_) <|
      .cons (.quiet [] [] ?_) <| .cons (.quiet [] [] ?_) <|
      .cons (.append (.append (.append (.append (.quiet [] [] ?_) (.given hinner) ?_)
        (.quiet [] [] ?_) ?_) (hbound _) ?_) (.quiet [] [] ?_) (Bool.or_true _)) <|
      .cons (.quiet [] [.curly] ?_) .nil <;> decide +kernel
  have hlast : fits true [.curly] [] ['}'] = true := by decide +kernel
  exact (hhead.append hbody.indented).append (.cons (.quiet [.curly] [] hlast) .nil)

/-- The type of a column, as the argument of a trait with the type of the database. -/
theorem woven_bound {front : List Char} (hsql : given sqlType)
    (hfront : fits true [] [] front = true) (hopens : opensUp front = true)
    (hbegins : parted front = false) (outer : List Delimiter) :
    Woven discreet given outer outer false (opensUp [',', ' ', 'B', '>'])
      (String.ofList front ++ sqlType ++ ", B>") := by
  have hback : fits true [] [] [',', ' ', 'B', '>'] = true := by decide +kernel
  have hbound := @Woven.around discreet given outer sqlType [] [] [] front _ hsql
    (fits_true hfront discreet) (fits_true hback discreet) hopens rfl
  rwa [hbegins, Bool.and_false] at hbound

def fromColumn {constructor : String} (hname : given name) (hinner : given inner)
    (hsql : given sqlType)
    (hconstructor : ∀ outer, Woven discreet given outer outer begins opens constructor) :
    Code discreet given where
  lines := fromColumnImpl name inner sqlType constructor
  woven _ := by
    simp only [fromColumnImpl, toString]
    have hbound : ∀ outer, Woven discreet given outer outer false (opensUp [',', ' ', 'B', '>'])
        ("::diesel::deserialize::FromSql<" ++ sqlType ++ ", B>") := by
      refine woven_bound hsql ?_ ?_ ?_ <;> decide +kernel
    refine woven_columnImpl hname hinner hbound <| .append
      (.cons (.quiet [] [.round] ?_) (.cons (.quiet [] [] ?_) .nil)) <|
      .braced (.quiet [.round] [] ?_) <| .cons (.append (.append (.append (.append (.append (.append
        (.quiet [] [] ?_) (.given hinner) ?_) (.quiet [] [] ?_) ?_) (hbound _) ?_)
        (.quiet [] [.round] ?_) ?_) (hconstructor _) (Bool.or_eq_true_iff.mpr (.inl ?_)))
        (.quiet [.round] [] ?_) (Bool.or_true _))
        .nil <;> decide +kernel

def toColumn {borrowed : String} (hname : given name) (hinner : given inner)
    (hsql : given sqlType)
    (hborrowed : ∀ outer, Woven discreet given outer outer begins opens borrowed) :
    Code discreet given where
  lines := toColumnImpl name inner sqlType borrowed
  woven _ := by
    simp only [toColumnImpl, toString]
    have hbound : ∀ outer, Woven discreet given outer outer false (opensUp [',', ' ', 'B', '>'])
        ("::diesel::serialize::ToSql<" ++ sqlType ++ ", B>") := by
      refine woven_bound hsql ?_ ?_ ?_ <;> decide +kernel
    refine woven_columnImpl hname hinner hbound <| .append
      (.cons (.quiet [] [.round] ?_) (.cons (.quiet [] [] ?_) (.cons (.quiet [] [] ?_) .nil))) <|
      .braced (.quiet [.round] [] ?_) <| .cons (.append (.append (.append (.append (.append (.append
        (.quiet [] [] ?_) (.given hinner) ?_) (.quiet [] [] ?_) ?_) (hbound _) ?_)
        (.quiet [] [.round] ?_) ?_) (hborrowed _) (Bool.or_eq_true_iff.mpr (.inl ?_)))
        (.quiet [.round] [] ?_) (Bool.or_true _))
        .nil <;> decide +kernel

/-! ## Secrets -/

theorem woven_emptyImpl {path : List Char} (hpath : fits discreet [] [] path = true)
    (htype : given type) :
    WovenLines discreet given outer outer [emptyImpl (String.ofList path) type] := by
  have hhead : Woven discreet given outer outer false false
      ("impl " ++ String.ofList path ++ " for " ++ type) := by
    obtain ⟨-, -, -, -, himpl, hfor⟩ := WovenLines.fits_layout discreet
    exact .append (.append (.append (.fixed [] [] himpl) (.fixed [] [] hpath) rfl)
      (.fixed [] [] hfor) (Bool.or_true _)) (.given htype) rfl
  have hmembers : fits true [] [] [' ', '{', '}'] = true := by decide +kernel
  exact .cons (.append hhead (.quiet [] [] hmembers) rfl) .nil

def secretMarkers (hwrapper : given wrapper) : Code true given where
  lines := secretMarkerImpls wrapper
  woven _ := by
    simp only [secretMarkerImpls, secrecyModule, toString, String.reduceAppend]
    refine .spacedOut ⟨woven_emptyImpl ?_ hwrapper, woven_emptyImpl ?_ hwrapper,
      .implBlock (.fixed [] [] ?_) (.given hwrapper) (.fixedBlock ?_ ?_)⟩ <;> decide +kernel

def exposeSecret (hname : given name) (hinner : given inner) : Code true given where
  lines := exposeSecretImpl name inner
  woven _ := by
    simp only [exposeSecretImpl, secrecyModule, toString, String.reduceAppend]
    refine .implBlock (.around [] [] [] hinner ?_ ?_ ?_ ?_) (.given hname)
      (.braced (.append (.fixed [] [] ?_) (.given hinner) ?_) (.cons (.fixed [] [] ?_) .nil)) <;>
      decide +kernel

def secretConstructor (hname : given name) (hwrapper : given wrapper)
    (hinner : given inner) : Code true given where
  lines := secretConstructorImpl name wrapper inner
  woven _ := by
    simp only [secretConstructorImpl, secretTrait, secrecyModule, toString, String.reduceAppend]
    refine .implBlock (.fixed [] [] ?_) (.given hname)
      (.spacedOut ⟨.cons (.around [] [] [] hinner ?_ ?_ ?_ ?_) .nil, .braced (.fixed [] [] ?_)
        (.cons (.around [] [.round, .round] [] hwrapper ?_ ?_ ?_ ?_) .nil)⟩) <;> decide +kernel

def secretDebug (hname : given name) (hinner : given inner) : Code true given where
  lines := secretDebugImpl name inner
  woven _ := by
    simp only [secretDebugImpl, exposed, formatterType, secrecyModule, toString,
      String.reduceAppend]
    refine .cons (.fixed [] [] ?_) (.implBlock (.fixed [] [] ?_) (.given hname)
      (.braced (.fixed [] [] ?_) (.cons (.around [] [] [.round] hinner ?_ ?_ ?_ ?_)
        (.cons (.fixed [] [] ?_) (.cons (.fixed [] [] ?_)
          (.cons (.fixed [.round] [] ?_) .nil)))))) <;>
      decide +kernel

def secretEq (hname : given name) (hinner : given inner) : Code true given where
  lines := secretEqImpl name inner
  woven _ := by
    simp only [secretEqImpl, exposed, secrecyModule, toString, String.reduceAppend]
    refine .cons (.fixed [] [] ?_) (.implBlock (.fixed [] [] ?_) (.given hname)
      (.braced (.fixed [] [] ?_) (.cons (.around [] [] [.round] hinner ?_ ?_ ?_ ?_)
        (.cons (.fixed [] [] ?_) (.cons (.fixed [] [] ?_)
          (.cons (.fixed [.round] [] ?_) .nil)))))) <;>
      decide +kernel

end Code

/-! ## Wrappers -/

/-- Whether the lines of items are woven. -/
def WovenItems (discreet : Bool) (given : String → Prop) (items : List Item) : Prop :=
  ∀ item ∈ items, ∀ outer, WovenLines discreet given outer outer item.lines

namespace WovenItems

variable {items more : List Item} {group : Group}

theorem nil : WovenItems discreet given [] := List.forall_mem_nil _

theorem cons {item : Item} (h : ∀ outer, WovenLines discreet given outer outer item.lines)
    (hitems : WovenItems discreet given items) : WovenItems discreet given (item :: items) :=
  List.forall_mem_cons.mpr ⟨h, hitems⟩

theorem append (h : WovenItems discreet given items) (hmore : WovenItems discreet given more) :
    WovenItems discreet given (items ++ more) :=
  List.forall_mem_append.mpr ⟨h, hmore⟩

theorem itemsIf {present : Bool} (h : WovenItems discreet given items) :
    WovenItems discreet given (itemsIf present items) := by
  cases present with
  | false => exact nil
  | true => exact h

/-- An item of lines that are woven. -/
theorem code (group : Group) (c : Code discreet given) :
    WovenItems discreet given [.code group c.lines] :=
  cons c.woven nil

end WovenItems

/-- The attribute lines that the generator puts on a definition are fixed. -/
theorem woven_generatorLines (h : ∀ line ∈ lines, line ∈ generatorLines) (outer : List Delimiter) :
    WovenLines discreet given outer outer lines := by
  induction lines with
  | nil => exact .nil
  | cons line lines ih =>
    obtain ⟨hline, hlines⟩ := List.forall_mem_cons.mp h
    have hfixed : ∃ cs, line = String.ofList cs ∧ fits true [] [] cs = true := by
      have hall : ∀ line ∈ generatorLines, fits true [] [] line.toList = true := by decide +kernel
      exact ⟨line.toList, String.ofList_toList.symm, hall line hline⟩
    obtain ⟨cs, rfl, hcs⟩ := hfixed
    exact .cons (.quiet [] [] hcs) (ih hlines)

/-- The line that defines a wrapper. -/
theorem woven_structLine (hname : given w.name) (hvisibility : given w.visibility)
    (hfield : ∀ outer, Woven discreet given outer outer begins opens field)
    (outer : List Delimiter) : WovenLines discreet given outer outer [w.structLine field] := by
  obtain ⟨begins, opens, hdefinition⟩ : ∃ begins opens,
      Woven discreet given outer outer begins opens s!"struct {w.name}({field});" := by
    refine ⟨_, _, .append (.append (.append (.append (.quiet [] [] ?_) (.given hname) ?_)
      (.quiet [] [.round] ?_) ?_) (hfield _) (Bool.or_eq_true_iff.mpr (.inl ?_)))
      (.quiet [.round] [] ?_) (Bool.or_true _)⟩ <;>
      decide +kernel
  rw [Wrapper.structLine]
  split
  · exact .cons (.append (.fixed [] [] (WovenLines.fits_layout discreet).1) hdefinition rfl) .nil
  · have hblank : fits true [] [] [' '] = true := by decide +kernel
    have hfront : Woven discreet given outer outer false true (w.visibility ++ " ") :=
      .append (.given hvisibility) (.quiet [] [] hblank) rfl
    exact .cons (hfront.append hdefinition rfl) .nil

/-- Whether the texts of a wrapper are among the given ones. -/
structure Wrapper.IsGiven (w : Wrapper) (given : String → Prop) : Prop where
  name : given w.name
  hidden : given (hiddenName w.name)
  inner : given w.inner
  visibility : given w.visibility

theorem woven_serdeItems (plan : Plan) : WovenItems discreet given (serdeItems plan) :=
  .itemsIf <| .cons (woven_generatorLines fun _ hline => List.mem_append_left _ hline) .nil

theorem woven_stringItems (hname : given name) (hinner : given inner) :
    WovenItems false given (stringItems name inner) := by
  obtain ⟨begins, opens, hvalue⟩ : ∃ begins opens, ∀ outer,
      Woven true given outer outer begins opens "Self(::core::convert::From::from(s))" := by
    refine ⟨_, _, fun outer => .fixed [] [] ?_⟩
    decide +kernel
  have hpath : "Display" ∈ intFormats := List.mem_cons_self
  exact .cons (Code.format hname hinner hpath).woven <|
    .cons (fun outer => ((Code.infallibleFromStr hname hvalue).woven outer).mono false) <|
    .cons (fun outer => ((Code.fromStrRef hname hvalue).woven outer).mono false) <|
    .cons (Code.asRef hname).woven .nil

theorem woven_secretStringItems (hname : given name) :
    WovenItems true given (secretStringItems name) := by
  obtain ⟨begins, opens, hvalue⟩ : ∃ begins opens, ∀ outer,
      Woven true given outer outer begins opens
        s!"<Self as {secretTrait}>::new(::core::convert::From::from(s))" := by
    simp only [secretTrait, toString, String.reduceAppend]
    refine ⟨_, _, fun outer => .fixed [] [] ?_⟩
    decide +kernel
  exact .cons (Code.infallibleFromStr hname hvalue).woven <|
    .cons (Code.fromStrRef hname hvalue).woven .nil

theorem woven_intItems (hname : given name) (hinner : given inner) :
    WovenItems false given (intItems name inner) := by
  intro item hitem
  obtain ⟨lines, hlines, rfl⟩ := List.mem_map.mp hitem
  simp only [List.mem_append, List.mem_map, List.mem_singleton] at hlines
  rcases hlines with ((⟨path, hpath, rfl⟩ | ⟨op, hop, rfl⟩) | ⟨op, hop, rfl⟩) | rfl
  · exact (Code.format hname hinner hpath).woven
  · exact (Code.operation hname hop).woven
  · exact (Code.assignment hname hop).woven
  · exact (Code.innerFromStr hname hinner).woven

/-- The code of a normal wrapper is woven from its texts. -/
theorem woven_normalBase (h : w.IsGiven given) (plan : Plan) :
    WovenItems false given (normalBase w.bare plan) := by
  have hrepr (outer : List Delimiter) :
      WovenLines false given outer outer ["#[repr(transparent)]"] :=
    woven_generatorLines (by simp [generatorLines, secretTypeLines]) outer
  obtain ⟨begins, opens, hfield⟩ : ∃ begins opens, ∀ outer,
      Woven false given outer outer begins opens s!"pub {w.inner}" := by
    refine ⟨_, _, fun outer => .append (.fixed [] [] ?_) (.given h.inner) ?_⟩ <;> decide +kernel
  have hcore : WovenItems false given
      [.code .core ["#[repr(transparent)]", w.structLine s!"pub {w.inner}"],
        .code .core (microtypeImpl w.name w.inner), .code .core (fromInnerImpl w.name w.inner)] :=
    .cons (fun outer => (hrepr outer).append (woven_structLine h.name h.visibility hfield outer)) <|
      .cons (Code.microtype h.name h.inner).woven <|
      .cons (Code.fromInner h.name h.inner).woven .nil
  have hderef : WovenItems false given
      [.code .dereference (derefImpl w.name w.inner), .code .dereference (derefMutImpl w.name)] :=
    .cons (Code.deref h.name h.inner).woven <| .cons (Code.derefMut h.name).woven .nil
  exact ((((woven_serdeItems plan).append hcore).append hderef.itemsIf).append
    (woven_stringItems h.name h.inner).itemsIf).append (woven_intItems h.name h.inner).itemsIf

/-- The definition of one of the two types of a secret. -/
theorem woven_secretStructItems {line : String} (plan : Plan)
    (h : ∀ outer, WovenLines true given outer outer [line]) :
    WovenItems true given (secretStructItems plan line) :=
  .cons (woven_generatorLines fun _ hline => List.mem_append_right _ hline) <|
    (woven_serdeItems plan).append (.cons h .nil)

/-- The code of a secret wrapper is woven from its texts, and discreet. -/
theorem woven_secretBase (h : w.IsGiven given) (plan : Plan) :
    WovenItems true given (secretBase w.bare plan) := by
  obtain ⟨begins, opens, hbox⟩ : ∃ begins opens, ∀ outer, Woven true given outer outer begins opens
      s!"{secrecyModule}::Secret<{hiddenName w.name}>" := by
    simp only [secrecyModule, toString, String.reduceAppend]
    refine ⟨_, _, fun outer => .around [] [] [] h.hidden ?_ ?_ ?_ ?_⟩ <;> decide +kernel
  have hhidden (outer : List Delimiter) : WovenLines true given outer outer
      [s!"struct {hiddenName w.name}({w.inner});"] := by
    refine .cons (.append (.append (.append (.append (.fixed [] [] ?_) (.given h.hidden) ?_)
      (.fixed [] [.round] ?_) ?_) (.given h.inner) ?_) (.fixed [.round] [] ?_) ?_) .nil <;>
      decide +kernel
  have hmark : WovenItems true given
      [.code .serializableSecret [emptyImpl s!"{secrecyModule}::SerializableSecret"
        (hiddenName w.name)]] := by
    simp only [secrecyModule, toString, String.reduceAppend]
    refine .cons (fun outer => Code.woven_emptyImpl ?_ h.hidden) .nil
    decide +kernel
  have htest : WovenItems true given (secretTestItems w.name w.inner plan) := by
    unfold secretTestItems
    split
    · exact .cons (Code.secretDebug h.name h.inner).woven <|
        .cons (Code.secretEq h.name h.inner).woven .nil
    · exact .cons (Code.secretDebug h.name h.inner).woven .nil
  have houter := woven_secretStructItems plan (woven_structLine h.name h.visibility hbox)
  have hinner := woven_secretStructItems plan hhidden
  have hmarkers : WovenItems true given
      [.code .secretWrapper (secretMarkerImpls (hiddenName w.name))] :=
    .cons (Code.secretMarkers h.hidden).woven .nil
  have haccess : WovenItems true given [.code .secretWrapper (exposeSecretImpl w.name w.inner),
      .code .secretWrapper (secretConstructorImpl w.name (hiddenName w.name) w.inner)] :=
    .cons (Code.exposeSecret h.name h.inner).woven <|
      .cons (Code.secretConstructor h.name h.hidden h.inner).woven .nil
  exact (((((houter.append hinner).append hmarkers).append hmark.itemsIf).append haccess).append
    htest).append (woven_secretStringItems h.name).itemsIf

/-- How a wrapper is made from its inner value. In a secret wrapper that is discreet. -/
theorem woven_constructorOf {variant : Variant} (hname : given name)
    (hvariant : discreet = true → variant = .secret) : ∃ begins opens, ∀ outer,
      Woven discreet given outer outer begins opens (constructorOf variant name) := by
  cases variant with
  | normal =>
    obtain rfl : discreet = false := Bool.eq_false_iff.mpr fun hd => by cases hvariant hd
    simp only [constructorOf, wrapperTrait, toString, String.append_assoc, String.reduceAppend]
    refine ⟨_, _, fun outer =>
      .append (.fixed [] [] ?_) (.append (.given hname) (.fixed [] [] ?_) ?_) ?_⟩ <;> decide +kernel
  | secret =>
    simp only [constructorOf, secretTrait, toString, String.append_assoc, String.reduceAppend]
    refine ⟨_, _, fun outer =>
      .append (.quiet [] [] ?_) (.append (.given hname) (.quiet [] [] ?_) ?_) ?_⟩ <;> decide +kernel

/-- How the inner value of a wrapper is borrowed. In a secret wrapper that is discreet. -/
theorem woven_borrowOf {variant : Variant} (hname : given name)
    (hvariant : discreet = true → variant = .secret) : ∃ begins opens, ∀ outer,
      Woven discreet given outer outer begins opens (borrowOf variant name) := by
  cases variant with
  | normal =>
    obtain rfl : discreet = false := Bool.eq_false_iff.mpr fun hd => by cases hvariant hd
    simp only [borrowOf, wrapperTrait, toString, String.append_assoc, String.reduceAppend]
    refine ⟨_, _, fun outer =>
      .append (.fixed [] [] ?_) (.append (.given hname) (.fixed [] [] ?_) ?_) ?_⟩ <;> decide +kernel
  | secret =>
    simp only [borrowOf, exposed, secrecyModule, toString, String.reduceAppend]
    refine ⟨_, _, fun outer => .quiet [] [] ?_⟩
    decide +kernel

/-- The conversions from and to a column are woven from the texts of the wrapper and the type of the
column. -/
theorem woven_columnItems {variant : Variant} {control : Control} {items : List Item}
    (h : w.IsGiven given)
    (hsql : ∀ mapping, control.columnMapping = some mapping → given mapping.sqlType.text)
    (hvariant : discreet = true → variant = .secret)
    (hitems : columnItems variant w control plan = .ok items) :
    WovenItems discreet given items := by
  rcases columnItems_ok_iff.mp hitems with ⟨-, rfl⟩ | ⟨mapping, -, hmapping, rfl⟩
  · exact .nil
  · obtain ⟨_, _, hconstructor⟩ := woven_constructorOf h.name hvariant
    obtain ⟨_, _, hborrowed⟩ := woven_borrowOf h.name hvariant
    have htype := hsql mapping hmapping
    exact .cons (Code.fromColumn h.name h.inner htype hconstructor).woven <|
      .cons (Code.toColumn h.name h.inner htype hborrowed).woven .nil

end Microtypes
