import Microtypes.Control.Arguments
import Microtypes.Control.Basic
import Microtypes.Fallible
import Microtypes.Grammar.Source

/-!
# Reading control attributes

The control attributes are checked in a fixed order: the secret, then the kind of the inner type,
then the column. Of the rules that are broken the first in this order decides, and a marker that
is given twice is reported before anything is read from it.

Each pass takes its own attributes out and hands the others to the next one. None takes out what
another looks for, so each finds what it would find among all attributes (`controls_eq`), and those
that remain at the end are the ones that are passed on (`extractControls_eq`).
-/

namespace Microtypes

/-- The only attribute of a marker, if there is one. -/
def markerAt (marker : Marker) (attributes : List Attribute) :
    Except Stop (Option Attribute) :=
  match attributesAt marker.path attributes with
  | [] => .ok none
  | [only] => .ok (some only)
  | _ :: second :: _ => .error (.of (.control (.duplicate marker.path)) second.location)

/-- The only attribute of a marker, if there is one, and the attributes beside it. -/
def takeMarker (marker : Marker) (attributes : List Attribute) :
    Except Stop (Option Attribute × List Attribute) := do
  return (← markerAt marker attributes, attributesBeside marker.path attributes)

/-- The argument that lets a secret be serialised. -/
def isSerializeWord (argument : List Token) : Bool :=
  match argument with
  | [only] => only.isIdent "serialize"
  | _ => false

/-- The argument that a malformed secret attribute is blamed on: the first that is not `serialize`,
or the last one. -/
def offendingArgument (arguments : List (List Token)) : List Token :=
  (arguments.find? (!isSerializeWord ·)).getD (arguments.getLastD [])

/-- What a secret attribute asks for. -/
def readSecret (a : Attribute) : Except Stop SecretRequest :=
  let malformed (place : Location) := Stop.of (.control .secretForm) place
  let firstArgument := (a.arguments.head?.map (·.location)).getD a.location
  match a.form with
  | .bare => .ok ⟨false, a.location⟩
  | .assigned _ | .delimited .square _ | .delimited .curly _ => .error (malformed firstArgument)
  | .delimited .round tokens =>
    match argumentLists tokens with
    | [] => .ok ⟨false, a.location⟩
    | argument :: others =>
      if isSerializeWord argument && others.isEmpty then .ok ⟨true, a.location⟩
      else
        match offendingArgument (argument :: others) with
        | [] => .error (.abort .emptyArgument)
        | token :: _ => .error (malformed token.location)

/-- The request for a secret wrapper among the attributes. -/
def secretControl (attributes : List Attribute) : Except Stop (Option SecretRequest) := do
  match ← markerAt .secret attributes with
  | none => return none
  | some marker => return some (← readSecret marker)

/-- The request for a secret wrapper, and the attributes beside it. -/
def takeSecret (attributes : List Attribute) :
    Except Stop (Option SecretRequest × List Attribute) := do
  return (← secretControl attributes, attributesBeside Marker.secret.path attributes)

/-- What the attributes of both kinds say about the inner type. Two statements that exclude each
other are blamed on the later one. -/
def kindOf : Option Attribute → Option Attribute → Except Stop (Option KindRequest)
  | some s, some i => .error (.of (.control .bothKinds) (s.location.later i.location))
  | some s, none => .ok (some ⟨.string, s.location⟩)
  | none, some i => .ok (some ⟨.int, i.location⟩)
  | none, none => .ok none

/-- The statement about the inner type, and the attributes beside it. -/
def takeKind (attributes : List Attribute) :
    Except Stop (Option KindRequest × List Attribute) := do
  let (string, rest) ← takeMarker .string attributes
  let (int, rest) ← takeMarker .int rest
  return (← kindOf string int, rest)

/-- The column type in the arguments of a column attribute. -/
def readColumnType (a : Attribute) : Except Problem WrittenType :=
  let broken (cause : ControlCause) (place : Location) : Except Problem WrittenType :=
    .error ⟨.control cause, place⟩
  match a.form with
  | .delimited .round (key :: rest) =>
    if !key.isIdent columnTypeKey then broken (.columnKey key.text) key.location
    else
      match rest with
      | [] => broken .columnEquals key.location
      | equals :: type =>
        if equals.text ≠ "=" then broken .columnEquals equals.location
        else
          match type.getLast? with
          | none => broken .columnType equals.location
          | some last => readTypeEndingAt type last.location
  | _ => broken .columnForm a.location

/-- The mapping to a column among the attributes. -/
def columnControl (attributes : List Attribute) : Except Stop (Option ColumnRequest) := do
  match ← markerAt .columnMapping attributes with
  | none => return none
  | some marker =>
    let sqlType ← (readColumnType marker).mapError .problem
    return some ⟨sqlType, marker.location⟩

/-- The mapping to a column, and the attributes beside it. -/
def takeColumn (attributes : List Attribute) :
    Except Stop (Option ColumnRequest × List Attribute) := do
  return (← columnControl attributes, attributesBeside Marker.columnMapping.path attributes)

/-- What the control attributes among the attributes ask for, and the attributes beside them. -/
def extractControls (attributes : List Attribute) :
    Except Stop (Control × List Attribute) := do
  let (secret, rest) ← takeSecret attributes
  let (kind, rest) ← takeKind rest
  let (columnMapping, rest) ← takeColumn rest
  return ({ secret, kind, columnMapping }, rest)

/-- What the control attributes among the attributes ask for. -/
def controls (attributes : List Attribute) : Except Stop Control :=
  (extractControls attributes).map Prod.fst

/-! ## Passes over all attributes -/

/-- What all attributes together say about the inner type. -/
def kindControl (attributes : List Attribute) : Except Stop (Option KindRequest) := do
  let string ← markerAt .string attributes
  let int ← markerAt .int attributes
  kindOf string int

theorem markerAt_attributesBeside {marker taken : Marker} (h : marker.path ≠ taken.path)
    (attributes : List Attribute) :
    markerAt marker (attributesBeside taken.path attributes) = markerAt marker attributes := by
  have hat : attributesAt marker.path (attributesBeside taken.path attributes) =
      attributesAt marker.path attributes := by
    rw [attributesAt, attributesBeside, List.filter_filter]
    refine List.filter_congr fun a _ => ?_
    by_cases ha : a.path = marker.path <;> simp [ha, h]
  rw [markerAt, markerAt, hat]

theorem takeKind_eq (attributes : List Attribute) : takeKind attributes =
    (kindControl attributes).map
      (·, attributesBeside Marker.int.path (attributesBeside Marker.string.path attributes)) := by
  rw [takeKind, kindControl, takeMarker]
  cases markerAt .string attributes with
  | error stop => rfl
  | ok string =>
    simp only [bind, Except.bind, pure, Except.pure]
    rw [takeMarker, markerAt_attributesBeside (by decide)]
    cases markerAt .int attributes with
    | error stop => rfl
    | ok int =>
      simp only [bind, Except.bind, pure, Except.pure]
      cases kindOf string int <;> rfl

/-- What is taken out before a pass is nothing that the pass looks for. -/
theorem kindControl_attributesBeside (attributes : List Attribute) :
    kindControl (attributesBeside Marker.secret.path attributes) = kindControl attributes := by
  rw [kindControl, kindControl, markerAt_attributesBeside (by decide),
    markerAt_attributesBeside (by decide)]

theorem columnControl_attributesBeside {taken : Marker}
    (h : Marker.columnMapping.path ≠ taken.path) (attributes : List Attribute) :
    columnControl (attributesBeside taken.path attributes) = columnControl attributes := by
  rw [columnControl, columnControl, markerAt_attributesBeside h]

/-- The attributes beside those of all markers are the ones that are passed on. -/
theorem attributesBeside_eq_passedOn (attributes : List Attribute) :
    attributesBeside Marker.columnMapping.path (attributesBeside Marker.int.path
      (attributesBeside Marker.string.path (attributesBeside Marker.secret.path attributes))) =
      passedOn attributes := by
  simp only [attributesBeside, passedOn, List.filter_filter]
  refine List.filter_congr fun a _ => ?_
  simp only [Attribute.isControl, Marker.all, List.any_cons, List.any_nil, Bool.or_false,
    Bool.not_or, bne, Bool.beq_comm (a := a.path)]
  ac_rfl

/-- Each pass finds what it finds among all attributes, and what remains is what is passed on. -/
theorem extractControls_eq_map (attributes : List Attribute) : extractControls attributes = (do
    let secret ← secretControl attributes
    let kind ← kindControl attributes
    let columnMapping ← columnControl attributes
    return { secret, kind, columnMapping } : Except Stop Control).map (·, passedOn attributes) := by
  rw [extractControls, takeSecret]
  cases secretControl attributes with
  | error stop => rfl
  | ok secret =>
    simp only [bind, Except.bind, pure, Except.pure]
    rw [takeKind_eq, kindControl_attributesBeside]
    cases kindControl attributes with
    | error stop => rfl
    | ok kind =>
      simp only [Except.map]
      rw [takeColumn, columnControl_attributesBeside (by decide),
        columnControl_attributesBeside (by decide), columnControl_attributesBeside (by decide),
        attributesBeside_eq_passedOn]
      cases columnControl attributes <;> rfl

theorem controls_eq (attributes : List Attribute) : controls attributes = do
    let secret ← secretControl attributes
    let kind ← kindControl attributes
    let columnMapping ← columnControl attributes
    return { secret, kind, columnMapping } := by
  rw [controls, extractControls_eq_map, map_fst_map]

theorem extractControls_eq (attributes : List Attribute) :
    extractControls attributes = (controls attributes).map (·, passedOn attributes) := by
  rw [controls_eq, extractControls_eq_map]

end Microtypes
