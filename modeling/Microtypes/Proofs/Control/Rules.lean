import Microtypes.Proofs.Control.Requests
import Microtypes.Proofs.Control.Secret

/-!
# The rules about control attributes

Control attributes keep seven rules, which are checked in a fixed order. A list of attributes is
refused for the first rule that it breaks, and else each attribute is granted what it asks for
(`settles_controls`).
-/

namespace Microtypes

open Lexeme (punct ident)

variable {attrs : List Attribute} {a : Attribute} {marker : Marker} {tokens : List Token}
  {type : WrittenType} {problem : Problem}

/-! ## Forms of attributes -/

namespace Attribute

/-- Whether the attribute is its word alone, or has round brackets around nothing. -/
def IsPlain (a : Attribute) : Prop :=
  a.form = .bare ∨ a.form = .delimited .round []

/-- Whether the attribute has round brackets around `serialize`, which a comma may follow. -/
def AsksToSerialize (a : Attribute) : Prop :=
  ∃ tokens, a.form = .delimited .round tokens ∧
    (lexemes tokens = [ident "serialize"] ∨ lexemes tokens = [ident "serialize", punct ","])

/-- Whether the attribute has round brackets around the key, an equals sign and one complete type.
-/
def WritesColumn (a : Attribute) (type : WrittenType) : Prop :=
  ∃ key equals tokens, a.form = .delimited .round (key :: equals :: tokens) ∧
    key.toLexeme = ident columnTypeKey ∧ equals.text = "=" ∧ readWholeType tokens = .ok type

/-- Whether a request is that of a secret attribute. -/
def AsksSecret (a : Attribute) (request : SecretRequest) : Prop :=
  (request.serialize = true ↔ a.AsksToSerialize) ∧ request.location = a.location

/-- Whether a request is that of a column attribute. -/
def AsksColumn (a : Attribute) (request : ColumnRequest) : Prop :=
  a.WritesColumn request.sqlType ∧ request.location = a.location

end Attribute

/-! ## Rules -/

/-- The rules about control attributes. -/
inductive ControlRule where
  /-- A control attribute is given once at most. -/
  | once (marker : Marker)
  /-- The secret attribute has one of its two forms. -/
  | secretForm
  /-- The inner type is said to be a string or an integer, and not both. -/
  | oneKind
  /-- The column attribute has its form. -/
  | columnForm

/-- The rules in the order in which they are checked. -/
def ControlRule.all : List ControlRule :=
  [.once .secret, .secretForm, .once .string, .once .int, .oneKind, .once .columnMapping,
    .columnForm]

/-- Whether attributes break a rule, and by which problem. -/
inductive Breaks (attrs : List Attribute) : ControlRule → Problem → Prop
  /-- The second attribute is blamed. -/
  | once {marker : Marker} {first second : Attribute} {more : List Attribute}
      (h : attributesAt marker.path attrs = first :: second :: more) :
      Breaks attrs (.once marker) ⟨.control (.duplicate marker.path), second.location⟩
  | secretForm {only : Attribute} {location : Location}
      (h : attributesAt Marker.secret.path attrs = [only]) (hplain : ¬ only.IsPlain)
      (hserialize : ¬ only.AsksToSerialize) :
      Breaks attrs .secretForm ⟨.control .secretForm, location⟩
  /-- The later of the two attributes is blamed. -/
  | oneKind {string int : Attribute} {strings ints : List Attribute} {location : Location}
      (hstring : attributesAt Marker.string.path attrs = string :: strings)
      (hint : attributesAt Marker.int.path attrs = int :: ints)
      (heither : location = string.location ∨ location = int.location)
      (hlast : ¬ location < string.location ∧ ¬ location < int.location) :
      Breaks attrs .oneKind ⟨.control .bothKinds, location⟩
  | columnForm {only : Attribute} {problem : Problem}
      (h : attributesAt Marker.columnMapping.path attrs = [only])
      (hform : ∀ type, ¬ only.WritesColumn type) (hkind : problem.cause.kind = .grammar) :
      Breaks attrs .columnForm problem

/-- Whether attributes keep a rule. -/
def KeepsRule (attrs : List Attribute) (rule : ControlRule) : Prop :=
  ∀ problem, ¬ Breaks attrs rule problem

/-- Whether a problem is that of the first of some rules that attributes break. -/
inductive BreaksFirst (attrs : List Attribute) : List ControlRule → Problem → Prop
  | here {rule : ControlRule} {rules : List ControlRule} {problem : Problem}
      (h : Breaks attrs rule problem) : BreaksFirst attrs (rule :: rules) problem
  | later {rule : ControlRule} {rules : List ControlRule} {problem : Problem}
      (hkeeps : KeepsRule attrs rule) (h : BreaksFirst attrs rules problem) :
      BreaksFirst attrs (rule :: rules) problem

/-- Whether attributes are granted what they ask for, and all others are passed on. -/
structure Grants (attrs : List Attribute) (control : Control) : Prop where
  secret : Option.Rel Attribute.AsksSecret (attributesAt Marker.secret.path attrs).head?
    control.secret
  kind : control.kind =
    ((attributesAt Marker.string.path attrs).head?.map (⟨.string, ·.location⟩)).or
      ((attributesAt Marker.int.path attrs).head?.map (⟨.int, ·.location⟩))
  columnMapping : Option.Rel Attribute.AsksColumn
    (attributesAt Marker.columnMapping.path attrs).head? control.columnMapping
  passedOn : passedOn attrs =
    attrs.filter fun a => a.path ∉ ["secret", "string", "int", "diesel"]

/-- Whether a run is refused for the first of some rules that attributes break, or they keep all of
these rules and the run has a result as wanted. -/
inductive Settles {α : Type} (attrs : List Attribute) (rules : List ControlRule)
    (Wanted : α → Prop) : Except Stop α → Prop
  | refused {problem : Problem} (h : BreaksFirst attrs rules problem) :
      Settles attrs rules Wanted (.error (.problem problem))
  | granted {result : α} (hkeeps : ∀ rule ∈ rules, KeepsRule attrs rule) (hresult : Wanted result) :
      Settles attrs rules Wanted (.ok result)

/-! ## Reading one attribute -/

/-- A single empty piece is all there is between no commas. -/
theorem tokens_of_commaPieces (h : commaPieces 0 tokens = [[]]) : tokens = [] := by
  cases tokens with
  | nil => rfl
  | cons t rest =>
    rw [commaPieces] at h
    split at h
    · exact absurd (List.cons.inj h).2 (commaPieces_ne_nil 0 rest)
    · split at h <;> cases h

theorem argumentLists_eq_nil_iff : argumentLists tokens = [] ↔ tokens = [] := by
  constructor
  · intro h
    unfold argumentLists at h
    simp only at h
    split at h
    · next hlast =>
      obtain ⟨before, hpieces⟩ := List.getLast?_eq_some_iff.mp hlast
      rw [hpieces, List.dropLast_concat] at h
      subst h
      exact tokens_of_commaPieces hpieces
    · exact absurd h (commaPieces_ne_nil 0 tokens)
  · rintro rfl
    rfl

/-- The arguments are `serialize` alone if the tokens are this word, with or without a comma. -/
theorem argumentLists_serialize_iff :
    (∃ argument, argumentLists tokens = [argument] ∧ isSerializeWord argument = true) ↔
      lexemes tokens = [ident "serialize"] ∨
        lexemes tokens = [ident "serialize", punct ","] := by
  constructor
  · rintro ⟨argument, hlists, hword⟩
    unfold argumentLists at hlists
    simp only at hlists
    split at hlists
    · next hlast =>
      obtain ⟨before, hpieces⟩ := List.getLast?_eq_some_iff.mp hlast
      rw [hpieces, List.dropLast_concat] at hlists
      subst hlists
      obtain ⟨word, more, rfl, hlex, hmore⟩ := exists_of_commaPieces_serialize hword hpieces
      obtain ⟨comma, rest, rfl, hcomma, hrest⟩ := exists_of_commaPieces_nil (by simp) hmore
      obtain rfl := tokens_of_commaPieces hrest
      right
      simp [lexemes, hlex, hcomma]
    · obtain ⟨word, rest, rfl, hlex, hrest⟩ := exists_of_commaPieces_serialize hword hlists
      obtain rfl := tokens_of_commaPieces hrest
      left
      simp [lexemes, hlex]
  · intro h
    have hword : ∃ word rest, tokens = word :: rest ∧ word.toLexeme = ident "serialize" ∧
        (rest = [] ∨ ∃ comma, rest = [comma] ∧ comma.toLexeme = punct ",") := by
      rcases h with h | h
      · obtain ⟨word, rest, rfl, hword, hrest⟩ := List.map_eq_cons_iff.mp h
        exact ⟨word, rest, rfl, hword, .inl (List.map_eq_nil_iff.mp hrest)⟩
      · obtain ⟨word, rest, rfl, hword, hrest⟩ := List.map_eq_cons_iff.mp h
        obtain ⟨comma, rest, rfl, hcomma, hrest⟩ := List.map_eq_cons_iff.mp hrest
        obtain rfl := List.map_eq_nil_iff.mp hrest
        exact ⟨word, [comma], rfl, hword, .inr ⟨comma, rfl, hcomma⟩⟩
    obtain ⟨word, rest, rfl, hlex, hrest⟩ := hword
    refine ⟨[word], ?_, by simp [isSerializeWord, Lexeme.isIdent, hlex, ident]⟩
    obtain ⟨piece, pieces, hpieces, hall⟩ := commaPieces_serialize hlex rest
    rcases hrest with rfl | ⟨comma, rfl, hcomma⟩
    · cases hpieces
      rw [argumentLists, hall]
      rfl
    · rw [commaPieces_comma hcomma] at hpieces
      cases hpieces
      rw [argumentLists, hall]
      rfl

/-- A plain secret attribute does not ask to be serialised. -/
theorem not_asksToSerialize_of_isPlain (h : a.IsPlain) : ¬ a.AsksToSerialize := by
  rintro ⟨tokens, hround, hlex⟩
  rcases h with hform | hform
  · cases hform.symm.trans hround
  · cases hform.symm.trans hround
    simp [lexemes] at hlex

theorem readSecret_ok_iff {request : SecretRequest} : readSecret a = .ok request ↔
    request.location = a.location ∧
      ((request.serialize = true ∧ a.AsksToSerialize) ∨
        (request.serialize = false ∧ a.IsPlain)) := by
  obtain ⟨serialize, location⟩ := request
  have hok (b : Bool) : (Except.ok (⟨b, a.location⟩ : SecretRequest) : Except Stop _) =
      .ok ⟨serialize, location⟩ ↔ location = a.location ∧ serialize = b := by
    simp [eq_comm, and_comm]
  unfold readSecret
  split
  · next hform => simp [hok, Attribute.AsksToSerialize, Attribute.IsPlain, hform]
  · next hform => simp [Attribute.AsksToSerialize, Attribute.IsPlain, hform]
  · next hform => simp [Attribute.AsksToSerialize, Attribute.IsPlain, hform]
  · next hform => simp [Attribute.AsksToSerialize, Attribute.IsPlain, hform]
  · next tokens hform =>
    have hplain : a.IsPlain ↔ argumentLists tokens = [] := by
      simp [Attribute.IsPlain, hform, argumentLists_eq_nil_iff]
    have hasks : a.AsksToSerialize ↔ ∃ argument, argumentLists tokens = [argument] ∧
        isSerializeWord argument = true := by
      simp [Attribute.AsksToSerialize, hform, argumentLists_serialize_iff]
    rw [hplain, hasks]
    cases argumentLists tokens with
    | nil => simp [hok]
    | cons argument others =>
      simp only [List.cons.injEq, reduceCtorEq, and_false, or_false]
      split
      · next hsingle =>
        obtain ⟨hword, hothers⟩ := Bool.and_eq_true_iff.mp hsingle
        rw [List.isEmpty_iff] at hothers
        simp [hok, hword, hothers]
      · next hsingle =>
        constructor
        · intro hread
          split at hread <;> cases hread
        · rintro ⟨-, -, _, ⟨rfl, rfl⟩, hword⟩
          exact absurd (by simp [hword]) hsingle

theorem cause_of_readSecret (h : readSecret a = .error (.problem problem)) :
    problem.cause = .control .secretForm := by
  unfold readSecret at h
  split at h
  · cases h
  · cases h; rfl
  · cases h; rfl
  · cases h; rfl
  · split at h
    · cases h
    · split at h
      · cases h
      · split at h
        · cases h
        · cases h; rfl

theorem readColumnType_ok_iff : readColumnType a = .ok type ↔ a.WritesColumn type := by
  constructor
  · intro h
    unfold readColumnType at h
    split at h
    · next key rest hform =>
      split at h
      · cases h
      · next hkey =>
        split at h
        · cases h
        · next equals tokens =>
          split at h
          · cases h
          · next hequals =>
            split at h
            · cases h
            · refine ⟨key, equals, tokens, hform, ?_, Decidable.of_not_not hequals, ?_⟩
              · obtain ⟨hkind, htext⟩ : key.kind = .ident ∧ key.text = columnTypeKey := by
                  simpa [Lexeme.isIdent] using hkey
                rw [ident, ← hkind, ← htext]
              · exact mapError_eq_ok_iff.mp h
    · cases h
  · rintro ⟨key, equals, tokens, hform, hkey, hequals, hread⟩
    cases htokens : tokens.getLast? with
    | none =>
      obtain rfl := List.getLast?_eq_none_iff.mp htokens
      cases hread
    | some last =>
      have hending : readTypeEndingAt tokens last.location = .ok type :=
        mapError_eq_ok_iff.mpr hread
      simp [readColumnType, hform, hkey, hequals, htokens, Lexeme.isIdent, ident, hending]

theorem kind_of_readColumnType (h : readColumnType a = .error problem) :
    problem.cause.kind = .grammar := by
  unfold readColumnType at h
  split at h
  · split at h
    · cases h; rfl
    · split at h
      · cases h; rfl
      · split at h
        · cases h; rfl
        · split at h
          · cases h; rfl
          · obtain ⟨fault, -, rfl⟩ := mapError_eq_error_iff.mp h
            rfl
  · cases h; rfl

/-! ## One rule after the other -/

variable {α β : Type} {rules more : List ControlRule}

theorem BreaksFirst.append (h : BreaksFirst attrs rules problem) (more : List ControlRule) :
    BreaksFirst attrs (rules ++ more) problem := by
  induction h with
  | here h => exact .here h
  | later hkeeps _ ih => exact .later hkeeps ih

theorem BreaksFirst.after (hkeeps : ∀ rule ∈ rules, KeepsRule attrs rule)
    (h : BreaksFirst attrs more problem) : BreaksFirst attrs (rules ++ more) problem := by
  induction rules with
  | nil => exact h
  | cons rule rules ih =>
    obtain ⟨hrule, hrules⟩ := List.forall_mem_cons.mp hkeeps
    exact .later hrule (ih hrules)

/-- The rules of a second run come after those of the first. -/
theorem Settles.bind {Wanted : α → Prop} {Wanted' : β → Prop} {run : Except Stop α}
    {next : α → Except Stop β} (h : Settles attrs rules Wanted run)
    (hnext : ∀ result, run = .ok result → Wanted result →
      Settles attrs more Wanted' (next result)) :
    Settles attrs (rules ++ more) Wanted' (run >>= next) := by
  cases h with
  | refused h => exact .refused (h.append more)
  | granted hkeeps hresult =>
    have hsettles := hnext _ rfl hresult
    simp only [Bind.bind, Except.bind]
    generalize next _ = outcome at hsettles
    cases hsettles with
    | refused h => exact .refused (h.after hkeeps)
    | granted hmore hresult' =>
      exact .granted (List.forall_mem_append.mpr ⟨hkeeps, hmore⟩) hresult'

theorem settles_markerAt (marker : Marker) (attrs : List Attribute) :
    Settles attrs [.once marker] (fun found => attributesAt marker.path attrs = found.toList)
      (markerAt marker attrs) := by
  unfold markerAt
  split
  · next hnone =>
    refine .granted (List.forall_mem_singleton.mpr ?_) hnone
    rintro _ ⟨htwice⟩
    simp [hnone] at htwice
  · next only hone =>
    refine .granted (List.forall_mem_singleton.mpr ?_) hone
    rintro _ ⟨htwice⟩
    simp [hone] at htwice
  · next htwice => exact .refused (.here (.once htwice))

/-! ## Each pass -/

theorem Location.later_eq_or (a b : Location) : a.later b = a ∨ a.later b = b := by
  unfold Location.later
  split <;> simp

theorem Location.not_later_lt (a b : Location) : ¬ a.later b < a ∧ ¬ a.later b < b := by
  have hlt (a b : Location) :
      a < b ↔ a.line < b.line ∨ (a.line = b.line ∧ a.column < b.column) := Iff.rfl
  unfold Location.later
  split
  · next h =>
    rw [hlt] at h
    rw [hlt, hlt]
    omega
  · next h =>
    rw [hlt] at h
    rw [hlt, hlt]
    omega

theorem keeps_secretForm (h : ∀ a ∈ attributesAt Marker.secret.path attrs,
    a.IsPlain ∨ a.AsksToSerialize) : KeepsRule attrs .secretForm := by
  intro problem hbreaks
  cases hbreaks with
  | secretForm hone hplain hasks =>
    rcases h _ (hone ▸ List.mem_singleton_self _) with hform | hform
    · exact hplain hform
    · exact hasks hform

theorem settles_readSecret (hone : attributesAt Marker.secret.path attrs = [a])
    (h : ∀ abort, readSecret a ≠ .error (.abort abort)) :
    Settles attrs [.secretForm] a.AsksSecret (readSecret a) := by
  cases hread : readSecret a with
  | error stop =>
    cases stop with
    | abort abort => exact absurd hread (h abort)
    | problem problem =>
      obtain ⟨cause, location⟩ := problem
      obtain rfl : cause = .control .secretForm := cause_of_readSecret hread
      refine .refused (.here (.secretForm hone (fun hplain => ?_) fun hasks => ?_))
      · have hok : readSecret a = .ok ⟨false, a.location⟩ :=
          readSecret_ok_iff.mpr ⟨rfl, .inr ⟨rfl, hplain⟩⟩
        cases hread.symm.trans hok
      · have hok : readSecret a = .ok ⟨true, a.location⟩ :=
          readSecret_ok_iff.mpr ⟨rfl, .inl ⟨rfl, hasks⟩⟩
        cases hread.symm.trans hok
  | ok request =>
    obtain ⟨hlocation, hform⟩ := readSecret_ok_iff.mp hread
    have hkeeps : KeepsRule attrs .secretForm := by
      refine keeps_secretForm fun b hb => ?_
      obtain rfl := List.mem_singleton.mp (hone ▸ hb)
      exact hform.elim (fun hform => .inr hform.2) fun hform => .inl hform.2
    refine .granted (List.forall_mem_singleton.mpr hkeeps) ⟨?_, hlocation⟩
    rcases hform with ⟨hserialize, hasks⟩ | ⟨hserialize, hplain⟩
    · simp [hserialize, hasks]
    · simp [hserialize, not_asksToSerialize_of_isPlain hplain]

theorem settles_secretControl (h : ∀ abort, secretControl attrs ≠ .error (.abort abort)) :
    Settles attrs [.once .secret, .secretForm]
      (Option.Rel Attribute.AsksSecret (attributesAt Marker.secret.path attrs).head?)
      (secretControl attrs) := by
  unfold secretControl at h ⊢
  refine (settles_markerAt .secret attrs).bind fun found hrun hfound => ?_
  rw [hrun] at h
  cases found with
  | none =>
    rw [hfound]
    refine .granted (List.forall_mem_singleton.mpr (keeps_secretForm fun a ha => ?_)) .none
    rw [hfound] at ha
    cases ha
  | some a =>
    have hread : Settles attrs [.secretForm] a.AsksSecret (readSecret a) := by
      refine settles_readSecret hfound fun abort habort => h abort ?_
      simp [Bind.bind, Except.bind, habort]
    rw [hfound]
    refine hread.bind fun request _ hrequest => ?_
    exact .granted (List.forall_mem_nil _) (.some hrequest)

theorem settles_kindControl (attrs : List Attribute) :
    Settles attrs [.once .string, .once .int, .oneKind]
      (· = ((attributesAt Marker.string.path attrs).head?.map (⟨.string, ·.location⟩)).or
        ((attributesAt Marker.int.path attrs).head?.map (⟨.int, ·.location⟩)))
      (kindControl attrs) := by
  unfold kindControl
  refine (settles_markerAt .string attrs).bind fun string _ hstring => ?_
  refine (settles_markerAt .int attrs).bind fun int _ hint => ?_
  have hkeeps (h : string = none ∨ int = none) : KeepsRule attrs .oneKind := by
    intro problem hbreaks
    cases hbreaks with
    | oneKind hs hi =>
      rcases h with rfl | rfl
      · simp [hstring] at hs
      · simp [hint] at hi
  cases string with
  | none =>
    rw [hstring, hint]
    cases int with
    | none => exact .granted (List.forall_mem_singleton.mpr (hkeeps (.inl rfl))) rfl
    | some i => exact .granted (List.forall_mem_singleton.mpr (hkeeps (.inl rfl))) rfl
  | some s =>
    cases int with
    | none =>
      rw [hstring, hint]
      exact .granted (List.forall_mem_singleton.mpr (hkeeps (.inr rfl))) rfl
    | some i =>
      exact .refused (.here (.oneKind hstring hint (Location.later_eq_or ..)
        (Location.not_later_lt ..)))

theorem keeps_columnForm (h : ∀ a ∈ attributesAt Marker.columnMapping.path attrs,
    ∃ type, a.WritesColumn type) : KeepsRule attrs .columnForm := by
  intro problem hbreaks
  cases hbreaks with
  | columnForm hone hform =>
    obtain ⟨type, hwrites⟩ := h _ (hone ▸ List.mem_singleton_self _)
    exact hform type hwrites

theorem settles_readColumnType (hone : attributesAt Marker.columnMapping.path attrs = [a]) :
    Settles attrs [.columnForm] a.WritesColumn ((readColumnType a).mapError .problem) := by
  cases hread : readColumnType a with
  | error problem =>
    refine .refused (.here (.columnForm hone (fun type hwrites => ?_)
      (kind_of_readColumnType hread)))
    cases hread.symm.trans (readColumnType_ok_iff.mpr hwrites)
  | ok type =>
    have hwrites := readColumnType_ok_iff.mp hread
    refine .granted (List.forall_mem_singleton.mpr (keeps_columnForm fun b hb => ?_)) hwrites
    obtain rfl := List.mem_singleton.mp (hone ▸ hb)
    exact ⟨type, hwrites⟩

theorem settles_columnControl (attrs : List Attribute) :
    Settles attrs [.once .columnMapping, .columnForm]
      (Option.Rel Attribute.AsksColumn (attributesAt Marker.columnMapping.path attrs).head?)
      (columnControl attrs) := by
  unfold columnControl
  refine (settles_markerAt .columnMapping attrs).bind fun found _ hfound => ?_
  rw [hfound]
  cases found with
  | none =>
    refine .granted (List.forall_mem_singleton.mpr (keeps_columnForm fun a ha => ?_)) .none
    rw [hfound] at ha
    cases ha
  | some a =>
    refine (settles_readColumnType hfound).bind fun type _ hwrites => ?_
    exact .granted (List.forall_mem_nil _) (.some ⟨hwrites, rfl⟩)

/-! ## All rules -/

/-- Control attributes are refused for the first rule that they break. Otherwise each is granted
what it asks for, and all other attributes are passed on in order. -/
theorem settles_controls (hreturns : ∀ abort, controls attrs ≠ .error (.abort abort)) :
    Settles attrs ControlRule.all (Grants attrs) (controls attrs) := by
  have hsecret := settles_secretControl fun abort habort =>
    hreturns abort (controls_aborts_iff.mpr (secretControl_aborts_iff.mp habort))
  rw [controls_eq]
  refine hsecret.bind fun secret _ hsecret => ?_
  refine (settles_kindControl attrs).bind fun kind _ hkind => ?_
  refine (settles_columnControl attrs).bind fun columnMapping _ hcolumn => ?_
  exact .granted (List.forall_mem_nil _) ⟨hsecret, hkind, hcolumn, passedOn_eq_filter attrs⟩

theorem settles_controls_serialize :
    ∃ attrs control, (∀ abort, controls attrs ≠ .error (.abort abort)) ∧
      controls attrs = .ok control ∧ control.secret = some ⟨true, ⟨1, 8⟩⟩ ∧
      control.kind = some ⟨.string, ⟨1, 32⟩⟩ ∧
      Settles attrs ControlRule.all (Grants attrs) (.ok control) := by
  have hok : controls
      [⟨"secret", .delimited .round [⟨ident "serialize", ⟨1, 10⟩, 9, 18⟩,
          ⟨punct ",", ⟨1, 19⟩, 18, 19⟩], "#[secret(serialize,)]", ⟨1, 8⟩⟩,
        ⟨"inline", .bare, "#[inline]", ⟨1, 22⟩⟩, ⟨"string", .bare, "#[string]", ⟨1, 32⟩⟩] =
      .ok ⟨some ⟨true, ⟨1, 8⟩⟩, some ⟨.string, ⟨1, 32⟩⟩, none⟩ := rfl
  have hreturns : ∀ abort, controls
      [⟨"secret", .delimited .round [⟨ident "serialize", ⟨1, 10⟩, 9, 18⟩,
          ⟨punct ",", ⟨1, 19⟩, 18, 19⟩], "#[secret(serialize,)]", ⟨1, 8⟩⟩,
        ⟨"inline", .bare, "#[inline]", ⟨1, 22⟩⟩, ⟨"string", .bare, "#[string]", ⟨1, 32⟩⟩] ≠
      .error (.abort abort) := by
    rw [hok]
    simp
  have hsettles := settles_controls hreturns
  rw [hok] at hsettles
  exact ⟨_, _, hreturns, hok, rfl, rfl, hsettles⟩

end Microtypes
