import Mathlib.Data.List.Infix
import Microtypes.Proofs.Grammar.HiddenName
import Microtypes.Proofs.Grammar.TypeCompleteness
import Microtypes.Proofs.Rust.Template

/-!
# The exposure of secrets

A secret wrapper keeps its value in a box that only lends it (`keepsSecret_of_outcomeOf`). No line
of its code has a word that gives the value away, unless the word is in a text that comes from the
source. Output and comparison of the value are there in tests only, and serialisation only if it is
asked for.
-/

namespace Microtypes

open Lexeme (punct ident)

variable {w : Wrapper} {control : Control} {features : Features} {plan : Plan} {g : Generated}
  {marker : SecretRequest} {items more : List Item} {item : Item} {ts : List Lexeme}
  {name inner path type line text word : String} {lines body : List String}

/-! ## Wrappers that keep a value secret -/

/-- Whether a text has a word in it. -/
def Holds (text word : String) : Prop :=
  word.toList <:+: text.toList

/-- The texts of a wrapper that come from the source. -/
def Wrapper.texts (w : Wrapper) (control : Control) : List String :=
  [w.name, w.inner, w.visibility] ++ w.attributes ++
    (control.columnMapping.map (·.sqlType.text)).toList

/-- Whether a line is an attribute. -/
def isAttributeLine (line : String) : Bool :=
  ['#', '['].isPrefixOf line.toList

/-- The first line of an item that is no attribute. An attached item has attributes only. -/
def Item.opening? (item : Item) : Option String :=
  if item.attached then none else item.lines.find? fun line => !isAttributeLine line

/-- Whether a line begins an implementation of a trait for a type. -/
def Implements (path type line : String) : Prop :=
  line = s!"impl {path} for {type} \x7b" ∨ line = s!"impl {path} for {type} \x7b\x7d"

/-- The traits that show or compare values. -/
def revealingTraits : List String := ["::core::fmt::Debug", "::core::cmp::PartialEq"]

/-- The secret box of a type. -/
def boxOf (type : String) : String := s!"{secrecyModule}::Secret<{type}>"

/-- Whether the text of a field begins with a visibility. -/
def HasVisibility (field : String) : Prop :=
  ∃ ts, lexed field.toList = .ok (ident "pub" :: ts)

/-- Whether a secret wrapper keeps its value secret. -/
structure Generated.KeepsSecret (g : Generated) (w : Wrapper) (control : Control)
    (marker : SecretRequest) (features : Features) : Prop where
  /-- A word that gives the value away is in the code only if it comes from the source. -/
  silent : ∀ word ∈ exposingWords, (∀ text ∈ w.texts control, ¬ Holds text word) →
    ∀ item ∈ g.items, ∀ line ∈ item.lines, ¬ Holds line word
  /-- The value is shown and compared in tests only. -/
  tested : ∀ item ∈ g.items, ∀ line ∈ item.opening?, ∀ path ∈ revealingTraits,
    Implements path w.name line → item.lines.head? = some "#[cfg(test)]"
  /-- The items that stand by themselves are the definitions of the wrapper, whose field is the box
  of the hidden wrapper, and of the hidden wrapper, whose field is the inner type, and then
  implementations. -/
  boxed : ∃ impls, g.items.filter (!·.attached) = .code .secretWrapper
      [w.structLine (boxOf (hiddenName w.name))] ::
    .code .secretWrapper [s!"struct {hiddenName w.name}({w.inner});"] :: impls ∧
      ∀ item ∈ impls, ∃ line ∈ item.opening?, "impl".toList <+: line.toList
  /-- Neither field can be reached from outside. -/
  sealed : ¬ HasVisibility (boxOf (hiddenName w.name)) ∧
    ∀ ts, Derives .type ts → (∀ t ∈ ts, t.Shaped) → w.inner = spelling ts → ¬ HasVisibility w.inner
  /-- What concerns serialisation is there exactly if it is asked for. -/
  serialised : (Covers g.items .serdeDerive ↔ marker.serialize = true) ∧
    (Covers g.items .serializableSecret ↔ marker.serialize = true) ∧
    (marker.serialize = true → features.serde = true)

/-! ## Words -/

/-- No word that gives a value away begins in the stem of a hidden name. -/
theorem holds_of_hiddenName (hword : word ∈ exposingWords) (h : Holds (hiddenName name) word) :
    Holds name word := by
  have hstem : ∀ word ∈ exposing, ¬ word <:+: (reservedStem ++ "Secret").toList ∧
      ∀ left ∈ (reservedStem ++ "Secret").toList.tails, left ≠ [] → ¬ left <+: word := by
    decide +kernel
  have hmem : word.toList ∈ exposing := List.mem_map_of_mem hword
  obtain ⟨hwithin, hstarts⟩ := hstem _ hmem
  have hname : withoutRawMark name.toList <:+: name.toList := by
    unfold withoutRawMark
    split
    · next rest heq =>
      rw [heq]
      exact (List.suffix_append ['r', '#'] rest).isInfix
    · exact List.infix_rfl
  rw [Holds, toList_hiddenName, List.infix_append_iff_ne_nil] at h
  rcases h with h | h | ⟨left, right, hleft, -, hsplit, hsuffix, -⟩
  · exact absurd h hwithin
  · exact h.trans hname
  · exact absurd ⟨right, hsplit.symm⟩ (hstarts left ((List.mem_tails _ _).mpr hsuffix) hleft)

/-- No word that gives a value away is in the code of a secret wrapper but for the texts from the
source. -/
theorem silent_of_emittedBy (hemitted : g.EmittedBy w control features)
    (hsecret : control.secret = some marker) (hword : word ∈ exposingWords)
    (htexts : ∀ text ∈ w.texts control, ¬ Holds text word) :
    ∀ item ∈ g.items, ∀ line ∈ item.lines, ¬ Holds line word := by
  have hname := htexts w.name (by simp [Wrapper.texts])
  have hgiven : w.IsGiven fun text => ¬ Holds text word :=
    { name := hname
      hidden := fun hhidden => hname (holds_of_hiddenName hword hhidden)
      inner := htexts w.inner (by simp [Wrapper.texts])
      visibility := htexts w.visibility (by simp [Wrapper.texts]) }
  have hmem : word.toList ∈ exposing := List.mem_map_of_mem hword
  obtain ⟨more, ⟨hnone, -⟩ | ⟨_, -, hitems, hcolumn⟩⟩ := hemitted.items
  · rw [hsecret] at hnone
    cases hnone
  · have hcode : WovenItems true (fun text => ¬ Holds text word)
        (secretBase w.bare g.plan ++ more) := by
      refine (woven_secretBase hgiven g.plan).append
        (woven_columnItems hgiven ?_ (fun _ => rfl) hcolumn)
      intro mapping hmapping
      exact htexts _ (by simp [Wrapper.texts, hmapping])
    rw [hitems, secretBase_eq_bare, List.append_assoc]
    refine List.forall_mem_append.mpr ⟨fun item hitem line hline => ?_, fun item hitem => ?_⟩
    · have hlines : item.lines = w.attributes := by
        unfold passedItems at hitem
        split at hitem
        · cases hitem
        · rw [List.mem_singleton.mp hitem]
          rfl
      rw [hlines] at hline
      exact htexts line (by simp [Wrapper.texts, hline])
    · exact (hcode item hitem []).avoids hmem fun text htext => htext

/-! ## Definitions and implementations -/

/-- How implementations begin that neither show nor compare a value. -/
def quietFronts : List String :=
  ["impl " ++ secrecyModule, "impl " ++ secretTrait, "impl ::core::str::", "impl ::core::convert::",
    "impl<"]

/-- Whether an item is an implementation that neither shows nor compares a value, or does so in
tests only. -/
inductive Item.IsGuarded : Item → Prop
  | quiet (group : Group) {front : String} (h : front ∈ quietFronts) (rest : String)
      (tail : List String) : IsGuarded (.code group ((front ++ rest) :: tail))
  | tested (group : Group) (rest : String) (tail : List String) :
      IsGuarded (.code group ("#[cfg(test)]" :: ("impl " ++ rest) :: tail))

theorem guarded_implBlock {front : String} (group : Group) (h : "impl " ++ front ∈ quietFronts)
    (rest type : String) (body : List String) :
    (Item.code group (implBlock (front ++ rest) type body)).IsGuarded := by
  have hline : s!"impl {front ++ rest} for {type}" ++ " \x7b" =
      "impl " ++ front ++ (rest ++ " for " ++ type ++ " \x7b") := by
    simp only [toString, String.append_assoc]
  rw [implBlock, braced, hline]
  exact .quiet group h _ _

theorem guarded_emptyImpl {front : String} (group : Group) (h : "impl " ++ front ∈ quietFronts)
    (rest type : String) (tail : List String) :
    (Item.code group (emptyImpl (front ++ rest) type :: tail)).IsGuarded := by
  have hline : emptyImpl (front ++ rest) type =
      "impl " ++ front ++ (rest ++ " for " ++ type ++ " \x7b\x7d") := by
    simp only [emptyImpl, toString, String.append_assoc]
  rw [hline]
  exact .quiet group h _ _

theorem guarded_test (group : Group) (path type : String) (body : List String) :
    (Item.code group ("#[cfg(test)]" :: implBlock path type body)).IsGuarded := by
  have hline : s!"impl {path} for {type}" ++ " \x7b" =
      "impl " ++ (path ++ " for " ++ type ++ " \x7b") := by
    simp only [toString, String.append_assoc]
  rw [implBlock, braced, hline]
  exact .tested group _ _

/-- The implementations of a secret wrapper but for its column conversions. -/
def secretImpls (w : Wrapper) (plan : Plan) : List Item :=
  [.code .secretWrapper (secretMarkerImpls (hiddenName w.name))] ++
    itemsIf plan.serializableSecret [.code .serializableSecret
      [emptyImpl s!"{secrecyModule}::SerializableSecret" (hiddenName w.name)]] ++
    [.code .secretWrapper (exposeSecretImpl w.name w.inner),
      .code .secretWrapper (secretConstructorImpl w.name (hiddenName w.name) w.inner)] ++
    secretTestItems w.name w.inner plan ++ itemsIf plan.stringOps (secretStringItems w.name)

theorem forall_itemsIf {p : Item → Prop} {present : Bool} (h : ∀ item ∈ items, p item) :
    ∀ item ∈ itemsIf present items, p item := by
  cases present with
  | false => exact List.forall_mem_nil _
  | true => exact h

theorem guarded_secretStringItems (name : String) :
    ∀ item ∈ secretStringItems name, item.IsGuarded := by
  have hparsing : "impl " ++ "::core::str::" ∈ quietFronts := by decide +kernel
  have hconversion : "impl " ++ "::core::convert::" ∈ quietFronts := by decide +kernel
  refine List.forall_mem_cons.mpr ⟨?_, List.forall_mem_singleton.mpr ?_⟩
  · exact guarded_implBlock .stringOps hparsing "FromStr" name _
  · exact guarded_implBlock .stringOps hconversion s!"From<&{strType}>" name _

theorem guarded_secretTestItems (name inner : String) (plan : Plan) :
    ∀ item ∈ secretTestItems name inner plan, item.IsGuarded := by
  unfold secretTestItems
  split
  · refine List.forall_mem_cons.mpr ⟨?_, List.forall_mem_singleton.mpr ?_⟩
    · exact guarded_test .testDebug _ name _
    · exact guarded_test .testDebug _ name _
  · exact List.forall_mem_singleton.mpr (guarded_test .secretWrapper _ name _)

theorem guarded_secretImpls (w : Wrapper) (plan : Plan) :
    ∀ item ∈ secretImpls w plan, item.IsGuarded := by
  have hsecrecy : "impl " ++ secrecyModule ∈ quietFronts := List.mem_cons_self
  have hconstruction : "impl " ++ secretTrait ∈ quietFronts := .tail _ List.mem_cons_self
  have hmarkers : (Item.code .secretWrapper (secretMarkerImpls (hiddenName w.name))).IsGuarded :=
    guarded_emptyImpl .secretWrapper hsecrecy "::CloneableSecret" _ _
  have hmark : (Item.code .serializableSecret
      [emptyImpl s!"{secrecyModule}::SerializableSecret" (hiddenName w.name)]).IsGuarded :=
    guarded_emptyImpl .serializableSecret hsecrecy "::SerializableSecret" _ []
  have hexposure : (Item.code .secretWrapper (exposeSecretImpl w.name w.inner)).IsGuarded := by
    have hpath : s!"{secrecyModule}::ExposeSecret<{w.inner}>" =
        secrecyModule ++ ("::ExposeSecret<" ++ w.inner ++ ">") := by
      simp only [toString, String.append_assoc]
    rw [exposeSecretImpl, hpath]
    exact guarded_implBlock .secretWrapper hsecrecy _ _ _
  have hconstructor : (Item.code .secretWrapper
      (secretConstructorImpl w.name (hiddenName w.name) w.inner)).IsGuarded := by
    have hpath : secretTrait = secretTrait ++ "" := String.append_empty.symm
    rw [secretConstructorImpl, hpath]
    exact guarded_implBlock .secretWrapper hconstruction "" _ _
  refine List.forall_mem_append.mpr ⟨List.forall_mem_append.mpr ⟨List.forall_mem_append.mpr
    ⟨List.forall_mem_append.mpr ⟨?_, ?_⟩, ?_⟩, ?_⟩, ?_⟩
  · exact List.forall_mem_singleton.mpr hmarkers
  · exact forall_itemsIf (List.forall_mem_singleton.mpr hmark)
  · exact List.forall_mem_cons.mpr ⟨hexposure, List.forall_mem_singleton.mpr hconstructor⟩
  · exact guarded_secretTestItems w.name w.inner plan
  · exact forall_itemsIf (guarded_secretStringItems w.name)

theorem guarded_columnImpl (group : Group) (name inner bound : String) (body : List String) :
    (Item.code group (columnImpl name inner bound body)).IsGuarded := by
  have hbinder : "impl<" ∈ quietFronts := by decide +kernel
  have hline : s!"impl<B> {bound} for {name}" = "impl<" ++ ("B> " ++ bound ++ " for " ++ name) := by
    simp only [toString, ← String.append_assoc, String.reduceAppend]
  rw [columnImpl, hline]
  exact .quiet group hbinder _ _

theorem guarded_columnPair (w : Wrapper) (sqlType : String) :
    ∀ item ∈ columnPair .secret w sqlType, item.IsGuarded := by
  refine List.forall_mem_cons.mpr ⟨?_, List.forall_mem_singleton.mpr ?_⟩
  · exact guarded_columnImpl .columnMapping w.name w.inner _ _
  · exact guarded_columnImpl .columnMapping w.name w.inner _ _

/-! ## Items that stand by themselves -/

theorem filter_secretStructItems (plan : Plan) (line : String) :
    (secretStructItems plan line).filter (!·.attached) = [.code .secretWrapper [line]] := by
  unfold secretStructItems serdeItems itemsIf
  cases plan.serdeDerive <;> rfl

theorem filter_passedItems (group : Group) (texts : List String) :
    (passedItems group texts).filter (!·.attached) = [] := by
  unfold passedItems
  split <;> rfl

theorem Item.IsGuarded.attached (h : item.IsGuarded) : item.attached = false := by
  cases h <;> rfl

/-- The items that stand by themselves are the two definitions and then implementations. -/
theorem standing_of_emittedBy (h : g.EmittedBy w control features)
    (hsecret : control.secret = some marker) : ∃ impls, g.items.filter (!·.attached) =
      .code .secretWrapper [w.structLine (boxOf (hiddenName w.name))] ::
        .code .secretWrapper [s!"struct {hiddenName w.name}({w.inner});"] :: impls ∧
      ∀ item ∈ impls, item.IsGuarded := by
  obtain ⟨more, ⟨hnone, -⟩ | ⟨_, -, hitems, hcolumn⟩⟩ := h.items
  · rw [hsecret] at hnone
    cases hnone
  · have himpls : ∀ item ∈ secretImpls w g.plan ++ more, item.IsGuarded := by
      refine List.forall_mem_append.mpr ⟨guarded_secretImpls w g.plan, ?_⟩
      rcases columnItems_ok_iff.mp hcolumn with ⟨-, rfl⟩ | ⟨mapping, -, -, rfl⟩
      · exact List.forall_mem_nil _
      · exact guarded_columnPair w mapping.sqlType.text
    have hstanding : (secretImpls w g.plan ++ more).filter (!·.attached) =
        secretImpls w g.plan ++ more :=
      List.filter_eq_self.mpr fun item hitem => by rw [(himpls item hitem).attached]; rfl
    have hbase : secretBase w g.plan = passedItems .secretWrapper w.attributes ++
        (secretStructItems g.plan (w.structLine (boxOf (hiddenName w.name))) ++
          (secretStructItems g.plan s!"struct {hiddenName w.name}({w.inner});" ++
            secretImpls w g.plan)) := by
      simp only [secretBase, secretImpls, Wrapper.attributeItems_eq, List.append_assoc]
      rfl
    refine ⟨secretImpls w g.plan ++ more, ?_, himpls⟩
    rw [hitems, hbase]
    simp only [List.append_assoc, List.filter_append, filter_passedItems, filter_secretStructItems]
    rw [← List.filter_append, hstanding]
    rfl

theorem opening_code (group : Group) (lines : List String) :
    (Item.code group lines).opening? = lines.find? fun line => !isAttributeLine line := rfl

theorem isAttributeLine_of_impl (h : "impl".toList <+: line.toList) :
    isAttributeLine line = false := by
  obtain ⟨rest, hrest⟩ := h
  rw [isAttributeLine, ← hrest]
  rfl

/-- How an implementation opens below its attributes. -/
theorem opening_of_isGuarded (h : item.IsGuarded) : ∃ line, item.opening? = some line ∧
    "impl".toList <+: line.toList ∧ (item.lines.head? = some "#[cfg(test)]" ∨
      ∃ front ∈ quietFronts, front.toList <+: line.toList) := by
  cases h with
  | @quiet group front hfront rest tail =>
    have hall : ∀ front ∈ quietFronts, "impl".toList <+: front.toList := by decide +kernel
    have hstarts : front.toList <+: (front ++ rest).toList := by
      rw [String.toList_append]
      exact List.prefix_append _ _
    have himpl := (hall front hfront).trans hstarts
    refine ⟨front ++ rest, ?_, himpl, Or.inr ⟨front, hfront, hstarts⟩⟩
    simp only [opening_code, List.find?_cons, isAttributeLine_of_impl himpl, Bool.not_false]
  | tested group rest tail =>
    have himpl : "impl".toList <+: ("impl " ++ rest).toList := by
      rw [String.toList_append]
      exact ⟨[' '] ++ rest.toList, rfl⟩
    refine ⟨"impl " ++ rest, ?_, himpl, Or.inl rfl⟩
    have hmark : isAttributeLine "#[cfg(test)]" = true := by decide +kernel
    simp only [opening_code, List.find?_cons, hmark, isAttributeLine_of_impl himpl, Bool.not_true,
      Bool.not_false]

/-- No line that begins an implementation of another kind implements output or comparison. -/
theorem not_implements_of_front {front : String} (hfront : front ∈ quietFronts)
    (hstarts : front.toList <+: line.toList) (hpath : path ∈ revealingTraits) :
    ¬ Implements path type line := by
  have hall : ∀ front ∈ quietFronts, ∀ path ∈ revealingTraits,
      ¬ front.toList <+: ("impl " ++ path).toList ∧
        ¬ ("impl " ++ path).toList <+: front.toList := by
    decide +kernel
  intro himplements
  have hline : ("impl " ++ path).toList <+: line.toList := by
    rcases himplements with rfl | rfl
    · simp only [toString, String.toList_append, List.append_assoc]
      exact (List.prefix_append_right_inj _).mpr (List.prefix_append _ _)
    · simp only [toString, String.toList_append, List.append_assoc]
      exact (List.prefix_append_right_inj _).mpr (List.prefix_append _ _)
  rcases List.prefix_or_prefix_of_prefix hstarts hline with h | h
  · exact (hall front hfront path hpath).1 h
  · exact (hall front hfront path hpath).2 h

/-- The line of a definition implements nothing. -/
theorem not_implements_definition (front : String) : ¬ Implements path type (front ++ ");") := by
  have hlast (front back : String) (c : Char) (hback : back.toList.getLast? = some c) :
      (front ++ back).toList.getLast? = some c := by
    rw [String.toList_append, List.getLast?_append, hback]
    rfl
  have hsemicolon := hlast front ");" ';' (by decide +kernel)
  rintro (h | h)
  · have hbrace := hlast s!"impl {path} for {type}" " \x7b" '{' (by decide +kernel)
    rw [h] at hsemicolon
    cases hsemicolon.symm.trans hbrace
  · have hbrace := hlast s!"impl {path} for {type}" " \x7b\x7d" '}' (by decide +kernel)
    rw [h] at hsemicolon
    cases hsemicolon.symm.trans hbrace

theorem structLine_eq (w : Wrapper) (field : String) :
    ∃ front, w.structLine field = front ++ ");" := by
  simp only [Wrapper.structLine, toString, ← String.append_assoc]
  exact ⟨_, rfl⟩

/-- The value is shown and compared in tests only. -/
theorem tested_of_emittedBy (h : g.EmittedBy w control features)
    (hsecret : control.secret = some marker) (hitem : item ∈ g.items)
    (hline : item.opening? = some line) (hpath : path ∈ revealingTraits)
    (himplements : Implements path type line) : item.lines.head? = some "#[cfg(test)]" := by
  obtain ⟨impls, hitems, himpls⟩ := standing_of_emittedBy h hsecret
  have hattached : item.attached = false := by
    unfold Item.opening? at hline
    split at hline
    · cases hline
    · exact Bool.eq_false_iff.mpr ‹_›
  have hmem : item ∈ g.items.filter (!·.attached) :=
    List.mem_filter.mpr ⟨hitem, by rw [hattached]; rfl⟩
  have hdefinition (front : String) : item ≠ .code .secretWrapper [front ++ ");"] := by
    rintro rfl
    rw [opening_code] at hline
    obtain rfl : line = front ++ ");" := List.mem_singleton.mp (List.mem_of_find?_eq_some hline)
    exact not_implements_definition front himplements
  rw [hitems, List.mem_cons, List.mem_cons] at hmem
  rcases hmem with houter | hhidden | himpl
  · obtain ⟨front, hfront⟩ := structLine_eq w (boxOf (hiddenName w.name))
    rw [hfront] at houter
    exact absurd houter (hdefinition front)
  · exact absurd hhidden (hdefinition _)
  · obtain ⟨first, hfirst, -, htest | ⟨front, hfront, hstarts⟩⟩ :=
      opening_of_isGuarded (himpls item himpl)
    · exact htest
    · obtain rfl : first = line := Option.some.inj (hfirst.symm.trans hline)
      exact absurd himplements (not_implements_of_front hfront hstarts hpath)

/-! ## Visibility and serialisation -/

/-- A type begins with a mark or with a word that may stand in a path. -/
theorem beginsType_of_derives (h : Derives .type ts) : ∀ t ∈ ts.head?, BeginsType t := by
  have hsegment {us : List Lexeme} (hus : Derives .segment us) : ∀ t ∈ us.head?, BeginsType t := by
    cases hus with
    | word hk ht => rintro t ⟨⟩; exact Or.inr ⟨hk, ht⟩
    | generic hk ht _ => rintro t ⟨⟩; exact Or.inr ⟨hk, ht⟩
    | call hk ht _ => rintro t ⟨⟩; exact Or.inr ⟨hk, ht⟩
    | callTo hk ht _ _ => rintro t ⟨⟩; exact Or.inr ⟨hk, ht⟩
  have hmark {mark : String} (hmem : mark ∈ ["&", "(", "[", "::"]) : BeginsType (punct mark) :=
    Or.inl ⟨rfl, hmem⟩
  cases h with
  | reference _ _ _ _ => rintro t ⟨⟩; exact hmark (by decide)
  | tuple _ _ => rintro t ⟨⟩; exact hmark (by decide)
  | slice _ => rintro t ⟨⟩; exact hmark (by decide)
  | array _ _ => rintro t ⟨⟩; exact hmark (by decide)
  | traitObject _ _ => rintro t ⟨⟩; exact Or.inr ⟨rfl, show "dyn" ∉ Goal.unpathedWords by decide⟩
  | named hp _ =>
    cases hp with
    | @path root segments hne hs =>
      cases root with
      | true => rintro t ⟨⟩; exact hmark (by decide)
      | false =>
        obtain ⟨first, rest, rfl⟩ := List.exists_cons_of_ne_nil hne
        have hfirst := hs first List.mem_cons_self
        intro t ht
        rw [rootMark, if_neg (by decide), List.nil_append, separated,
          List.head?_append_of_ne_nil _ (derives_ne_nil hfirst)] at ht
        exact hsegment hfirst t ht

/-- What begins a type runs together with nothing behind it. -/
theorem merges_of_beginsType {t : Lexeme} (h : BeginsType t) (right : Lexeme) :
    merges t right = false := by
  rw [merges, Bool.or_eq_false_iff, Bool.and_eq_false_iff, Bool.and_eq_false_iff]
  rcases h with ⟨hk, hmem⟩ | ⟨hk, -⟩
  · have hall : ∀ pair ∈ fusingMarks, pair.1 ∉ ["&", "(", "[", "::"] := by decide
    have hfuse : fusingMarks.contains (t.text, right.text) = false := by
      rw [Bool.eq_false_iff, Ne, List.contains_iff_mem]
      exact fun hpair => hall _ hpair hmem
    exact ⟨Or.inl (by rw [hk]; rfl), Or.inr hfuse⟩
  · exact ⟨Or.inl (by rw [hk]; rfl), Or.inl (by rw [hk]; rfl)⟩

/-- The text of a type begins with no visibility. -/
theorem not_hasVisibility_spelling (h : Derives .type ts) (hshaped : ∀ t ∈ ts, t.Shaped) :
    ¬ HasVisibility (spelling ts) := by
  obtain ⟨t, us, rfl⟩ := List.exists_cons_of_ne_nil (derives_ne_nil h)
  have hbegins := beginsType_of_derives h t rfl
  obtain ⟨after, htext, hafter⟩ : ∃ after, (spelling (t :: us)).toList = t.text.toList ++ after ∧
      SetApart t.kind t.text.toList after := by
    cases us with
    | nil => exact ⟨[], (List.append_nil _).symm, setApart_nil _ _⟩
    | cons right rest =>
      exact ⟨_, spelling_cons_cons t right rest,
        setApart_of_merges (hshaped right (by simp)) (merges_of_beginsType hbegins right)⟩
  rintro ⟨later, hlexed⟩
  rw [htext, lexed_append (hshaped t List.mem_cons_self) hafter] at hlexed
  cases hrest : lexed after with
  | error fault =>
    rw [hrest] at hlexed
    cases hlexed
  | ok us =>
    rw [hrest] at hlexed
    cases hlexed
    have hpub : "pub" ∈ Goal.unpathedWords := by decide
    exact hbegins.not_isWord hpub (by decide)

/-- A secret box is named by a path from the root. -/
theorem not_hasVisibility_box (type : String) : ¬ HasVisibility (boxOf type) := by
  rintro ⟨later, hlexed⟩
  obtain ⟨rest, hbox⟩ : ∃ rest, (boxOf type).toList = ':' :: ':' :: rest := by
    simp only [boxOf, secrecyModule, toString, String.reduceAppend, String.append_assoc,
      String.toList_append]
    exact ⟨_, rfl⟩
  rw [hbox] at hlexed
  have hhead := head_of_lexed (readPiece_paired (by decide) _) hlexed
  cases hhead

/-- What concerns serialisation is there exactly if it is asked for. -/
theorem serialised_of_outcomeOf (h : outcomeOf w control features = .ok (.generated g))
    (hsecret : control.secret = some marker) :
    (Covers g.items .serdeDerive ↔ marker.serialize = true) ∧
      (Covers g.items .serializableSecret ↔ marker.serialize = true) ∧
      (marker.serialize = true → features.serde = true) := by
  have hemitted := emittedBy_of_outcomeOf h
  have hserde : marker.serialize = true → features.serde = true := by
    intro hserialize
    by_contra hserde
    have hoff : features.serde = false := Bool.eq_false_iff.mpr hserde
    have hsupported := hemitted.supported
    simp [unsupported?, hsecret, hserialize, hoff] at hsupported
  have hplan : g.plan.serdeDerive = (marker.serialize && features.serde) ∧
      g.plan.serializableSecret = (marker.serialize && features.serde) := by
    rw [hemitted.plan, planFor, hsecret]
    exact ⟨rfl, rfl⟩
  have hboth : (marker.serialize && features.serde) = true ↔ marker.serialize = true := by
    rw [Bool.and_eq_true, and_iff_left_iff_imp]
    exact hserde
  refine ⟨?_, ?_, hserde⟩
  · rw [covers_iff_of_outcomeOf h, Plan.has, hplan.1]
    exact hboth
  · rw [covers_iff_of_outcomeOf h, Plan.has, hplan.2]
    exact hboth

/-- A secret wrapper keeps its value secret. -/
theorem keepsSecret_of_outcomeOf (h : outcomeOf w control features = .ok (.generated g))
    (hsecret : control.secret = some marker) : g.KeepsSecret w control marker features where
  silent word hword htexts := silent_of_emittedBy (emittedBy_of_outcomeOf h) hsecret hword htexts
  tested item hitem line hline path hpath himplements :=
    tested_of_emittedBy (emittedBy_of_outcomeOf h) hsecret hitem hline hpath himplements
  boxed := by
    obtain ⟨impls, hitems, himpls⟩ := standing_of_emittedBy (emittedBy_of_outcomeOf h) hsecret
    refine ⟨impls, hitems, fun item hitem => ?_⟩
    obtain ⟨line, hline, himpl, -⟩ := opening_of_isGuarded (himpls item hitem)
    exact ⟨line, hline, himpl⟩
  sealed := by
    refine ⟨not_hasVisibility_box _, fun ts hts hshaped hinner => ?_⟩
    rw [hinner]
    exact not_hasVisibility_spelling hts hshaped
  serialised := serialised_of_outcomeOf h hsecret

/-- The wrapper of a string that is kept in a column. -/
def keyWrapper : Wrapper := ⟨"Key", "String", "pub", ["#[derive(Clone)]"]⟩

/-- The request for a secret that may be serialised, in a column of texts. -/
def keyControl : Control where
  secret := some ⟨true, .start⟩
  kind := some ⟨.string, .start⟩
  columnMapping := some ⟨⟨"Text", .start⟩, .start⟩

/-- With all features, no line of the code of the wrapper has a word that gives its value away. -/
theorem keepsSecret_of_outcomeOf_key : ∃ g,
    outcomeOf keyWrapper keyControl (.select fun _ => true) = .ok (.generated g) ∧
    keyControl.secret = some ⟨true, .start⟩ ∧
    g.KeepsSecret keyWrapper keyControl ⟨true, .start⟩ (.select fun _ => true) ∧
    ∀ word ∈ exposingWords, ∀ item ∈ g.items, ∀ line ∈ item.lines, ¬ Holds line word := by
  obtain ⟨g, hg⟩ : ∃ g, outcomeOf keyWrapper keyControl (.select fun _ => true) =
      .ok (.generated g) := ⟨_, rfl⟩
  have hkeeps := keepsSecret_of_outcomeOf hg rfl
  have htexts : ∀ word ∈ exposingWords, ∀ text ∈ keyWrapper.texts keyControl,
      ¬ word.toList <:+: text.toList := by decide +kernel
  exact ⟨g, hg, rfl, hkeeps, fun word hword => hkeeps.silent word hword (htexts word hword)⟩

end Microtypes
