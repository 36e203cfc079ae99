import Microtypes.Proofs.Grammar.Reading

/-!
# Reading alike tokens

A likeness relates the tokens of two sources that have the same lexemes. Whatever else it says about
places and about texts is kept by every reader: from alike tokens it reads alike values, or stops
with alike faults, and leaves alike tokens ahead. So nothing that is read depends on more than the
lexemes, except for the places and texts that it carries.
-/

namespace Microtypes

/-- A relation between the tokens of two sources, and between what is taken from them. -/
structure Likeness (source source' : List Char) where
  token : Token → Token → Prop
  place : Location → Location → Prop
  /-- The relation between the texts of attributes. -/
  text : String → String → Prop
  lexeme_eq {t t' : Token} (h : token t t') : t.toLexeme = t'.toLexeme
  place_token {t t' : Token} (h : token t t') : place t.location t'.location
  place_later {a a' b b' : Location} (ha : place a a') (hb : place b b') :
    place (a.later b) (a'.later b')
  text_refl (s : String) : text s s
  text_slice {m m' c c' : Token} (hm : token m m') (hc : token c c') :
    text (.ofList (slice source m.start c.stop)) (.ofList (slice source' m'.start c'.stop))

/-- Whether two results are both values or both errors, and related. -/
inductive Agree {ε ε' α α' : Type} (E : ε → ε' → Prop) (A : α → α' → Prop) :
    Except ε α → Except ε' α' → Prop
  | ok {a : α} {a' : α'} (h : A a a') : Agree E A (.ok a) (.ok a')
  | error {e : ε} {e' : ε'} (h : E e e') : Agree E A (.error e) (.error e')

namespace Agree

variable {ε ε' α α' β β' : Type} {E : ε → ε' → Prop} {A : α → α' → Prop} {B : β → β' → Prop}
  {x y : Except ε α} {x' y' : Except ε' α'}

/-- What is done next may depend on how the value came about. -/
theorem bind_of_eq {f : α → Except ε β} {f' : α' → Except ε' β'} (hx : Agree E A x x')
    (hf : ∀ {a a'}, x = .ok a → A a a' → Agree E B (f a) (f' a')) :
    Agree E B (x >>= f) (x' >>= f') := by
  cases hx with
  | ok h => exact hf rfl h
  | error h => exact .error h

theorem bind {f : α → Except ε β} {f' : α' → Except ε' β'} (hx : Agree E A x x')
    (hf : ∀ {a a'}, A a a' → Agree E B (f a) (f' a')) : Agree E B (x >>= f) (x' >>= f') :=
  hx.bind_of_eq fun _ => hf

theorem map {f : α → β} {f' : α' → β'} (hx : Agree E A x x')
    (hf : ∀ {a a'}, A a a' → B (f a) (f' a')) : Agree E B (x.map f) (x'.map f') := by
  cases hx with
  | ok h => exact .ok (hf h)
  | error h => exact .error h

theorem mapError {δ δ' : Type} {D : δ → δ' → Prop} {f : ε → δ} {f' : ε' → δ'} (hx : Agree E A x x')
    (hf : ∀ {e e'}, E e e' → D (f e) (f' e')) : Agree D A (x.mapError f) (x'.mapError f') := by
  cases hx with
  | ok h => exact .ok h
  | error h => exact .error (hf h)

theorem cases (h : Agree E A x x') :
    (∃ a a', x = .ok a ∧ x' = .ok a' ∧ A a a') ∨
      ∃ e e', x = .error e ∧ x' = .error e' ∧ E e e' := by
  cases h with
  | ok h => exact .inl ⟨_, _, rfl, rfl, h⟩
  | error h => exact .inr ⟨_, _, rfl, rfl, h⟩

/-- Both take the same branch. -/
theorem ite {c : Prop} [Decidable c] (hthen : c → Agree E A x x') (helse : ¬c → Agree E A y y') :
    Agree E A (if c then x else y) (if c then x' else y') := by
  by_cases h : c
  · rw [if_pos h, if_pos h]
    exact hthen h
  · rw [if_neg h, if_neg h]
    exact helse h

end Agree

variable {source source' : List Char} {L : Likeness source source'}
  {t t' : Token} {ahead ahead' before before' : List Token}

theorem forall₂_dropLast {α β : Type} {R : α → β → Prop} {l : List α} {l' : List β}
    (h : List.Forall₂ R l l') : List.Forall₂ R l.dropLast l'.dropLast := by
  rw [List.dropLast_eq_take, List.dropLast_eq_take, h.length_eq]
  exact List.forall₂_take _ h

theorem forall₂_getLast? {α β : Type} {R : α → β → Prop} {l : List α} {l' : List β}
    (h : List.Forall₂ R l l') : Option.Rel R l.getLast? l'.getLast? := by
  have hreverse := List.rel_reverse h
  rw [← List.head?_reverse, ← List.head?_reverse]
  generalize l.reverse = r, l'.reverse = r' at hreverse
  cases hreverse with
  | nil => exact .none
  | cons hlast _ => exact .some hlast

/-- Whether two lists of tokens are alike, one by one. -/
def Likeness.Tokens (L : Likeness source source') : List Token → List Token → Prop :=
  List.Forall₂ L.token

/-- Whether two faults have the same cause and stop at alike tokens. -/
structure SyntaxFault.Alike (L : Likeness source source') (fault fault' : SyntaxFault) : Prop where
  cause : fault.cause = fault'.cause
  rest : L.Tokens fault.rest fault'.rest

/-- Whether two readings agree, where `A` relates the values. -/
abbrev Likeness.Reads {α : Type} (L : Likeness source source') (A : α → α → Prop) :
    Microtypes.Reads α → Microtypes.Reads α → Prop :=
  Agree (SyntaxFault.Alike L) fun r r' => A r.1 r'.1 ∧ L.Tokens r.2 r'.2

namespace Likeness

/-! ## Lists of alike tokens -/

theorem tokens_cons (ht : L.token t t') (h : L.Tokens ahead ahead') :
    L.Tokens (t :: ahead) (t' :: ahead') := .cons ht h

theorem lexemes_eq (h : L.Tokens ahead ahead') : lexemes ahead = lexemes ahead' := by
  induction h with
  | nil => rfl
  | cons ht _ ih => rw [lexemes, List.map_cons, L.lexeme_eq ht, ← lexemes, ih]; rfl

theorem length_eq (h : L.Tokens ahead ahead') : ahead.length = ahead'.length :=
  List.Forall₂.length_eq h

theorem tail (h : L.Tokens ahead ahead') : L.Tokens ahead.tail ahead'.tail := by
  cases h with
  | nil => exact .nil
  | cons _ h => exact h

theorem startsWith_eq (h : L.Tokens ahead ahead') (text : String) :
    startsWith ahead text = startsWith ahead' text := by
  cases h with
  | nil => rfl
  | cons ht _ => simp only [startsWith, List.head?_cons, Option.any_some, L.lexeme_eq ht]

theorem passed_alike (hb : L.Tokens before before') (ha : L.Tokens ahead ahead') :
    L.Tokens (passed before ahead) (passed before' ahead') := by
  rw [passed, passed, length_eq hb, length_eq ha]
  exact List.forall₂_take _ hb

theorem insideGroup_alike (hb : L.Tokens before before') (ha : L.Tokens ahead ahead') :
    L.Tokens (insideGroup before ahead) (insideGroup before' ahead') :=
  forall₂_dropLast (tail (passed_alike hb ha))

/-! ## Words -/

theorem alike_expected (what : String) (h : L.Tokens ahead ahead') :
    (expectedFault what ahead).Alike L (expectedFault what ahead') := by
  cases h with
  | nil => exact ⟨rfl, .nil⟩
  | cons ht h =>
    refine ⟨?_, .cons ht h⟩
    simp only [expectedFault, List.head?_cons, Option.map_some, L.lexeme_eq ht]

theorem reads_word (text what : String) (h : L.Tokens ahead ahead') :
    L.Reads L.token (readWord text what ahead) (readWord text what ahead') := by
  cases h with
  | nil => exact .error (alike_expected what .nil)
  | cons ht h =>
    rw [readWord, readWord, L.lexeme_eq ht]
    exact .ite (fun _ => .ok ⟨ht, h⟩) fun _ => .error (alike_expected what (.cons ht h))

theorem pass_word (text what : String) (h : L.Tokens ahead ahead') :
    Agree (SyntaxFault.Alike L) L.Tokens (passWord text what ahead) (passWord text what ahead') :=
  (reads_word text what h).map And.right

theorem drop_word (text : String) (h : L.Tokens ahead ahead') :
    L.Tokens (dropWord text ahead) (dropWord text ahead') := by
  rw [dropWord, dropWord, startsWith_eq h]
  split
  · exact tail h
  · exact h

/-! ## Groups -/

theorem pass_closers {unclosed unclosed' : SyntaxFault} (hunclosed : unclosed.Alike L unclosed')
    (innermost : Delimiter) (outer : List Delimiter) (h : L.Tokens ahead ahead') :
    Agree (SyntaxFault.Alike L) L.Tokens (passClosers unclosed innermost outer ahead)
      (passClosers unclosed' innermost outer ahead') := by
  induction h generalizing innermost outer with
  | nil => exact .error hunclosed
  | @cons t t' ahead ahead' ht h ih =>
    simp only [passClosers, L.lexeme_eq ht]
    split
    · exact ih ..
    · refine .ite (fun _ => ?_) fun _ => .error (.mk rfl (.cons ht h))
      cases outer with
      | nil => exact .ok h
      | cons next others => exact ih ..
    · exact ih ..

theorem pass_group (h : L.Tokens ahead ahead') :
    Agree (SyntaxFault.Alike L) L.Tokens (passGroup ahead) (passGroup ahead') := by
  cases h with
  | nil => exact .error (.mk rfl .nil)
  | cons ht h =>
    rw [passGroup, passGroup, L.lexeme_eq ht]
    split
    · refine pass_closers ?_ _ _ h
      exact .mk rfl (.cons ht h)
    · exact .error (alike_expected _ (.cons ht h))

theorem passUntil_eq_bind (stop : String) (t : Token) (rest : List Token) :
    passUntil stop (t :: rest) =
      if t.isWord stop then .ok (t :: rest)
      else if t.opens?.isSome then passGroup (t :: rest) >>= passUntil stop
      else if t.closes?.isSome then .error ⟨.mismatched t.text, t :: rest⟩
      else passUntil stop rest := by
  rw [passUntil]
  split
  · rfl
  · split
    · split
      · next hgroup => rw [hgroup]; rfl
      · next hgroup => rw [hgroup]; rfl
    · rfl

theorem pass_until (stop : String) (h : L.Tokens ahead ahead') :
    Agree (SyntaxFault.Alike L) L.Tokens (passUntil stop ahead) (passUntil stop ahead') := by
  induction hn : ahead.length using Nat.strongRecOn generalizing ahead ahead' with
  | _ n ih =>
    subst hn
    cases h with
    | nil =>
      rw [passUntil]
      exact .error (.mk rfl .nil)
    | @cons t t' rest rest' ht h =>
      have hall := tokens_cons ht h
      rw [passUntil_eq_bind, passUntil_eq_bind, L.lexeme_eq ht]
      refine .ite (fun _ => .ok hall) fun _ => ?_
      refine .ite (fun _ => ?_) fun _ => ?_
      · exact (pass_group hall).bind_of_eq fun hgroup hafter =>
          ih _ (length_of_passGroup hgroup) hafter rfl
      · exact .ite (fun _ => .error (.mk rfl hall)) fun _ => ih _ (Nat.lt_succ_self _) h rfl

/-! ## Types -/

theorem drop_lifetime (h : L.Tokens ahead ahead') :
    L.Tokens (Goal.dropLifetime ahead) (Goal.dropLifetime ahead') := by
  cases h with
  | nil => exact .nil
  | cons ht h =>
    rw [Goal.dropLifetime, Goal.dropLifetime, L.lexeme_eq ht]
    split
    · exact h
    · exact .cons ht h

/-- The relation between what two alike goals are replaced with. -/
abbrev Steps (L : Likeness source source') :
    Except SyntaxFault (List Goal × List Token) → Except SyntaxFault (List Goal × List Token) →
      Prop :=
  Agree (SyntaxFault.Alike L) fun r r' => r.1 = r'.1 ∧ L.Tokens r.2 r'.2

theorem steps_word (text what : String) (goals : List Goal) (h : L.Tokens ahead ahead') :
    L.Steps ((passWord text what ahead).map (goals, ·))
      ((passWord text what ahead').map (goals, ·)) :=
  (pass_word text what h).map fun hrest => ⟨rfl, hrest⟩

theorem steps_type (h : L.Tokens ahead ahead') :
    L.Steps (Goal.step .type ahead) (Goal.step .type ahead') := by
  cases h with
  | nil => exact .error (alike_expected _ .nil)
  | cons ht h =>
    rw [Goal.step, Goal.step, L.lexeme_eq ht]
    refine .ite (fun _ => .ok ⟨rfl, drop_word _ (drop_lifetime h)⟩) fun _ => ?_
    refine .ite (fun _ => .ok ⟨rfl, h⟩) fun _ => ?_
    refine .ite (fun _ => .ok ⟨rfl, h⟩) fun _ => ?_
    exact .ite (fun _ => .ok ⟨rfl, h⟩) fun _ => .ok ⟨rfl, .cons ht h⟩

theorem steps_segment (h : L.Tokens ahead ahead') :
    L.Steps (Goal.step .segment ahead) (Goal.step .segment ahead') := by
  cases h with
  | nil => exact .error (alike_expected _ .nil)
  | cons ht h =>
    rw [Goal.step, Goal.step, L.lexeme_eq ht, startsWith_eq h, startsWith_eq h]
    refine .ite (fun _ => .error (alike_expected _ (.cons ht h))) fun _ => ?_
    refine .ite (fun _ => .ok ⟨rfl, h⟩) fun _ => ?_
    refine .ite (fun _ => ?_) fun _ => .ok ⟨rfl, h⟩
    obtain ⟨_, _, hgroup, hgroup', hafter⟩ | ⟨_, _, hgroup, hgroup', hfault⟩ := (pass_group h).cases
    · simp only [hgroup, hgroup', startsWith_eq hafter]
      exact .ite (fun _ => .ok ⟨rfl, tail hafter⟩) fun _ => .ok ⟨rfl, hafter⟩
    · simp only [hgroup, hgroup']
      exact .error hfault

theorem steps_arrayRest (h : L.Tokens ahead ahead') :
    L.Steps (Goal.step .arrayRest ahead) (Goal.step .arrayRest ahead') := by
  rw [Goal.step, Goal.step, startsWith_eq h]
  refine .ite (fun _ => ?_) fun _ => steps_word _ _ _ h
  obtain ⟨_, _, huntil, huntil', hafter⟩ | ⟨_, _, huntil, huntil', hfault⟩ :=
    (pass_until "]" (tail h)).cases
  · simp only [huntil, huntil', length_eq hafter, length_eq (tail h)]
    exact .ite (fun _ => .error (.mk rfl hafter)) fun _ => .ok ⟨rfl, tail hafter⟩
  · simp only [huntil, huntil']
    exact .error hfault

theorem steps_argument (h : L.Tokens ahead ahead') :
    L.Steps (Goal.step .argument ahead) (Goal.step .argument ahead') := by
  cases h with
  | nil => exact .error (.mk rfl .nil)
  | cons ht h =>
    rw [Goal.step, Goal.step, L.lexeme_eq ht, startsWith_eq h]
    refine .ite (fun _ => .ok ⟨rfl, h⟩) fun _ => ?_
    refine .ite (fun _ => .ok ⟨rfl, h⟩) fun _ => ?_
    refine .ite (fun _ => ?_) fun _ => ?_
    · obtain ⟨_, _, hgroup, hgroup', hafter⟩ | ⟨_, _, hgroup, hgroup', hfault⟩ :=
        (pass_group (tokens_cons ht h)).cases
      · simp only [hgroup, hgroup']
        exact .ok ⟨rfl, hafter⟩
      · simp only [hgroup, hgroup']
        exact .error hfault
    · exact .ite (fun _ => .ok ⟨rfl, tail h⟩) fun _ => .ok ⟨rfl, .cons ht h⟩

theorem steps (goal : Goal) (h : L.Tokens ahead ahead') :
    L.Steps (goal.step ahead) (goal.step ahead') := by
  cases goal with
  | type => exact steps_type h
  | path => exact .ok ⟨rfl, drop_word _ h⟩
  | segment => exact steps_segment h
  | pathRest =>
    rw [Goal.step, Goal.step, startsWith_eq h]
    exact .ite (fun _ => .ok ⟨rfl, tail h⟩) fun _ => .ok ⟨rfl, h⟩
  | tupleElement =>
    rw [Goal.step, Goal.step, startsWith_eq h]
    exact .ite (fun _ => .ok ⟨rfl, tail h⟩) fun _ => .ok ⟨rfl, h⟩
  | tupleRest =>
    rw [Goal.step, Goal.step, startsWith_eq h]
    exact .ite (fun _ => .ok ⟨rfl, tail h⟩) fun _ => steps_word _ _ _ h
  | arrayRest => exact steps_arrayRest h
  | bound =>
    cases h with
    | nil => exact .ok ⟨rfl, .nil⟩
    | cons ht h =>
      rw [Goal.step, Goal.step, L.lexeme_eq ht]
      exact .ite (fun _ => .ok ⟨rfl, h⟩) fun _ => .ok ⟨rfl, .cons ht h⟩
  | boundRest =>
    rw [Goal.step, Goal.step, startsWith_eq h]
    exact .ite (fun _ => .ok ⟨rfl, tail h⟩) fun _ => .ok ⟨rfl, h⟩
  | arguments => exact steps_word _ _ _ h
  | argument => exact steps_argument h
  | argumentRest =>
    rw [Goal.step, Goal.step, startsWith_eq h]
    exact .ite (fun _ => .ok ⟨rfl, tail h⟩) fun _ => steps_word _ _ _ h

theorem pass_eq_bind (goal : Goal) (later : List Goal) (ahead : List Token) :
    Goal.pass (goal :: later) ahead =
      goal.step ahead >>= fun (parts, rest) => Goal.pass (parts ++ later) rest := by
  rw [pass_cons]
  cases goal.step ahead <;> rfl

theorem pass (goals : List Goal) (h : L.Tokens ahead ahead') :
    Agree (SyntaxFault.Alike L) L.Tokens (Goal.pass goals ahead) (Goal.pass goals ahead') := by
  induction hn : Goal.weight goals ahead using Nat.strongRecOn generalizing goals ahead ahead' with
  | _ n ih =>
    subst hn
    cases goals with
    | nil =>
      rw [pass_nil, pass_nil]
      exact .ok h
    | cons goal later =>
      rw [pass_eq_bind, pass_eq_bind]
      refine (steps goal h).bind_of_eq ?_
      rintro ⟨parts, rest⟩ ⟨_, rest'⟩ hstep ⟨rfl, hrest⟩
      have hweight := Goal.weight_step hstep
      refine ih _ ?_ _ hrest rfl
      simp only [Goal.weight, Goal.ranks_append, Goal.ranks] at hweight ⊢
      omega

end Likeness

/-- Whether two types have the same text and alike places. -/
structure WrittenType.Alike (L : Likeness source source') (type type' : WrittenType) : Prop where
  text : type.text = type'.text
  location : L.place type.location type'.location

namespace Likeness

theorem reads_type (h : L.Tokens ahead ahead') :
    L.Reads (WrittenType.Alike L) (readType ahead) (readType ahead') := by
  cases h with
  | nil => exact .error (alike_expected _ .nil)
  | cons ht h =>
    rw [readType, readType]
    obtain ⟨_, _, hpass, hpass', hrest⟩ | ⟨_, _, hpass, hpass', hfault⟩ :=
      (pass [.type] (tokens_cons ht h)).cases
    · simp only [hpass, hpass']
      have hlexemes := lexemes_eq (passed_alike (tokens_cons ht h) hrest)
      exact .ok ⟨.mk (congrArg spelling hlexemes) (L.place_token ht), hrest⟩
    · simp only [hpass, hpass']
      exact .error hfault

theorem whole_type (h : L.Tokens ahead ahead') :
    Agree (SyntaxFault.Alike L) (WrittenType.Alike L) (readWholeType ahead)
      (readWholeType ahead') := by
  rw [readWholeType, readWholeType]
  obtain ⟨⟨type, rest⟩, ⟨type', rest'⟩, hread, hread', htype, hrest⟩ |
    ⟨_, _, hread, hread', hfault⟩ := (reads_type h).cases
  · cases hrest with
    | nil =>
      simp only [hread, hread']
      exact .ok htype
    | cons ht hrest =>
      simp only [hread, hread']
      exact .error (.mk (by rw [L.lexeme_eq ht]) (.cons ht hrest))
  · simp only [hread, hread']
    exact .error hfault

end Likeness

/-! ## Attributes -/

/-- Whether two attributes have the same form around alike tokens. -/
inductive AttributeForm.Alike (L : Likeness source source') : AttributeForm → AttributeForm → Prop
  | bare : Alike L .bare .bare
  | delimited (d : Delimiter) {args args' : List Token} (h : L.Tokens args args') :
      Alike L (.delimited d args) (.delimited d args')
  | assigned {value value' : List Token} (h : L.Tokens value value') :
      Alike L (.assigned value) (.assigned value')

/-- Whether two attributes are the same but for places and text, and these are alike. -/
structure Attribute.Alike (L : Likeness source source') (a a' : Attribute) : Prop where
  path : a.path = a'.path
  form : a.form.Alike L a'.form
  text : L.text a.text a'.text
  location : L.place a.location a'.location

namespace Likeness

theorem reads_segments (what : String) (h : L.Tokens ahead ahead') :
    L.Reads Eq (readSegments what ahead) (readSegments what ahead') := by
  induction hn : ahead.length using Nat.strongRecOn generalizing ahead ahead' with
  | _ n ih =>
    subst hn
    have hexpected := alike_expected what h
    cases h with
    | nil => exact .error hexpected
    | cons ht h =>
      cases h with
      | nil =>
        simp only [readSegments, L.lexeme_eq ht]
        exact .ite (fun _ => .error hexpected) fun _ => .ok ⟨rfl, .nil⟩
      | cons hs h =>
        simp only [readSegments, L.lexeme_eq ht, L.lexeme_eq hs]
        refine .ite (fun _ => .error hexpected) fun _ => ?_
        refine .ite (fun _ => ?_) fun _ => .ok ⟨rfl, .cons hs h⟩
        -- Two tokens are gone: the segment and the separator behind it.
        obtain ⟨_, _, hmore, hmore', hpath, hafter⟩ | ⟨_, _, hmore, hmore', hfault⟩ :=
          (ih _ (Nat.lt_succ_of_lt (Nat.lt_succ_self _)) h rfl).cases
        · simp only [hmore, hmore', hpath]
          exact .ok ⟨rfl, hafter⟩
        · simp only [hmore, hmore']
          exact .error hfault

theorem reads_path (what : String) (h : L.Tokens ahead ahead') :
    L.Reads Eq (readPath what ahead) (readPath what ahead') := by
  rw [readPath, readPath, startsWith_eq h]
  refine .ite (fun _ => ?_) fun _ => reads_segments what h
  exact (reads_segments what (tail h)).map fun h => ⟨congrArg ("::" ++ ·) h.1, h.2⟩

theorem reads_form (h : L.Tokens ahead ahead') :
    L.Reads (AttributeForm.Alike L) (readForm ahead) (readForm ahead') := by
  cases h with
  | nil => exact .ok ⟨.bare, .nil⟩
  | cons ht h =>
    have hall := tokens_cons ht h
    rw [readForm, readForm, L.lexeme_eq ht]
    split
    · exact (pass_group hall).map fun hafter =>
        ⟨.delimited _ (insideGroup_alike hall hafter), hafter⟩
    · refine .ite (fun _ => ?_) fun _ => .ok ⟨.bare, hall⟩
      obtain ⟨_, _, huntil, huntil', hafter⟩ | ⟨_, _, huntil, huntil', hfault⟩ :=
        (pass_until "]" h).cases
      · simp only [huntil, huntil', length_eq hafter, length_eq h]
        exact .ite (fun _ => .error (.mk rfl hafter)) fun _ =>
          .ok ⟨.assigned (passed_alike h hafter), hafter⟩
      · simp only [huntil, huntil']
        exact .error hfault

theorem reads_afterMark (ht : L.token t t') (h : L.Tokens ahead ahead') :
    L.Reads (Attribute.Alike L) (readAfterMark source t ahead)
      (readAfterMark source' t' ahead') := by
  rw [readAfterMark, readAfterMark, startsWith_eq h]
  refine .ite (fun _ => .error (.mk rfl h)) fun _ => ?_
  refine (reads_word _ _ h).bind fun hopen => ?_
  refine (reads_path _ hopen.2).bind fun hpath => ?_
  refine (reads_form hpath.2).bind fun hform => ?_
  refine (reads_word _ _ hform.2).bind fun hclose => ?_
  exact .ok ⟨.mk hpath.1 hform.1 (L.text_slice ht hclose.1) (L.place_token ht), hclose.2⟩

theorem readAttributes_eq_bind (source : List Char) (t : Token) (rest : List Token) :
    readAttributes source (t :: rest) =
      if t.kind = .doc then
        (readAttributes source rest).map fun (others, after) =>
          (⟨"doc", .bare, t.text, t.location⟩ :: others, after)
      else if t.isPunct "#" then
        readAfterMark source t rest >>= fun (attr, next) =>
          (readAttributes source next).map fun (others, after) => (attr :: others, after)
      else .ok ([], t :: rest) := by
  rw [readAttributes]
  split
  · cases readAttributes source rest <;> rfl
  · split
    · split
      · next hnext => rw [hnext]; rfl
      · next attr next hnext =>
        rw [hnext]
        show _ = (readAttributes source next).map _
        cases readAttributes source next <;> rfl
    · rfl

theorem reads_attributes (h : L.Tokens ahead ahead') :
    L.Reads (List.Forall₂ (Attribute.Alike L)) (readAttributes source ahead)
      (readAttributes source' ahead') := by
  induction hn : ahead.length using Nat.strongRecOn generalizing ahead ahead' with
  | _ n ih =>
    subst hn
    cases h with
    | nil =>
      rw [readAttributes, readAttributes]
      exact .ok ⟨.nil, .nil⟩
    | @cons t t' rest rest' ht h =>
      rw [readAttributes_eq_bind, readAttributes_eq_bind, L.lexeme_eq ht]
      refine .ite (fun _ => ?_) fun _ => .ite (fun _ => ?_) fun _ => .ok ⟨.nil, tokens_cons ht h⟩
      · have hdoc : Attribute.Alike L ⟨"doc", .bare, t'.text, t.location⟩
            ⟨"doc", .bare, t'.text, t'.location⟩ :=
          .mk rfl .bare (L.text_refl _) (L.place_token ht)
        exact (ih _ (Nat.lt_succ_self _) h rfl).map fun hothers =>
          ⟨.cons hdoc hothers.1, hothers.2⟩
      · refine (reads_afterMark ht h).bind_of_eq fun hnext hattr => ?_
        have hlength := length_of_readAfterMark hnext
        exact (ih _ (Nat.lt_succ_of_lt hlength) hattr.2 rfl).map fun hothers =>
          ⟨.cons hattr.1 hothers.1, hothers.2⟩

end Likeness

/-! ## Names and visibilities -/

/-- Whether two declared names are the same, with alike attributes and places. -/
structure DeclaredName.Alike (L : Likeness source source') (decl decl' : DeclaredName) :
    Prop where
  name : decl.name = decl'.name
  attributes : List.Forall₂ (Attribute.Alike L) decl.attributes decl'.attributes
  location : L.place decl.location decl'.location

namespace Likeness

theorem reads_name (h : L.Tokens ahead ahead') :
    L.Reads (DeclaredName.Alike L) (readName source ahead) (readName source' ahead') := by
  rw [readName, readName]
  obtain ⟨⟨attributes, rest⟩, ⟨attributes', rest'⟩, hread, hread', hattributes, hrest⟩ |
    ⟨_, _, hread, hread', hfault⟩ := (reads_attributes h).cases
  · cases hrest with
    | nil =>
      simp only [hread, hread']
      exact .error (alike_expected _ .nil)
    | cons ht hrest =>
      simp only [hread, hread', L.lexeme_eq ht]
      split
      · exact .error (.mk rfl (.cons ht hrest))
      · exact .ok ⟨.mk rfl hattributes (L.place_token ht), hrest⟩
  · simp only [hread, hread']
    exact .error hfault

theorem readNames_eq_bind (source : List Char) (ahead : List Token) :
    readNames source ahead =
      if startsWith ahead Delimiter.curly.closer then .ok ([], ahead)
      else
        (readName source ahead).bind fun (name, next) =>
          if startsWith next "," then
            (readNames source next.tail).map fun (names, rest) => (name :: names, rest)
          else .ok ([name], next) := by
  rw [readNames]
  split
  · rfl
  · split
    · next hname => rw [hname]; rfl
    · next name next hname =>
      rw [hname]
      show _ = if _ then _ else _
      split
      · cases readNames source next.tail <;> rfl
      · rfl

theorem reads_names (h : L.Tokens ahead ahead') :
    L.Reads (List.Forall₂ (DeclaredName.Alike L)) (readNames source ahead)
      (readNames source' ahead') := by
  induction hn : ahead.length using Nat.strongRecOn generalizing ahead ahead' with
  | _ n ih =>
    subst hn
    rw [readNames_eq_bind, readNames_eq_bind, startsWith_eq h]
    refine .ite (fun _ => .ok ⟨.nil, h⟩) fun _ => ?_
    refine (reads_name h).bind_of_eq ?_
    rintro ⟨name, next⟩ ⟨name', next'⟩ hname ⟨halike, hnext⟩
    simp only [startsWith_eq hnext]
    refine .ite (fun _ => ?_) fun _ => .ok ⟨.cons halike .nil, hnext⟩
    have hlength := length_of_readName hname
    have htail : next.tail.length < ahead.length := by
      rw [List.length_tail]
      omega
    exact (ih _ htail (tail hnext) rfl).map fun hnames => ⟨.cons halike hnames.1, hnames.2⟩

theorem reads_visibility (h : L.Tokens ahead ahead') :
    L.Reads Eq (readVisibility ahead) (readVisibility ahead') := by
  have htail := tail h
  rw [readVisibility, readVisibility, startsWith_eq h, startsWith_eq htail]
  refine .ite (fun _ => .ok ⟨rfl, h⟩) fun _ => .ite (fun _ => .ok ⟨rfl, htail⟩) fun _ => ?_
  obtain ⟨scopes, hscopes⟩ : ∃ scopes, scopes = ahead.tail.tail := ⟨_, rfl⟩
  obtain ⟨scopes', hscopes'⟩ : ∃ scopes, scopes = ahead'.tail.tail := ⟨_, rfl⟩
  have halike : L.Tokens scopes scopes' := hscopes ▸ hscopes' ▸ tail htail
  rw [← hscopes, ← hscopes']
  cases halike with
  | nil => exact .ok ⟨rfl, htail⟩
  | cons ht hrest =>
    simp only [L.lexeme_eq ht, startsWith_eq hrest]
    refine .ite (fun _ => .ok ⟨rfl, tail hrest⟩) fun _ => ?_
    refine .ite (fun _ => ?_) fun _ => .ok ⟨rfl, htail⟩
    obtain ⟨⟨_, _⟩, ⟨_, _⟩, hpath, hpath', rfl, hatClose⟩ | ⟨_, _, hpath, hpath', hfault⟩ :=
      (reads_path "a module path" hrest).cases
    · simp only [hpath, hpath']
      exact (pass_word _ _ hatClose).map fun hafter => ⟨rfl, hafter⟩
    · simp only [hpath, hpath']
      exact .error hfault

end Likeness

/-! ## Blocks -/

/-- Whether two blocks are the same but for alike attributes and places. -/
structure Declaration.Alike (L : Likeness source source') (block block' : Declaration) :
    Prop where
  attributes : List.Forall₂ (Attribute.Alike L) block.attributes block'.attributes
  inner : block.inner.Alike L block'.inner
  visibility : block.visibility = block'.visibility
  names : List.Forall₂ (DeclaredName.Alike L) block.names block'.names

namespace Likeness

theorem reads_block (h : L.Tokens ahead ahead') :
    L.Reads (Declaration.Alike L) (readBlock source ahead) (readBlock source' ahead') := by
  rw [readBlock, readBlock]
  refine (reads_attributes h).bind fun hattributes => ?_
  refine (reads_visibility hattributes.2).bind fun hvisibility => ?_
  refine (reads_type hvisibility.2).bind fun hinner => ?_
  refine (reads_word _ _ hinner.2).bind fun hopen => ?_
  refine (reads_names hopen.2).bind fun hnames => ?_
  refine (reads_word _ _ hnames.2).bind fun hclose => ?_
  exact .ok ⟨.mk hattributes.1 hinner.1 hvisibility.1 hnames.1, hclose.2⟩

theorem readBlocks_eq_bind (source : List Char) (t : Token) (rest : List Token) :
    readBlocks source (t :: rest) =
      readBlock source (t :: rest) >>= fun (block, next) =>
        (readBlocks source next).map (block :: ·) := by
  rw [readBlocks_cons]
  cases readBlock source (t :: rest) <;> rfl

/-- From alike tokens alike blocks are read. -/
theorem reads_blocks (h : L.Tokens ahead ahead') :
    Agree (SyntaxFault.Alike L) (List.Forall₂ (Declaration.Alike L)) (readBlocks source ahead)
      (readBlocks source' ahead') := by
  induction hn : ahead.length using Nat.strongRecOn generalizing ahead ahead' with
  | _ n ih =>
    subst hn
    cases h with
    | nil =>
      rw [readBlocks_nil, readBlocks_nil]
      exact .ok .nil
    | @cons t t' rest rest' ht h =>
      rw [readBlocks_eq_bind, readBlocks_eq_bind]
      refine (reads_block (tokens_cons ht h)).bind_of_eq fun hblock ⟨halike, hnext⟩ => ?_
      exact (ih _ (length_of_readBlock hblock) hnext rfl).map (.cons halike)

end Likeness
end Microtypes
