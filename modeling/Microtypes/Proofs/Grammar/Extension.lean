import Microtypes.Proofs.Grammar.Likeness

/-!
# Reading in front of further tokens

A reader that succeeds takes the same from the front of a longer list of tokens, if what it leaves
ahead shows it everything that it looks at, or if the names of a block begin there. A block ends
with a closing bracket, and no reader looks beyond it, so blocks that are read are read the same
whatever follows (`readBlocks_append`).
-/

namespace Microtypes

variable {text what : String} {t : Token} {ahead before rest more : List Token}

theorem startsWith_append (h : ahead ≠ []) (text : String) (more : List Token) :
    startsWith (ahead ++ more) text = startsWith ahead text := by
  cases ahead with
  | nil => exact absurd rfl h
  | cons t ahead => rfl

theorem ne_nil_of_startsWith (h : startsWith ahead text = true) : ahead ≠ [] := by
  rintro rfl
  cases h

theorem passed_append (before rest more : List Token) :
    passed (before ++ more) (rest ++ more) = passed before rest := by
  rw [passed, passed, List.length_append, List.length_append, Nat.add_sub_add_right,
    List.take_append_of_le_length (Nat.sub_le _ _)]

theorem insideGroup_append (before rest more : List Token) :
    insideGroup (before ++ more) (rest ++ more) = insideGroup before rest := by
  rw [insideGroup, insideGroup, passed_append]

/-! ## Words and groups -/

theorem readWord_append (h : readWord text what ahead = .ok (t, rest)) (more : List Token) :
    readWord text what (ahead ++ more) = .ok (t, rest ++ more) := by
  cases ahead with
  | nil => cases h
  | cons first ahead =>
    rw [readWord] at h
    split at h
    · next hword =>
      cases h
      exact if_pos hword
    · cases h

theorem passWord_append (h : passWord text what ahead = .ok rest) (more : List Token) :
    passWord text what (ahead ++ more) = .ok (rest ++ more) := by
  obtain ⟨⟨t, after⟩, hread, hend⟩ := map_eq_ok_iff.mp h
  cases hend
  rw [passWord, readWord_append hread]
  rfl

theorem dropWord_append (h : ahead ≠ []) (text : String) (more : List Token) :
    dropWord text (ahead ++ more) = dropWord text ahead ++ more := by
  rw [dropWord, dropWord, startsWith_append h]
  split
  · rw [List.tail_append_of_ne_nil h]
  · rfl

theorem passClosers_append {unclosed : SyntaxFault} {innermost : Delimiter} {outer : List Delimiter}
    (h : passClosers unclosed innermost outer ahead = .ok rest) (unclosed' : SyntaxFault)
    (more : List Token) :
    passClosers unclosed' innermost outer (ahead ++ more) = .ok (rest ++ more) := by
  fun_induction passClosers unclosed innermost outer ahead with
  | case1 => cases h
  | case2 innermost outer t ahead opened hopens ih =>
    rw [List.cons_append, passClosers.eq_def]
    simp only [hopens]
    exact ih h
  | case3 innermost t ahead hopens hcloses =>
    cases h
    rw [List.cons_append, passClosers.eq_def]
    simp only [hopens, hcloses, if_true]
  | case4 innermost t ahead hopens hcloses next others ih =>
    rw [List.cons_append, passClosers.eq_def]
    simp only [hopens, hcloses, if_true]
    exact ih h
  | case5 => cases h
  | case6 innermost outer t ahead hopens hcloses ih =>
    rw [List.cons_append, passClosers.eq_def]
    simp only [hopens, hcloses]
    exact ih h

theorem passGroup_append (h : passGroup ahead = .ok rest) (more : List Token) :
    passGroup (ahead ++ more) = .ok (rest ++ more) := by
  cases ahead with
  | nil => cases h
  | cons t ahead =>
    rw [passGroup] at h
    rw [List.cons_append, passGroup]
    split at h
    · exact passClosers_append h _ more
    · cases h

theorem passUntil_append {stop : String} (h : passUntil stop ahead = .ok rest) (more : List Token) :
    passUntil stop (ahead ++ more) = .ok (rest ++ more) := by
  fun_induction passUntil stop ahead with
  | case1 => cases h
  | case2 t ahead hstop =>
    cases h
    rw [List.cons_append, passUntil, if_pos hstop]
  | case3 => cases h
  | case4 t ahead hstop hopens after hgroup ih =>
    rw [List.cons_append, Likeness.passUntil_eq_bind, if_neg hstop, if_pos hopens,
      ← List.cons_append, passGroup_append hgroup]
    exact ih h
  | case5 => cases h
  | case6 t ahead hstop hopens hcloses ih =>
    rw [List.cons_append, passUntil, if_neg hstop, if_neg hopens, if_neg hcloses]
    exact ih h

/-! ## Types -/

/-- Whether what a reader takes does not depend on further tokens, where it leaves `n` tokens ahead:
it looks at no more than two, and it takes no opening curly bracket into account. -/
def Unseen (n : Nat) (more : List Token) : Prop :=
  2 ≤ n ∨ startsWith more Delimiter.curly.opener = true

theorem startsWith_of_opener (h : startsWith more Delimiter.curly.opener = true)
    (htext : text ≠ Delimiter.curly.opener) : startsWith more text = false := by
  obtain ⟨t, rest, rfl, hword⟩ := exists_of_startsWith h
  rw [Bool.eq_false_iff]
  intro hstart
  exact htext ((text_eq_of_isWord hstart).symm.trans (text_eq_of_isWord hword))

theorem dropWord_of_opener (h : startsWith more Delimiter.curly.opener = true)
    (htext : text ≠ Delimiter.curly.opener) : dropWord text more = more := by
  rw [dropWord, startsWith_of_opener h htext, if_neg Bool.false_ne_true]

theorem kind_of_opener (h : startsWith (t :: more) Delimiter.curly.opener = true) :
    t.kind ≠ .lifetime := by
  intro hk
  have hword : t.isWord Delimiter.curly.opener = true := h
  simp [Lexeme.isWord, hk] at hword

theorem dropLifetime_append (h : ahead ≠ []) (more : List Token) :
    Goal.dropLifetime (ahead ++ more) = Goal.dropLifetime ahead ++ more := by
  cases ahead with
  | nil => exact absurd rfl h
  | cons t ahead =>
    rw [List.cons_append, Goal.dropLifetime, Goal.dropLifetime]
    split <;> rfl

theorem dropLifetime_of_opener (h : startsWith more Delimiter.curly.opener = true) :
    Goal.dropLifetime more = more := by
  cases more with
  | nil => rfl
  | cons t more => rw [Goal.dropLifetime, if_neg (kind_of_opener h)]

/-- Whether the reading `y` of further tokens is the reading `x` if that leaves `n` tokens ahead. -/
structure Extends {α : Type} (n : Nat) (more : List Token) (x y : Reads α) : Prop where
  of_ok : ∀ {a : α} {rest : List Token}, x = .ok (a, rest) → n ≤ rest.length →
    y = .ok (a, rest ++ more)

namespace Extends

variable {α : Type} {n : Nat} {x x' y y' : Reads α} {a : α}

theorem ok : Extends n more (.ok (a, rest)) (.ok (a, rest ++ more)) where
  of_ok := by
    rintro _ _ ⟨⟩ _
    rfl

theorem error {fault : SyntaxFault} : Extends n more (.error fault) y where
  of_ok := by
    rintro _ _ ⟨⟩

/-- Nothing is asked where too few tokens are left. -/
theorem short (hrest : rest.length < n) : Extends n more (.ok (a, rest)) y where
  of_ok := by
    rintro _ _ ⟨⟩ h
    omega

/-- Where less than two tokens are left, the further tokens begin with an opening bracket. -/
theorem of_opener (hunseen : Unseen n more) (hrest : rest.length < 2)
    (hy : startsWith more Delimiter.curly.opener = true → y = .ok (a, rest ++ more)) :
    Extends n more (.ok (a, rest)) y where
  of_ok := by
    rintro _ _ ⟨⟩ hn
    rcases hunseen with htwo | hopen
    · omega
    · exact hy hopen

theorem ite {c : Prop} [Decidable c] (hthen : c → Extends n more x x')
    (helse : ¬c → Extends n more y y') :
    Extends n more (if c then x else y) (if c then x' else y') := by
  by_cases h : c
  · rw [if_pos h, if_pos h]
    exact hthen h
  · rw [if_neg h, if_neg h]
    exact helse h

end Extends

theorem extends_word {α : Type} (text what : String) (a : α) {n : Nat} :
    Extends n more ((passWord text what ahead).map (a, ·))
      ((passWord text what (ahead ++ more)).map (a, ·)) := by
  cases hpass : passWord text what ahead with
  | error fault => exact .error
  | ok after =>
    rw [passWord_append hpass]
    exact .ok

theorem extends_arrayRest {n : Nat} :
    Extends n more (Goal.step .arrayRest ahead) (Goal.step .arrayRest (ahead ++ more)) := by
  cases ahead with
  | nil => exact .error
  | cons t ahead =>
    rw [List.cons_append, Goal.step, Goal.step]
    refine .ite (fun _ => ?_) fun _ => extends_word _ _ _
    rw [List.tail_cons, List.tail_cons]
    cases huntil : passUntil "]" ahead with
    | error fault => exact .error
    | ok after =>
      simp only [passUntil_append huntil, List.length_append, Nat.add_right_cancel_iff]
      refine .ite (fun _ => .error) fun _ => ?_
      obtain ⟨-, -, -, hstop⟩ := balanced_of_passUntil huntil
      rw [List.tail_append_of_ne_nil (ne_nil_of_startsWith hstop)]
      exact .ok

section Steps

variable {n : Nat} (hunseen : Unseen n more)
include hunseen

theorem extends_type :
    Extends n more (Goal.step .type ahead) (Goal.step .type (ahead ++ more)) := by
  cases ahead with
  | nil => exact .error
  | cons t ahead =>
    rw [List.cons_append, Goal.step, Goal.step]
    refine .ite (fun _ => ?_) fun _ => .ite (fun _ => .ok) fun _ => .ite (fun _ => .ok) fun _ =>
      .ite (fun _ => .ok) fun _ => .ok
    by_cases hshort : (dropWord "mut" (Goal.dropLifetime ahead)).length < 2
    · refine .of_opener hunseen hshort fun hopen => ?_
      have hlifetime : Goal.dropLifetime (ahead ++ more) = Goal.dropLifetime ahead ++ more := by
        cases ahead with
        | nil => exact dropLifetime_of_opener hopen
        | cons u ahead => exact dropLifetime_append (List.cons_ne_nil _ _) more
      rw [hlifetime]
      cases Goal.dropLifetime ahead with
      | nil =>
        rw [List.nil_append, dropWord_of_opener hopen (by decide)]
        rfl
      | cons u ahead => rw [dropWord_append (List.cons_ne_nil _ _)]
    · have hword := length_dropWord_le "mut" (Goal.dropLifetime ahead)
      have hlifetime := Goal.length_dropLifetime_le ahead
      rw [dropLifetime_append (List.ne_nil_of_length_pos (by omega)),
        dropWord_append (List.ne_nil_of_length_pos (by omega))]
      exact .ok

theorem extends_segment :
    Extends n more (Goal.step .segment ahead) (Goal.step .segment (ahead ++ more)) := by
  cases ahead with
  | nil => exact .error
  | cons t ahead =>
    rw [List.cons_append, Goal.step, Goal.step]
    refine .ite (fun _ => .error) fun _ => ?_
    cases ahead with
    | nil =>
      refine .of_opener hunseen (Nat.zero_lt_succ 1) fun hopen => ?_
      rw [List.nil_append, startsWith_of_opener hopen (by decide),
        startsWith_of_opener hopen (by decide)]
      rfl
    | cons u ahead =>
      refine .ite (fun _ => .ok) fun _ => .ite (fun _ => ?_) fun _ => .ok
      cases hgroup : passGroup (u :: ahead) with
      | error fault => exact .error
      | ok after =>
        simp only [passGroup_append hgroup]
        cases after with
        | nil =>
          refine .of_opener hunseen (Nat.zero_lt_succ 1) fun hopen => ?_
          rw [List.nil_append, startsWith_of_opener hopen (by decide)]
          rfl
        | cons v after => exact .ite (fun _ => .ok) fun _ => .ok

theorem extends_argument :
    Extends n more (Goal.step .argument ahead) (Goal.step .argument (ahead ++ more)) := by
  cases ahead with
  | nil => exact .error
  | cons t ahead =>
    rw [List.cons_append, Goal.step, Goal.step]
    refine .ite (fun _ => .ok) fun _ => .ite (fun _ => .ok) fun _ => .ite (fun _ => ?_) fun _ => ?_
    · cases hgroup : passGroup (t :: ahead) with
      | error fault => exact .error
      | ok after =>
        rw [← List.cons_append, passGroup_append hgroup]
        exact .ok
    · cases ahead with
      | nil =>
        rw [startsWith_nil, if_neg (by simp)]
        refine .of_opener hunseen (Nat.lt_succ_self 1) fun hopen => ?_
        rw [List.nil_append, startsWith_of_opener hopen (by decide), if_neg (by simp)]
        rfl
      | cons u ahead => exact .ite (fun _ => .ok) fun _ => .ok

/-- A goal takes the same in front of further tokens that it does not see. -/
theorem extends_step (goal : Goal) :
    Extends n more (goal.step ahead) (goal.step (ahead ++ more)) := by
  cases goal with
  | type => exact extends_type hunseen
  | segment => exact extends_segment hunseen
  | arrayRest => exact extends_arrayRest
  | argument => exact extends_argument hunseen
  | arguments => exact extends_word _ _ _
  | path =>
    cases ahead with
    | nil =>
      refine .of_opener hunseen (Nat.zero_lt_succ 1) fun hopen => ?_
      rw [List.nil_append, Goal.step, dropWord_of_opener hopen (by decide)]
      rfl
    | cons t ahead =>
      rw [Goal.step, Goal.step, dropWord_append (List.cons_ne_nil _ _)]
      exact .ok
  | pathRest | boundRest | tupleElement =>
    cases ahead with
    | nil =>
      refine .of_opener hunseen (Nat.zero_lt_succ 1) fun hopen => ?_
      rw [List.nil_append, Goal.step, startsWith_of_opener hopen (by decide)]
      rfl
    | cons t ahead => exact .ite (fun _ => .ok) fun _ => .ok
  | tupleRest | argumentRest =>
    cases ahead with
    | nil => exact .error
    | cons t ahead => exact .ite (fun _ => .ok) fun _ => extends_word _ _ _
  | bound =>
    cases ahead with
    | nil =>
      refine .of_opener hunseen (Nat.zero_lt_succ 1) fun hopen => ?_
      cases more with
      | nil => rfl
      | cons u more => exact if_neg (kind_of_opener hopen)
    | cons t ahead => exact .ite (fun _ => .ok) fun _ => .ok

end Steps

theorem pass_append {goals : List Goal} (h : Goal.pass goals ahead = .ok rest)
    (hunseen : Unseen rest.length more) :
    Goal.pass goals (ahead ++ more) = .ok (rest ++ more) := by
  fun_induction Goal.pass goals ahead with
  | case1 ahead =>
    cases h
    exact pass_nil
  | case2 => cases h
  | case3 ahead goal later parts middle hstep ih =>
    have hmiddle := (Goal.length_of_pass h).1
    exact pass_of_step ((extends_step hunseen goal).of_ok hstep hmiddle) (ih h)

theorem readType_append {type : WrittenType} (h : readType ahead = .ok (type, rest))
    (hunseen : Unseen rest.length more) :
    readType (ahead ++ more) = .ok (type, rest ++ more) := by
  cases ahead with
  | nil => cases h
  | cons t ahead =>
    rw [readType] at h
    split at h
    · cases h
    · next after hpass =>
      cases h
      have hmore : Goal.pass [.type] (t :: (ahead ++ more)) = .ok (rest ++ more) :=
        pass_append hpass hunseen
      rw [List.cons_append, readType_of_pass hmore, ← List.cons_append, passed_append]

/-! ## Attributes -/

variable {source : List Char} {path : String}

theorem readSegments_append (h : readSegments what ahead = .ok (path, rest)) (hrest : rest ≠ [])
    (more : List Token) : readSegments what (ahead ++ more) = .ok (path, rest ++ more) := by
  fun_induction readSegments what ahead generalizing path with
  | case1 => cases h
  | case2 => cases h
  | case3 =>
    cases h
    exact absurd rfl hrest
  | case4 => cases h
  | case5 t hkind separator ahead hseparator path' after hmore ih =>
    cases h
    simp only [List.cons_append, readSegments, hseparator, if_true, if_neg hkind, ih hmore]
  | case6 t hkind separator ahead hseparator =>
    cases h
    simp only [List.cons_append, readSegments, if_neg hkind, if_neg hseparator]

theorem readPath_append (h : readPath what ahead = .ok (path, rest)) (hrest : rest ≠ [])
    (more : List Token) : readPath what (ahead ++ more) = .ok (path, rest ++ more) := by
  have hahead : ahead ≠ [] := by
    rintro rfl
    cases h
  unfold readPath at h ⊢
  rw [startsWith_append hahead]
  split at h
  · next hroot =>
    rw [if_pos hroot, List.tail_append_of_ne_nil hahead]
    obtain ⟨⟨segments, after⟩, hsegments, hend⟩ := map_eq_ok_iff.mp h
    cases hend
    rw [readSegments_append hsegments hrest]
    rfl
  · next hroot =>
    rw [if_neg hroot]
    exact readSegments_append h hrest more

theorem readForm_append {form : AttributeForm} (h : readForm ahead = .ok (form, rest))
    (hrest : rest ≠ []) (more : List Token) :
    readForm (ahead ++ more) = .ok (form, rest ++ more) := by
  cases ahead with
  | nil =>
    cases h
    exact absurd rfl hrest
  | cons t ahead =>
    have hinside := insideGroup_append (t :: ahead) rest more
    rw [List.cons_append] at hinside ⊢
    rw [readForm] at h ⊢
    split at h
    · next delimiter hopens =>
      obtain ⟨after, hgroup, hend⟩ := map_eq_ok_iff.mp h
      cases hend
      have hmore : passGroup (t :: (ahead ++ more)) = .ok (rest ++ more) :=
        passGroup_append hgroup more
      rw [hmore, ← hinside]
      rfl
    · split at h
      · next hequals =>
        rw [if_pos hequals]
        cases huntil : passUntil "]" ahead with
        | error fault => rw [huntil] at h; cases h
        | ok after =>
          simp only [huntil] at h
          simp only [passUntil_append huntil, passed_append, List.length_append,
            Nat.add_right_cancel_iff]
          split at h
          · cases h
          · next hvalue =>
            cases h
            rw [if_neg hvalue]
      · next hequals =>
        cases h
        rw [if_neg hequals]
        rfl

theorem readAfterMark_append {attr : Attribute}
    (h : readAfterMark source t ahead = .ok (attr, rest)) (more : List Token) :
    readAfterMark source t (ahead ++ more) = .ok (attr, rest ++ more) := by
  have hlength := length_of_readAfterMark h
  have hahead : ahead ≠ [] := List.ne_nil_of_length_pos (by omega)
  cases parts_of_readAfterMark h with
  | parts hbang hopen hpath hform hclose =>
    have hatClose := length_of_readWord hclose
    have hafterPath := length_of_readForm hform
    rw [readAfterMark, startsWith_append hahead, if_neg (Bool.eq_false_iff.mp hbang)]
    simp only [bind, Except.bind, readWord_append hopen,
      readPath_append hpath (List.ne_nil_of_length_pos (by omega)),
      readForm_append hform (List.ne_nil_of_length_pos (by omega)), readWord_append hclose]
    rfl

theorem readAttributes_append {attributes : List Attribute}
    (h : readAttributes source ahead = .ok (attributes, rest)) (hrest : rest ≠ [])
    (more : List Token) :
    readAttributes source (ahead ++ more) = .ok (attributes, rest ++ more) := by
  fun_induction readAttributes source ahead generalizing attributes with
  | case1 =>
    cases h
    exact absurd rfl hrest
  | case2 => cases h
  | case3 t ahead hdoc others after hothers ih =>
    cases h
    rw [List.cons_append, Likeness.readAttributes_eq_bind, if_pos hdoc, ih hothers]
    rfl
  | case4 => cases h
  | case5 => cases h
  | case6 t ahead hdoc hmark attr next hattr others after hothers ih =>
    cases h
    exact readAttributes_of_mark hdoc hmark (readAfterMark_append hattr more) (ih hothers)
  | case7 t ahead hdoc hmark =>
    cases h
    rw [List.cons_append, Likeness.readAttributes_eq_bind, if_neg hdoc, if_neg hmark]

/-! ## Blocks -/

theorem readName_append {name : DeclaredName} (h : readName source ahead = .ok (name, rest))
    (more : List Token) : readName source (ahead ++ more) = .ok (name, rest ++ more) := by
  cases parts_of_readName h with
  | parts hattributes hname =>
    exact readName_of_attributes hname
      (readAttributes_append hattributes (List.cons_ne_nil _ _) more)

theorem ne_nil_of_readNames {names : List DeclaredName}
    (h : readNames source ahead = .ok (names, rest)) (hrest : rest ≠ []) : ahead ≠ [] := by
  have hlength := length_of_readNames h
  have hpos := List.length_pos_of_ne_nil hrest
  exact List.ne_nil_of_length_pos (by omega)

theorem readNames_append {names : List DeclaredName}
    (h : readNames source ahead = .ok (names, rest)) (hrest : rest ≠ []) (more : List Token) :
    readNames source (ahead ++ more) = .ok (names, rest ++ more) := by
  have hahead := ne_nil_of_readNames h hrest
  fun_induction readNames source ahead generalizing names with
  | case1 ahead hclose =>
    cases h
    rw [readNames, startsWith_append hahead, if_pos hclose]
  | case2 => cases h
  | case3 => cases h
  | case4 ahead hclose name next hname hcomma names' after hnames ih =>
    cases h
    have hnext := ne_nil_of_startsWith hcomma
    have htail : next.tail ≠ [] := ne_nil_of_readNames hnames hrest
    refine readNames_cons ?_ (readName_append hname more) ?_ ?_
    · rw [startsWith_append hahead]
      exact Bool.eq_false_iff.2 hclose
    · rw [startsWith_append hnext, hcomma]
    · rw [List.tail_append_of_ne_nil hnext]
      exact ih hnames htail
  | case5 ahead hclose name next hname hcomma =>
    cases h
    refine readNames_last ?_ (readName_append hname more) ?_
    · rw [startsWith_append hahead]
      exact Bool.eq_false_iff.2 hclose
    · rw [startsWith_append hrest]
      exact Bool.eq_false_iff.2 hcomma

/-- A visibility takes the same in front of further tokens, if it leaves three tokens ahead. -/
theorem extends_visibility :
    Extends 3 more (readVisibility ahead) (readVisibility (ahead ++ more)) := by
  cases ahead with
  | nil => exact .short (Nat.zero_lt_succ _)
  | cons t ahead =>
    refine .ite (fun _ => .ok) fun _ => ?_
    cases ahead with
    | nil => exact .short (Nat.zero_lt_succ _)
    | cons u ahead =>
      refine .ite (fun _ => .ok) fun _ => ?_
      cases ahead with
      | nil => exact .short (by simp)
      | cons scope ahead =>
        simp only [List.cons_append, List.tail_cons]
        cases ahead with
        | nil =>
          -- The bracket that would close the scope may be the first of the further tokens.
          rw [if_neg fun hscope => Bool.false_ne_true hscope.2.2]
          by_cases hin : scope.isWord "in" = true
          · rw [if_pos hin]
            exact .error
          · rw [if_neg hin]
            exact .short (Nat.lt_succ_self 2)
        | cons v ahead =>
          refine .ite (fun _ => .ok) fun _ => .ite (fun _ => ?_) fun _ => .ok
          cases hpath : readPath "a module path" (v :: ahead) with
          | error fault => exact .error
          | ok result =>
            obtain ⟨path, atClose⟩ := result
            by_cases hend : atClose = []
            · rw [hend]
              exact .error
            · rw [readPath_append hpath hend]
              exact extends_word _ _ _

theorem readBlock_append {block : Declaration} (h : readBlock source ahead = .ok (block, rest))
    (more : List Token) : readBlock source (ahead ++ more) = .ok (block, rest ++ more) := by
  cases parts_of_readBlock h with
  | parts hattributes hvisibility htype hopen hnames hclose =>
    have hatClose := length_of_readWord hclose
    have hinside := length_of_readNames hnames
    have hatNames := length_of_readWord hopen
    have hatType := length_of_readType htype
    have hatVisibility := length_of_readVisibility hvisibility
    simp only [readBlock, bind, Except.bind,
      readAttributes_append hattributes (List.ne_nil_of_length_pos (by omega)),
      extends_visibility.of_ok hvisibility (by omega), readType_append htype (.inl (by omega)),
      readWord_append hopen, readNames_append hnames (List.ne_nil_of_length_pos (by omega)),
      readWord_append hclose]
    rfl

/-- Blocks that are read are read the same in front of further tokens. -/
theorem readBlocks_append {blocks : List Declaration} (h : readBlocks source ahead = .ok blocks)
    (more : List Token) :
    readBlocks source (ahead ++ more) = (readBlocks source more).map (blocks ++ ·) := by
  fun_induction readBlocks source ahead generalizing blocks with
  | case1 =>
    cases h
    rw [List.nil_append]
    cases readBlocks source more <;> rfl
  | case2 => cases h
  | case3 => cases h
  | case4 t ahead block next hblock blocks' hblocks ih =>
    cases h
    have hmore := readBlock_append hblock more
    rw [List.cons_append] at hmore ⊢
    rw [Likeness.readBlocks_eq_bind, hmore]
    show (readBlocks source (next ++ more)).map _ = _
    rw [ih hblocks]
    cases readBlocks source more <;> rfl

end Microtypes
