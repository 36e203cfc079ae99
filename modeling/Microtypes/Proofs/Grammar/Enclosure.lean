import Microtypes.Proofs.Grammar.Nesting
import Microtypes.Proofs.Verbatim

/-!
# Where groups and values end

A group ends at the bracket that closes the one it begins with, and what is read up to a stop word
ends at the first one that lies in no group. What is gone past is nested properly. If there is no
such place, the reading fails at the first bracket that does not close the innermost open one, or at
the bracket that is never closed (`encloses_readGroup`).
-/

namespace Microtypes

open Lexeme (punct)

variable {opener closer t : Token} {ahead behind front inside rest after : List Token}
  {d closed innermost innermost' : Delimiter} {opened opened' outer outer' : List Delimiter}
  {unclosed : SyntaxFault} {stop : String} {result : Reads (List Token)}

/-! ## Brackets that do not match -/

theorem opens_eq_none_of_closes {l : Lexeme} (h : l.closes? = some d) : l.opens? = none := by
  rw [eq_punct_of_closes h]
  cases d <;> rfl

/-- Where brackets do not match, there is a first one that does not close the innermost one. -/
theorem exists_of_nest_eq_none (h : nest outer (lexemes ahead) = none) :
    ∃ before closer after opened closed, ahead = before ++ closer :: after ∧
      nest outer (lexemes before) = some opened ∧ closer.closes? = some closed ∧
      opened.head? ≠ some closed := by
  induction ahead generalizing outer with
  | nil => cases h
  | cons t ahead ih =>
    rw [lexemes_cons] at h
    cases hopens : t.opens? with
    | some d =>
      simp only [nest, hopens] at h
      obtain ⟨before, closer, after, opened, closed, rfl, hbefore, hcloser, hhead⟩ := ih h
      refine ⟨t :: before, closer, after, opened, closed, rfl, ?_, hcloser, hhead⟩
      simp only [lexemes_cons, nest, hopens, hbefore]
    | none =>
      cases hcloses : t.closes? with
      | none =>
        simp only [nest, hopens, hcloses] at h
        obtain ⟨before, closer, after, opened, closed, rfl, hbefore, hcloser, hhead⟩ := ih h
        refine ⟨t :: before, closer, after, opened, closed, rfl, ?_, hcloser, hhead⟩
        rw [lexemes_cons, nest_plain hopens hcloses, hbefore]
      | some d =>
        by_cases hsame : outer.head? = some d
        · obtain ⟨below, rfl⟩ := List.head?_eq_some_iff.mp hsame
          simp only [nest, hopens, hcloses, if_true] at h
          obtain ⟨before, closer, after, opened, closed, rfl, hbefore, hcloser, hhead⟩ := ih h
          refine ⟨t :: before, closer, after, opened, closed, rfl, ?_, hcloser, hhead⟩
          simp only [lexemes_cons, nest, hopens, hcloses, if_true, hbefore]
        · exact ⟨[], t, ahead, outer, d, rfl, rfl, hcloses, hsame⟩

/-! ## Groups -/

/-- The tokens inside the group that comes next. -/
def readGroup (ahead : List Token) : Reads (List Token) :=
  (passGroup ahead).map fun after => (insideGroup ahead after, after)

/-- How a group ends that the token `opener` opens with a bracket of the kind `d`. The brackets that
are open inside the group are those behind its tokens where none is open in front of them. -/
inductive GroupEnds (opener : Token) (d : Delimiter) (behind : List Token) :
    Reads (List Token) → Prop
  /-- The bracket is closed behind tokens that are nested properly. -/
  | closed {inside after : List Token} {closer : Token}
      (hbehind : behind = inside ++ closer :: after) (hinside : Balanced (lexemes inside))
      (hcloser : closer.closes? = some d) : GroupEnds opener d behind (.ok (inside, after))
  /-- A bracket is closed that is not the innermost one. -/
  | mismatched {before after : List Token} {closer : Token} {opened : List Delimiter}
      {closed : Delimiter} (hbehind : behind = before ++ closer :: after)
      (hopened : nest [] (lexemes before) = some opened) (hcloser : closer.closes? = some closed)
      (hinnermost : (opened ++ [d]).head? ≠ some closed) :
      GroupEnds opener d behind (.error ⟨.mismatched closer.text, closer :: after⟩)
  /-- The tokens end while brackets are open. -/
  | unclosed {opened : List Delimiter} (hopened : nest [] (lexemes behind) = some opened) :
      GroupEnds opener d behind (.error ⟨.unclosed opener.text, opener :: behind⟩)

/-- The open brackets are followed as long as the outermost one stays open. -/
theorem passClosers_run (h : nest opened (lexemes front) = some opened')
    (hstack : opened ++ [d] = innermost :: outer)
    (hstack' : opened' ++ [d] = innermost' :: outer') :
    passClosers unclosed innermost outer (front ++ rest) =
      passClosers unclosed innermost' outer' rest := by
  induction front generalizing opened innermost outer with
  | nil =>
    cases h
    cases hstack.symm.trans hstack'
    rfl
  | cons t front ih =>
    rw [lexemes_cons] at h
    rw [List.cons_append, passClosers.eq_def]
    cases hopens : t.opens? with
    | some e =>
      simp only [nest, hopens] at h ⊢
      exact ih h (by rw [List.cons_append, hstack])
    | none =>
      cases hcloses : t.closes? with
      | none =>
        rw [nest_plain hopens hcloses] at h
        simp only [hopens, hcloses]
        exact ih h hstack
      | some e =>
        cases opened with
        | nil =>
          simp only [nest, hopens, hcloses] at h
          cases h
        | cons top below =>
          simp only [nest, hopens, hcloses] at h
          split at h
          · next hsame =>
            obtain ⟨rfl, hbelow⟩ := List.cons.inj hstack
            cases outer with
            | nil => exact absurd hbelow (List.append_ne_nil_of_right_ne_nil _ (by simp))
            | cons next others =>
              simp only [hopens, hcloses, if_pos hsame]
              exact ih h hbelow
          · cases h

theorem passGroup_run (hopener : opener.opens? = some d)
    (h : nest [] (lexemes front) = some opened) (hstack : opened ++ [d] = innermost :: outer) :
    passGroup (opener :: front ++ rest) =
      passClosers ⟨.unclosed opener.text, opener :: front ++ rest⟩ innermost outer rest := by
  rw [List.cons_append, passGroup]
  simp only [hopener]
  exact passClosers_run h rfl hstack

theorem passed_run (run rest : List Token) : passed (run ++ rest) rest = run := by
  have hrun := passed_append run [] rest
  rw [List.nil_append] at hrun
  exact hrun.trans List.take_length

theorem insideGroup_closed (opener closer : Token) (inside after : List Token) :
    insideGroup (opener :: inside ++ closer :: after) after = inside := by
  have hpassed := passed_run (opener :: inside ++ [closer]) after
  rw [List.append_assoc, List.singleton_append] at hpassed
  rw [insideGroup, hpassed, List.cons_append, List.tail_cons, List.dropLast_concat]

theorem passGroup_closed (hopener : opener.opens? = some d) (hinside : Balanced (lexemes inside))
    (hcloser : closer.closes? = some d) :
    passGroup (opener :: inside ++ closer :: after) = .ok after := by
  rw [passGroup_run hopener (nest_of_balanced hinside []) rfl, passClosers.eq_def]
  simp only [opens_eq_none_of_closes hcloser, hcloser, if_true]

theorem readGroup_closed (hopener : opener.opens? = some d) (hinside : Balanced (lexemes inside))
    (hcloser : closer.closes? = some d) :
    readGroup (opener :: inside ++ closer :: after) = .ok (inside, after) := by
  rw [readGroup, passGroup_closed hopener hinside hcloser, Except.map, insideGroup_closed]

theorem readGroup_mismatched (hopener : opener.opens? = some d)
    (hopened : nest [] (lexemes front) = some opened) (hcloser : closer.closes? = some closed)
    (hinnermost : (opened ++ [d]).head? ≠ some closed) :
    readGroup (opener :: front ++ closer :: after) =
      .error ⟨.mismatched closer.text, closer :: after⟩ := by
  cases hstack : opened ++ [d] with
  | nil => simp at hstack
  | cons innermost outer =>
    have hne : ¬ closed = innermost := by
      rintro rfl
      rw [hstack] at hinnermost
      exact hinnermost rfl
    rw [readGroup, passGroup_run hopener hopened hstack, passClosers.eq_def]
    simp only [opens_eq_none_of_closes hcloser, hcloser, if_neg hne]
    rfl

theorem readGroup_unclosed (hopener : opener.opens? = some d)
    (hopened : nest [] (lexemes behind) = some opened) :
    readGroup (opener :: behind) = .error ⟨.unclosed opener.text, opener :: behind⟩ := by
  cases hstack : opened ++ [d] with
  | nil => simp at hstack
  | cons innermost outer =>
    have hrun : passGroup (opener :: behind ++ []) =
        passClosers ⟨.unclosed opener.text, opener :: behind ++ []⟩ innermost outer [] :=
      passGroup_run hopener hopened hstack
    rw [List.append_nil] at hrun
    rw [readGroup, hrun, passClosers.eq_def]
    rfl

theorem readGroup_eq_iff (hopener : opener.opens? = some d) :
    readGroup (opener :: behind) = result ↔ GroupEnds opener d behind result := by
  constructor
  · rintro rfl
    cases hnest : nest [] (lexemes behind) with
    | some opened =>
      rw [readGroup_unclosed hopener hnest]
      exact .unclosed hnest
    | none =>
      obtain ⟨before, closer, after, opened, closed, rfl, hopened, hcloser, hhead⟩ :=
        exists_of_nest_eq_none hnest
      by_cases hinnermost : (opened ++ [d]).head? = some closed
      · -- no other bracket is open than that of the group
        have hnil : opened = [] := by
          cases opened with
          | nil => rfl
          | cons top below => exact absurd hinnermost hhead
        subst hnil
        cases hinnermost
        have hbefore := balanced_iff_nest.mpr hopened
        rw [← List.cons_append, readGroup_closed hopener hbefore hcloser]
        exact .closed rfl hbefore hcloser
      · rw [← List.cons_append, readGroup_mismatched hopener hopened hcloser hinnermost]
        exact .mismatched rfl hopened hcloser hinnermost
  · intro h
    cases h with
    | closed hbehind hinside hcloser =>
      subst hbehind
      exact readGroup_closed hopener hinside hcloser
    | mismatched hbehind hopened hcloser hinnermost =>
      subst hbehind
      exact readGroup_mismatched hopener hopened hcloser hinnermost
    | unclosed hopened => exact readGroup_unclosed hopener hopened

/-! ## Runs up to a stop word -/

/-- The tokens up to a stop word, which is left ahead. -/
def readUntil (stop : String) (ahead : List Token) : Reads (List Token) :=
  (passUntil stop ahead).map fun after => (passed ahead after, after)

/-- Whether no token of a run that lies in no group is the word `stop`. -/
def Unstopped (stop : String) (run : List Token) : Prop :=
  ∀ front t back, run = front ++ t :: back → Balanced (lexemes front) → t.isWord stop = false

/-- How a run up to the word `stop` ends. -/
inductive RunEnds (stop : String) (ahead : List Token) : Reads (List Token) → Prop
  /-- The word is come to behind tokens that are nested properly. -/
  | stopped {inside after : List Token} {t : Token} (hahead : ahead = inside ++ t :: after)
      (hinside : Balanced (lexemes inside)) (hunstopped : Unstopped stop inside)
      (hstop : t.isWord stop = true) : RunEnds stop ahead (.ok (inside, t :: after))
  /-- A bracket is closed while none is open. -/
  | mismatched {front after : List Token} {closer : Token}
      (hahead : ahead = front ++ closer :: after) (hfront : Balanced (lexemes front))
      (hunstopped : Unstopped stop (front ++ [closer]))
      (hcloser : closer.closes?.isSome = true) :
      RunEnds stop ahead (.error ⟨.mismatched closer.text, closer :: after⟩)
  /-- A group does not end. -/
  | inGroup {front behind : List Token} {opener : Token} {d : Delimiter} {fault : SyntaxFault}
      (hahead : ahead = front ++ opener :: behind) (hfront : Balanced (lexemes front))
      (hunstopped : Unstopped stop (front ++ [opener])) (hopener : opener.opens? = some d)
      (hgroup : GroupEnds opener d behind (.error fault)) : RunEnds stop ahead (.error fault)
  /-- The tokens end in no group. -/
  | ended (hahead : Balanced (lexemes ahead)) (hunstopped : Unstopped stop ahead) :
      RunEnds stop ahead (.error ⟨.expected s!"`{stop}`" none, []⟩)

theorem balanced_of_append (hfront : Balanced (lexemes front))
    (h : Balanced (lexemes (front ++ rest))) : Balanced (lexemes rest) := by
  rw [balanced_iff_nest] at h ⊢
  rwa [lexemes_append, nest_append, nest_of_balanced hfront, Option.bind_some] at h

/-- A run goes on unstopped behind one whose brackets match. -/
theorem Unstopped.append (hfront : Balanced (lexemes front)) (h : Unstopped stop front)
    (hrest : Unstopped stop rest) : Unstopped stop (front ++ rest) := by
  intro before t back hsplit hbefore
  rcases List.append_eq_append_iff.mp hsplit with ⟨more, rfl, hback⟩ | ⟨more, hfront', hback⟩
  · exact hrest more t back hback (balanced_of_append hfront hbefore)
  · cases more with
    | nil =>
      rw [List.append_nil] at hfront'
      subst hfront'
      exact hrest [] t back hback.symm .nil
    | cons first more =>
      obtain ⟨rfl, -⟩ := List.cons.inj hback
      exact h before t more hfront' hbefore

theorem Unstopped.left (h : Unstopped stop (front ++ rest)) : Unstopped stop front := by
  rintro before t back rfl hbefore
  exact h before t (back ++ rest) (by simp) hbefore

theorem Unstopped.right (hfront : Balanced (lexemes front)) (h : Unstopped stop (front ++ rest)) :
    Unstopped stop rest := by
  rintro before t back rfl hbefore
  refine h (front ++ before) t back (by simp) ?_
  rw [lexemes_append]
  exact balanced_append hfront hbefore

theorem unstopped_nil : Unstopped stop [] := by
  intro front t back h
  simp at h

theorem unstopped_singleton (h : t.isWord stop = false) : Unstopped stop [t] := by
  intro front t' back hsplit _
  cases front with
  | nil =>
    cases hsplit
    exact h
  | cons first front => simp at hsplit

/-- Inside a group no token counts. -/
theorem unstopped_group (hopener : opener.opens? = some d) (h : opener.isWord stop = false)
    (hinside : Balanced (lexemes inside)) : Unstopped stop (opener :: inside ++ [closer]) := by
  intro before t back hsplit hbefore
  cases before with
  | nil =>
    cases hsplit
    exact h
  | cons first before =>
    -- the bracket of the group is still open
    obtain ⟨rfl, htail⟩ := List.cons.inj hsplit
    have hprefix : before <+: inside := by
      have hlength := congrArg List.length htail
      have hback : before <+: inside ++ [closer] := ⟨t :: back, htail.symm⟩
      refine List.prefix_of_prefix_length_le hback (List.prefix_append inside _) ?_
      simp at hlength
      omega
    obtain ⟨more, rfl⟩ := hprefix
    rw [balanced_iff_nest] at hinside hbefore
    rw [lexemes_append, nest_append, Option.bind_eq_some_iff] at hinside
    obtain ⟨opened, hopened, -⟩ := hinside
    have hinner := nest_outer hopened [d]
    rw [lexemes_cons, eq_punct_of_opens hopener, nest_opener] at hbefore
    rw [List.nil_append, hbefore] at hinner
    simp at hinner

theorem balanced_group (hopener : opener.opens? = some d) (hinside : Balanced (lexemes inside))
    (hcloser : closer.closes? = some d) : Balanced (lexemes (opener :: inside ++ [closer])) := by
  rw [lexemes_append, lexemes_cons, lexemes_cons, eq_punct_of_opens hopener,
    eq_punct_of_closes hcloser]
  exact .group d hinside .nil

/-- What lies in no group and is not the stop word is gone past. -/
theorem passUntil_run (hfront : Balanced (lexemes front)) (h : Unstopped stop front)
    (rest : List Token) : passUntil stop (front ++ rest) = passUntil stop rest := by
  generalize hts : lexemes front = ts at hfront
  induction hfront generalizing front with
  | nil =>
    obtain rfl := List.map_eq_nil_iff.mp hts
    rfl
  | plain hopens hcloses _ ih =>
    obtain ⟨t, more, rfl, rfl, hmore⟩ := List.map_eq_cons_iff.mp hts
    have hstop : ¬ t.isWord stop = true := by simp [h [] t more rfl .nil]
    have hfirst : Balanced (lexemes [t]) := .plain hopens hcloses .nil
    rw [List.cons_append, Likeness.passUntil_eq_bind, if_neg hstop, hopens, hcloses]
    exact ih (Unstopped.right hfirst h) hmore
  | group d hinside _ _ ih =>
    obtain ⟨opener, more, rfl, hopener, hmore⟩ := List.map_eq_cons_iff.mp hts
    obtain ⟨inside, others, rfl, rfl, hothers⟩ := List.map_eq_append_iff.mp hmore
    obtain ⟨closer, later, rfl, hcloser, hlater⟩ := List.map_eq_cons_iff.mp hothers
    have hstop : ¬ opener.isWord stop = true := by simp [h [] opener _ rfl .nil]
    have hopens : opener.opens? = some d := by
      rw [hopener]
      cases d <;> rfl
    have hcloses : closer.closes? = some d := by
      rw [hcloser]
      cases d <;> rfl
    have hgroup : passGroup (opener :: inside ++ closer :: (later ++ rest)) = .ok (later ++ rest) :=
      passGroup_closed hopens hinside hcloses
    have hsplit : opener :: (inside ++ closer :: later) =
        (opener :: inside ++ [closer]) ++ later := by
      simp
    have hall : opener :: (inside ++ closer :: later) ++ rest =
        opener :: inside ++ closer :: (later ++ rest) := by
      simp
    rw [hall, List.cons_append, Likeness.passUntil_eq_bind, if_neg hstop, hopens,
      ← List.cons_append, hgroup]
    rw [hsplit] at h
    exact ih (h.right (balanced_group hopens hinside hcloses)) hlater

theorem readUntil_run (hfront : Balanced (lexemes front)) (h : Unstopped stop front)
    (rest : List Token) :
    readUntil stop (front ++ rest) = (readUntil stop rest).map fun r => (front ++ r.1, r.2) := by
  rw [readUntil, readUntil, passUntil_run hfront h]
  cases hpass : passUntil stop rest with
  | error fault => rfl
  | ok after =>
    have hlength := length_of_passUntil hpass
    have hpassed : passed (front ++ rest) after = front ++ passed rest after := by
      rw [passed, passed, List.length_append, Nat.add_sub_assoc hlength,
        List.take_length_add_append]
    simp only [Except.map, hpassed]

theorem readUntil_nil (stop : String) :
    readUntil stop [] = .error ⟨.expected s!"`{stop}`" none, []⟩ := by
  rw [readUntil, passUntil]
  rfl

theorem readUntil_stop (h : t.isWord stop = true) (rest : List Token) :
    readUntil stop (t :: rest) = .ok ([], t :: rest) := by
  rw [readUntil, Likeness.passUntil_eq_bind, if_pos h, Except.map]
  exact congrArg (fun run => Except.ok (run, t :: rest)) (passed_run [] (t :: rest))

theorem readUntil_closer (hstop : closer.isWord stop = false) (h : closer.closes?.isSome = true)
    (rest : List Token) :
    readUntil stop (closer :: rest) = .error ⟨.mismatched closer.text, closer :: rest⟩ := by
  obtain ⟨d, hd⟩ := Option.isSome_iff_exists.mp h
  rw [readUntil, Likeness.passUntil_eq_bind, hstop, opens_eq_none_of_closes hd, hd]
  rfl

theorem readUntil_opener {fault : SyntaxFault} (hstop : opener.isWord stop = false)
    (hopener : opener.opens? = some d) (h : readGroup (opener :: rest) = .error fault) :
    readUntil stop (opener :: rest) = .error fault := by
  rw [readGroup] at h
  rw [readUntil, Likeness.passUntil_eq_bind, hstop, hopener]
  cases hgroup : passGroup (opener :: rest) with
  | ok after =>
    rw [hgroup] at h
    cases h
  | error fault' =>
    rw [hgroup] at h
    cases h
    rfl

/-- Behind what is gone past, a run ends as it does from there. -/
theorem RunEnds.prepend (hfront : Balanced (lexemes front)) (hunstopped : Unstopped stop front)
    (h : RunEnds stop rest result) :
    RunEnds stop (front ++ rest) (result.map fun r => (front ++ r.1, r.2)) := by
  have hbalanced {more : List Token} (hmore : Balanced (lexemes more)) :
      Balanced (lexemes (front ++ more)) := by
    rw [lexemes_append]
    exact balanced_append hfront hmore
  have happend {more : List Token} (hmore : Unstopped stop more) :
      Unstopped stop (front ++ more) := hunstopped.append hfront hmore
  cases h with
  | stopped hahead hinside hunstopped' hstop =>
    subst hahead
    exact .stopped (List.append_assoc ..).symm (hbalanced hinside) (happend hunstopped') hstop
  | mismatched hahead hfront' hunstopped' hcloser =>
    subst hahead
    refine .mismatched (List.append_assoc ..).symm (hbalanced hfront') ?_ hcloser
    rw [List.append_assoc]
    exact happend hunstopped'
  | inGroup hahead hfront' hunstopped' hopener hgroup =>
    subst hahead
    refine .inGroup (List.append_assoc ..).symm (hbalanced hfront') ?_ hopener hgroup
    rw [List.append_assoc]
    exact happend hunstopped'
  | ended hahead hunstopped' => exact .ended (hbalanced hahead) (happend hunstopped')

/-- A run goes on behind a group that ends. -/
theorem runEnds_of_opens (hstop : t.isWord stop = false) (hopens : t.opens? = some d)
    (hlater : ∀ after, after.length < (t :: rest).length →
      RunEnds stop after (readUntil stop after)) :
    RunEnds stop (t :: rest) (readUntil stop (t :: rest)) := by
  have hgroup := (@readGroup_eq_iff t rest d _ hopens).mp rfl
  cases hread : readGroup (t :: rest) with
  | error fault =>
    have hfirst : t :: rest = [] ++ t :: rest := rfl
    have hnil : Balanced (lexemes []) := .nil
    rw [hread] at hgroup
    rw [readUntil_opener hstop hopens hread]
    exact .inGroup hfirst hnil (unstopped_singleton hstop) hopens hgroup
  | ok r =>
    rw [hread] at hgroup
    cases hgroup with
    | @closed inside after closer hbehind hinside hcloser =>
      have hsplit : t :: rest = (t :: inside ++ [closer]) ++ after := by
        rw [hbehind]
        simp
      have hbalanced := balanced_group hopens hinside hcloser
      have hunstopped : Unstopped stop (t :: inside ++ [closer]) :=
        unstopped_group hopens hstop hinside
      have hshorter : after.length < (t :: rest).length := by
        rw [hsplit, List.length_append]
        simp
      rw [hsplit, readUntil_run hbalanced hunstopped]
      exact (hlater after hshorter).prepend hbalanced hunstopped

theorem runEnds_readUntil (stop : String) (ahead : List Token) :
    RunEnds stop ahead (readUntil stop ahead) := by
  -- a group is left for the tokens behind it, so the induction is on the number of tokens
  induction hn : ahead.length using Nat.strongRecOn generalizing ahead with
  | _ n ih =>
    subst hn
    cases ahead with
    | nil =>
      rw [readUntil_nil]
      exact .ended .nil unstopped_nil
    | cons t rest =>
      cases hstop : t.isWord stop with
      | true =>
        rw [readUntil_stop hstop]
        exact .stopped rfl .nil unstopped_nil hstop
      | false =>
        have hsingle : Unstopped stop [t] := unstopped_singleton hstop
        cases hopens : t.opens? with
        | some d => exact runEnds_of_opens hstop hopens fun after h => ih after.length h after rfl
        | none =>
          cases hcloses : t.closes? with
          | some d =>
            have hcloser : t.closes?.isSome = true := by rw [hcloses]; rfl
            have hfirst : t :: rest = [] ++ t :: rest := rfl
            have hnil : Balanced (lexemes []) := .nil
            rw [readUntil_closer hstop hcloser]
            exact .mismatched hfirst hnil hsingle hcloser
          | none =>
            have hbalanced : Balanced (lexemes [t]) := .plain hopens hcloses .nil
            have hrun := (ih rest.length (Nat.lt_succ_self _) rest rfl).prepend hbalanced hsingle
            rwa [← readUntil_run hbalanced hsingle] at hrun

theorem readUntil_eq_iff : readUntil stop ahead = result ↔ RunEnds stop ahead result := by
  constructor
  · rintro rfl
    exact runEnds_readUntil stop ahead
  · intro h
    cases h with
    | stopped hahead hinside hunstopped hstop =>
      rw [hahead, readUntil_run hinside hunstopped, readUntil_stop hstop, Except.map,
        List.append_nil]
    | @mismatched front after closer hahead hfront hunstopped hcloser =>
      have hstop := hunstopped front closer [] rfl hfront
      rw [hahead, readUntil_run hfront hunstopped.left, readUntil_closer hstop hcloser]
      rfl
    | @inGroup front behind opener d fault hahead hfront hunstopped hopener hgroup =>
      have hstop := hunstopped front opener [] rfl hfront
      rw [hahead, readUntil_run hfront hunstopped.left,
        readUntil_opener hstop hopener ((readGroup_eq_iff hopener).mpr hgroup)]
      rfl
    | ended hahead hunstopped =>
      have hrun := readUntil_run hahead hunstopped []
      rw [List.append_nil, readUntil_nil] at hrun
      exact hrun

/-! ## Arguments of attributes -/

/-- The arguments of an attribute of the grammar are nested properly. -/
theorem balanced_arguments {tree : AttributeTree} {a : Attribute} (htree : tree.WellFormed)
    (h : tree.Matches a) : Balanced (lexemes a.arguments) := by
  cases tree with
  | doc comment =>
    obtain ⟨-, hform, -⟩ := h
    rw [Attribute.arguments, hform]
    exact .nil
  | marked path form =>
    obtain ⟨-, hwell⟩ := htree
    obtain ⟨-, hform⟩ := h
    rw [Attribute.arguments]
    generalize a.form = read at hform
    cases form <;> cases read
    case bare.bare => exact .nil
    case delimited.delimited d inside d' arguments =>
      obtain ⟨-, rfl⟩ := hform
      exact hwell
    case assigned.assigned value value' =>
      obtain rfl : lexemes value' = value := hform
      exact hwell.1
    all_goals exact hform.elim

/-- Groups, and runs up to a stop word, end where the brackets say, and the arguments of every
attribute that is read are nested properly. -/
theorem encloses_readGroup :
    (∀ (opener : Token) (d : Delimiter) (behind : List Token) (result : Reads (List Token)),
      opener.opens? = some d →
        (readGroup (opener :: behind) = result ↔ GroupEnds opener d behind result)) ∧
    (∀ (stop : String) (ahead : List Token) (result : Reads (List Token)),
      readUntil stop ahead = result ↔ RunEnds stop ahead result) ∧
    (∀ (source : String) (blocks : List Declaration), readSource source = .ok blocks →
      ∀ block ∈ blocks, ∀ a,
        (a ∈ block.attributes ∨ ∃ decl ∈ block.names, a ∈ decl.attributes) →
          Balanced (lexemes a.arguments)) := by
  refine ⟨fun _ _ _ _ h => readGroup_eq_iff h, fun _ _ _ => readUntil_eq_iff, ?_⟩
  intro source blocks hread block hblock a ha
  obtain ⟨ts, run, -, -, hstands⟩ := exists_standsAlone_of_readSource hread hblock ha
  obtain ⟨tree, htree, -, hmatches⟩ := hstands.derived
  exact balanced_arguments htree hmatches

/-- The bracket in a string closes no group. -/
theorem encloses_readGroup_bracketed :
    (punct "(").opens? = some .round ∧
      GroupEnds ⟨punct "(", ⟨1, 4⟩, 3, 4⟩ .round (bracketedTokens.drop 4)
        (.ok ([⟨⟨.literal, "\"]\""⟩, ⟨1, 5⟩, 4, 7⟩], bracketedTokens.drop 6)) ∧
      ∃ blocks, readSource bracketedSource = .ok blocks ∧ ∃ block ∈ blocks,
        bracketedAttribute ∈ block.attributes ∧
          Balanced (lexemes bracketedAttribute.arguments) := by
  obtain ⟨hgroup, -, hread⟩ := encloses_readGroup
  refine ⟨rfl, (hgroup _ .round _ _ rfl).mp rfl, _, readSource_bracketed, _, List.mem_cons_self,
    List.mem_cons_self, ?_⟩
  exact hread _ _ readSource_bracketed _ List.mem_cons_self _ (.inl List.mem_cons_self)

end Microtypes
