import Microtypes.Proofs.Grammar.Simulation

/-!
# What syntax errors quote

A syntax error is at one of the tokens, or at their end (`suffix_of_readBlocks`). If its message
quotes a token, then it quotes the one at its place, and all else that the message says stands on
one line; and what it calls a keyword is one (`cites_readBlocks`).
-/

namespace Microtypes

variable {source : List Char} {fault : SyntaxFault} {ahead : List Token} {what text : String}
  {K : List Symbol} {cause : SyntaxCause}

/-- The text of a token that the message of a cause quotes. -/
def SyntaxCause.cited? : SyntaxCause → Option String
  | .expected _ found => found
  | .unclosed text | .mismatched text | .keyword text | .afterType text => some text
  | .unexpectedEnd | .omitted _ | .innerAttribute | .reservedName => none

/-- What the message of a cause says was needed. -/
def SyntaxCause.needed? : SyntaxCause → Option String
  | .expected what _ | .omitted what => some what
  | .unexpectedEnd | .innerAttribute | .unclosed _ | .mismatched _ | .keyword _ | .reservedName
  | .afterType _ => none

/-- Whether a fault quotes no token but the one at its place, names what was needed on one line, and
refuses nothing as a keyword but reserved words. -/
structure SyntaxFault.Cites (fault : SyntaxFault) : Prop where
  quotes : ∀ text ∈ fault.cause.cited?, fault.rest.head?.map (·.text) = some text
  needs : ∀ what ∈ fault.cause.needed?, '\n' ∉ what.toList
  keyword : ∀ word, fault.cause = .keyword word → word ∈ reservedWords

/-- A text is looked through by its characters. -/
theorem feed_not_mem_of_chars {chars : List Char} (htext : text = String.ofList chars)
    (h : '\n' ∉ chars) : '\n' ∉ text.toList := by
  rwa [htext, String.toList_ofList]

theorem feed_not_mem_append {s t : String} (hs : '\n' ∉ s.toList) (ht : '\n' ∉ t.toList) :
    '\n' ∉ (s ++ t).toList := by
  simp [hs, ht]

theorem cites_expectedFault (hwhat : '\n' ∉ what.toList) (ahead : List Token) :
    (expectedFault what ahead).Cites where
  quotes text htext := htext
  needs _ h := by
    cases h
    exact hwhat
  keyword _ h := by cases h

theorem cites_omitted (hwhat : '\n' ∉ what.toList) (ahead : List Token) :
    SyntaxFault.Cites ⟨.omitted what, ahead⟩ where
  quotes _ h := by cases h
  needs _ h := by
    cases h
    exact hwhat
  keyword _ h := by cases h

/-- A cause that names nothing that was needed quotes the token that it is made from. -/
theorem cites_token {t : Token} {rest : List Token} (hcited : cause.cited? = some t.text)
    (hneeds : cause.needed? = none)
    (hkeyword : ∀ word, cause = .keyword word → word ∈ reservedWords) :
    SyntaxFault.Cites ⟨cause, t :: rest⟩ where
  quotes _ h := hcited.symm.trans h
  needs _ h := by
    rw [hneeds] at h
    cases h
  keyword := hkeyword

theorem cites_fixed (hcited : cause.cited? = none) (hneeds : cause.needed? = none)
    (ahead : List Token) : SyntaxFault.Cites ⟨cause, ahead⟩ where
  quotes _ h := by
    rw [hcited] at h
    cases h
  needs _ h := by
    rw [hneeds] at h
    cases h
  keyword word h := by
    obtain rfl : cause = .keyword word := h
    cases hcited

/-! ## Words and groups -/

theorem cites_readWord (hwhat : '\n' ∉ what.toList) (h : readWord text what ahead = .error fault) :
    fault.Cites := by
  cases ahead with
  | nil =>
    cases h
    exact cites_expectedFault hwhat []
  | cons t rest =>
    simp only [readWord] at h
    split at h
    · cases h
    · cases h
      exact cites_expectedFault hwhat _

theorem cites_passWord (hwhat : '\n' ∉ what.toList) (h : passWord text what ahead = .error fault) :
    fault.Cites :=
  cites_readWord hwhat (map_eq_error_iff.mp h)

theorem cites_passClosers {unclosed : SyntaxFault} {innermost : Delimiter} {outer : List Delimiter}
    (hunclosed : unclosed.Cites) (h : passClosers unclosed innermost outer ahead = .error fault) :
    fault.Cites := by
  fun_induction passClosers unclosed innermost outer ahead with
  | case1 =>
    cases h
    exact hunclosed
  | case2 innermost outer t rest opened _ ih => exact ih h
  | case3 => cases h
  | case4 t rest closed _ _ next others ih => exact ih h
  | case5 =>
    cases h
    exact cites_token rfl rfl (by rintro _ ⟨⟩)
  | case6 innermost outer t rest _ _ ih => exact ih h

theorem cites_passGroup (h : passGroup ahead = .error fault) : fault.Cites := by
  cases ahead with
  | nil =>
    cases h
    exact cites_fixed rfl rfl []
  | cons t rest =>
    simp only [passGroup] at h
    split at h
    · exact cites_passClosers (cites_token rfl rfl (by rintro _ ⟨⟩)) h
    · cases h
      exact cites_expectedFault (feed_not_mem_of_chars rfl (by decide)) _

theorem cites_passUntil (h : passUntil "]" ahead = .error fault) : fault.Cites := by
  fun_induction passUntil "]" ahead with
  | case1 =>
    cases h
    have hmark : '\n' ∉ "`".toList := feed_not_mem_of_chars rfl (by decide)
    have hstop : '\n' ∉ "]".toList := feed_not_mem_of_chars rfl (by decide)
    exact cites_expectedFault (feed_not_mem_append (feed_not_mem_append hmark hstop) hmark) []
  | case2 => cases h
  | case3 t rest _ _ fault' hgroup =>
    cases h
    exact cites_passGroup hgroup
  | case4 t rest _ _ after _ ih => exact ih h
  | case5 =>
    cases h
    exact cites_token rfl rfl (by rintro _ ⟨⟩)
  | case6 t rest _ _ _ ih => exact ih h

/-! ## Types -/

theorem cites_map_passWord {goals : List Goal} (hwhat : '\n' ∉ what.toList)
    (h : (passWord text what ahead).map (goals, ·) = .error fault) : fault.Cites :=
  cites_passWord hwhat (map_eq_error_iff.mp h)

theorem cites_step {goal : Goal} (h : goal.step ahead = .error fault) : fault.Cites := by
  have htype (ahead : List Token) : (expectedFault "a type" ahead).Cites :=
    cites_expectedFault (feed_not_mem_of_chars rfl (by decide)) ahead
  cases goal with
  | type =>
    cases ahead with
    | nil =>
      cases h
      exact htype []
    | cons t rest =>
      simp only [Goal.step] at h
      split at h
      · cases h
      · split at h
        · cases h
        · split at h
          · cases h
          · split at h <;> cases h
  | path => cases h
  | segment =>
    cases ahead with
    | nil =>
      cases h
      exact htype []
    | cons t rest =>
      simp only [Goal.step] at h
      split at h
      · cases h
        exact htype _
      · split at h
        · cases h
        · split at h
          · cases hgroup : passGroup rest with
            | error fault' =>
              rw [hgroup] at h
              cases h
              exact cites_passGroup hgroup
            | ok after =>
              simp only [hgroup] at h
              split at h <;> cases h
          · cases h
  | pathRest =>
    simp only [Goal.step] at h
    split at h <;> cases h
  | tupleElement =>
    simp only [Goal.step] at h
    split at h <;> cases h
  | tupleRest =>
    simp only [Goal.step] at h
    split at h
    · cases h
    · exact cites_map_passWord (feed_not_mem_of_chars rfl (by decide)) h
  | arrayRest =>
    simp only [Goal.step] at h
    split at h
    · cases huntil : passUntil "]" ahead.tail with
      | error fault' =>
        rw [huntil] at h
        cases h
        exact cites_passUntil huntil
      | ok after =>
        simp only [huntil] at h
        split at h
        · cases h
          exact cites_omitted (feed_not_mem_of_chars rfl (by decide)) _
        · cases h
    · exact cites_map_passWord (feed_not_mem_of_chars rfl (by decide)) h
  | bound =>
    cases ahead with
    | nil => cases h
    | cons t rest =>
      simp only [Goal.step] at h
      split at h <;> cases h
  | boundRest =>
    simp only [Goal.step] at h
    split at h <;> cases h
  | arguments => exact cites_map_passWord (feed_not_mem_of_chars rfl (by decide)) h
  | argument =>
    cases ahead with
    | nil =>
      cases h
      exact cites_omitted (feed_not_mem_of_chars rfl (by decide)) []
    | cons t rest =>
      simp only [Goal.step] at h
      split at h
      · cases h
      · split at h
        · cases h
        · split at h
          · cases hgroup : passGroup (t :: rest) with
            | error fault' =>
              rw [hgroup] at h
              cases h
              exact cites_passGroup hgroup
            | ok after =>
              rw [hgroup] at h
              cases h
          · split at h <;> cases h
  | argumentRest =>
    simp only [Goal.step] at h
    split at h
    · cases h
    · exact cites_map_passWord (feed_not_mem_of_chars rfl (by decide)) h

theorem cites_pass {goals : List Goal} (h : Goal.pass goals ahead = .error fault) :
    fault.Cites := by
  fun_induction Goal.pass goals ahead with
  | case1 => cases h
  | case2 ahead goal later fault' hstep =>
    cases h
    exact cites_step hstep
  | case3 ahead goal later parts rest _ ih => exact ih h

theorem cites_readType (h : readType ahead = .error fault) : fault.Cites := by
  cases ahead with
  | nil =>
    cases h
    exact cites_expectedFault (feed_not_mem_of_chars rfl (by decide)) []
  | cons t rest =>
    simp only [readType] at h
    split at h
    · next hpass =>
      cases h
      exact cites_pass hpass
    · cases h

theorem cites_readWholeType (h : readWholeType ahead = .error fault) : fault.Cites := by
  unfold readWholeType at h
  split at h
  · next hread =>
    cases h
    exact cites_readType hread
  · cases h
  · cases h
    exact cites_token rfl rfl (by rintro _ ⟨⟩)

/-! ## Attributes -/

theorem cites_readSegments (hwhat : '\n' ∉ what.toList)
    (h : readSegments what ahead = .error fault) : fault.Cites := by
  fun_induction readSegments what ahead with
  | case1 =>
    cases h
    exact cites_expectedFault hwhat []
  | case2 =>
    cases h
    exact cites_expectedFault hwhat _
  | case3 => cases h
  | case4 t _ separator more _ fault' hmore ih =>
    cases h
    exact ih hmore
  | case5 => cases h
  | case6 => cases h

theorem cites_readPath (hwhat : '\n' ∉ what.toList) (h : readPath what ahead = .error fault) :
    fault.Cites := by
  unfold readPath at h
  split at h
  · exact cites_readSegments hwhat (map_eq_error_iff.mp h)
  · exact cites_readSegments hwhat h

theorem cites_readForm (h : readForm ahead = .error fault) : fault.Cites := by
  cases ahead with
  | nil => cases h
  | cons t rest =>
    simp only [readForm] at h
    split at h
    · exact cites_passGroup (map_eq_error_iff.mp h)
    · split at h
      · cases huntil : passUntil "]" rest with
        | error fault' =>
          rw [huntil] at h
          cases h
          exact cites_passUntil huntil
        | ok after =>
          simp only [huntil] at h
          split at h
          · cases h
            exact cites_omitted (feed_not_mem_of_chars rfl (by decide)) _
          · cases h
      · cases h

theorem cites_readAfterMark {mark : Token} (h : readAfterMark source mark ahead = .error fault) :
    fault.Cites := by
  unfold readAfterMark at h
  split at h
  · cases h
    exact cites_fixed rfl rfl _
  · simp only [bind_eq_error_iff, Prod.exists] at h
    obtain hopen | ⟨_, inside, -, hpath | ⟨_, afterPath, -, hform | ⟨_, atClose, -,
      hclose | ⟨_, _, -, hend⟩⟩⟩⟩ := h
    · exact cites_readWord (feed_not_mem_of_chars rfl (by decide)) hopen
    · exact cites_readPath (feed_not_mem_of_chars rfl (by decide)) hpath
    · exact cites_readForm hform
    · exact cites_readWord (feed_not_mem_of_chars rfl (by decide)) hclose
    · cases hend

theorem cites_readAttributes (h : readAttributes source ahead = .error fault) : fault.Cites := by
  fun_induction readAttributes source ahead with
  | case1 => cases h
  | case2 t rest _ fault' hothers ih =>
    cases h
    exact ih hothers
  | case3 => cases h
  | case4 t rest _ _ fault' hnext =>
    cases h
    exact cites_readAfterMark hnext
  | case5 t rest _ _ attr next _ fault' hothers ih =>
    cases h
    exact ih hothers
  | case6 => cases h
  | case7 => cases h

/-! ## Names and blocks -/

theorem cites_nameFault {t : Token} (h : nameFault? t.toLexeme = some cause) (rest : List Token) :
    SyntaxFault.Cites ⟨cause, t :: rest⟩ := by
  cases refuses_of_nameFault h with
  | notIdent hkind => exact cites_expectedFault (feed_not_mem_of_chars rfl (by decide)) (t :: rest)
  | keyword hkind hword =>
    refine cites_token rfl rfl ?_
    rintro _ ⟨⟩
    exact hword
  | reserved hkind hword hstem => exact cites_fixed rfl rfl _

theorem cites_readName (h : readName source ahead = .error fault) : fault.Cites := by
  unfold readName at h
  split at h
  · next hattributes =>
    cases h
    exact cites_readAttributes hattributes
  · cases h
    exact cites_expectedFault (feed_not_mem_of_chars rfl (by decide)) []
  · split at h
    · next hname =>
      cases h
      exact cites_nameFault hname _
    · cases h

theorem cites_readNames (h : readNames source ahead = .error fault) : fault.Cites := by
  fun_induction readNames source ahead with
  | case1 => cases h
  | case2 ahead _ fault' hname =>
    cases h
    exact cites_readName hname
  | case3 ahead _ name next _ _ fault' hnames ih =>
    cases h
    exact ih hnames
  | case4 => cases h
  | case5 => cases h

theorem cites_readVisibility (h : readVisibility ahead = .error fault) : fault.Cites := by
  unfold readVisibility at h
  split at h
  · cases h
  · split at h
    · cases h
    · split at h
      · cases h
      · next scope rest _ =>
        split at h
        · cases h
        · split at h
          · cases hpath : readPath "a module path" rest with
            | error fault' =>
              rw [hpath] at h
              cases h
              exact cites_readPath (feed_not_mem_of_chars rfl (by decide)) hpath
            | ok result =>
              simp only [hpath] at h
              exact cites_passWord (feed_not_mem_of_chars rfl (by decide)) (map_eq_error_iff.mp h)
          · cases h

theorem cites_readBlock (h : readBlock source ahead = .error fault) : fault.Cites := by
  simp only [readBlock, bind_eq_error_iff, Prod.exists] at h
  obtain hattributes | ⟨_, atVisibility, -, hvisibility | ⟨_, atType, -, htype | ⟨_, atNames, -,
    hopen | ⟨_, inside, -, hnames | ⟨_, atClose, -, hclose | ⟨_, _, -, hend⟩⟩⟩⟩⟩⟩ := h
  · exact cites_readAttributes hattributes
  · exact cites_readVisibility hvisibility
  · exact cites_readType htype
  · exact cites_readWord (feed_not_mem_of_chars rfl (by decide)) hopen
  · exact cites_readNames hnames
  · exact cites_readWord (feed_not_mem_of_chars rfl (by decide)) hclose
  · cases hend

theorem cites_readBlocks (h : readBlocks source ahead = .error fault) : fault.Cites := by
  fun_induction readBlocks source ahead with
  | case1 => cases h
  | case2 t rest fault' hblock =>
    cases h
    exact cites_readBlock hblock
  | case3 t rest block next _ fault' hblocks ih =>
    cases h
    exact ih hblocks
  | case4 => cases h

/-! ## The place of a fault -/

/-- A fault is at one of the tokens that were ahead, or behind them. -/
theorem Blames.suffix (h : Blames K ahead fault) : fault.rest <:+ ahead := by
  cases h with
  | misplaced _ hahead => exact ⟨_, hahead.symm⟩
  | unclosed hahead => exact ⟨_, hahead.symm⟩

theorem suffix_of_readBlocks (hp : ∀ t ∈ lexemes ahead, t.Proper)
    (h : readBlocks source ahead = .error fault) : fault.rest <:+ ahead := by
  have htracks := @tracks_readBlocks _ source hp
  rw [h] at htracks
  exact htracks.suffix

theorem suffix_of_readWholeType (hp : ∀ t ∈ lexemes ahead, t.Proper)
    (h : readWholeType ahead = .error fault) : fault.rest <:+ ahead := by
  have htracks := @tracks_readType [] _ hp
  unfold readWholeType at h
  split at h
  · next hread =>
    cases h
    rw [hread] at htracks
    exact htracks.suffix
  · cases h
  · next hread =>
    cases h
    rw [hread] at htracks
    obtain ⟨run, hrun, -⟩ := htracks
    exact ⟨run, hrun.symm⟩

end Microtypes
