import Microtypes.Proofs.Grammar.Automaton

/-!
# The readers and the automaton

Each reader keeps up with the automaton. When it succeeds, the automaton is left with a stack that
does the same on what is still ahead (`Leads`). When it fails, the automaton rejects the tokens, and
the fault points at most one token before the one that stops the automaton (`Blames`); the
exception are brackets that are never closed, which stop it nowhere.
-/

namespace Microtypes

open Microtypes.Symbol Move

/-- Whether a cause is that a bracket is never closed. -/
def SyntaxCause.isUnclosed : SyntaxCause → Bool
  | .unclosed _ => true
  | _ => false

/-- Going from `ahead` with the stack `K` to `rest` with the stack `L`, nothing changes about which
prefixes of the tokens are passed, and whether they are accepted. -/
def Leads (K : List Symbol) (ahead : List Token) (L : List Symbol) (rest : List Token) : Prop :=
  ∃ taken, ahead = taken ++ rest ∧
    (∀ p, p <+: lexemes rest → ((run K (lexemes taken ++ p)).isSome ↔ (run L p).isSome)) ∧
    (Accepts K (lexemes ahead) ↔ Accepts L (lexemes rest))

/-- The tokens are rejected, and the fault is where it has to be. -/
inductive Blames (K : List Symbol) (ahead : List Token) : SyntaxFault → Prop
  /-- The tokens before the fault are passed, but not those up to the one after it. -/
  | misplaced {cause : SyntaxCause} {taken rest : List Token} (hcause : cause.isUnclosed = false)
      (hahead : ahead = taken ++ rest) (hpassed : (run K (lexemes taken)).isSome)
      (hstopped : ∀ t u others, rest = t :: u :: others →
        run K (lexemes taken ++ [t.toLexeme, u.toLexeme]) = none)
      (hrejects : ¬ Accepts K (lexemes ahead)) : Blames K ahead ⟨cause, rest⟩
  /-- All tokens are passed, and the fault is at an opening bracket. -/
  | unclosed {text : String} {taken others : List Token} {t : Token} {d : Delimiter}
      (hahead : ahead = taken ++ t :: others) (hopens : t.opens? = some d)
      (hpassed : (run K (lexemes ahead)).isSome) (hrejects : ¬ Accepts K (lexemes ahead)) :
      Blames K ahead ⟨.unclosed text, t :: others⟩

/-- What a reader that begins at `ahead` with the stack `K` comes to, where success is to leave the
stack `L`. -/
def Tracks (K : List Symbol) (ahead : List Token) (L : List Symbol) :
    Except SyntaxFault (List Token) → Prop
  | .ok rest => Leads K ahead L rest
  | .error fault => Blames K ahead fault

variable {s : Symbol} {K L M parts : List Symbol} {t : Token} {ahead middle rest : List Token}
  {cause : SyntaxCause} {fault : SyntaxFault} {source : List Char}

/-! ## Following the automaton -/

theorem lexemes_append (xs ys : List Token) : lexemes (xs ++ ys) = lexemes xs ++ lexemes ys :=
  List.map_append ..

theorem Leads.refl : Leads K ahead K ahead :=
  ⟨[], rfl, fun _ _ => Iff.rfl, Iff.rfl⟩

theorem Leads.trans (h : Leads K ahead L middle) (h' : Leads L middle M rest) :
    Leads K ahead M rest := by
  obtain ⟨taken, rfl, hrun, haccepts⟩ := h
  obtain ⟨taken', rfl, hrun', haccepts'⟩ := h'
  refine ⟨taken ++ taken', (List.append_assoc ..).symm, fun p hp => ?_, haccepts.trans haccepts'⟩
  rw [lexemes_append, List.append_assoc]
  refine (hrun _ ?_).trans (hrun' p hp)
  rw [lexemes_append]
  exact (List.prefix_append_right_inj _).mpr hp

theorem Blames.rejects (h : Blames K ahead fault) :
    ¬ Accepts K (lexemes ahead) := by
  cases h with
  | misplaced _ _ _ _ hrejects => exact hrejects
  | unclosed _ _ _ hrejects => exact hrejects

/-- A fault that is found later is a fault of the whole. -/
theorem Leads.blames (h : Leads K ahead L middle) (h' : Blames L middle fault) :
    Blames K ahead fault := by
  obtain ⟨taken, rfl, hrun, haccepts⟩ := h
  cases h' with
  | @misplaced cause taken' rest hcause hahead hpassed hstopped hrejects =>
    subst hahead
    refine .misplaced hcause (List.append_assoc ..).symm ?_ ?_ (haccepts.not.mpr hrejects)
    · rw [lexemes_append]
      refine (hrun _ ?_).mpr hpassed
      rw [lexemes_append]
      exact List.prefix_append ..
    · intro t u others hrest
      have hdead := hstopped t u others hrest
      have halive := hrun (lexemes taken' ++ [t.toLexeme, u.toLexeme]) (by
        rw [lexemes_append, hrest]
        exact (List.prefix_append_right_inj _).mpr (List.prefix_append [_, _] (lexemes others)))
      rw [hdead] at halive
      rw [lexemes_append, List.append_assoc]
      simpa using halive
  | @unclosed text taken' others t d hahead hopens hpassed hrejects =>
    subst hahead
    refine .unclosed (List.append_assoc ..).symm hopens ?_ (haccepts.not.mpr hrejects)
    rw [lexemes_append]
    exact (hrun _ (List.prefix_refl _)).mpr hpassed

theorem Leads.proper (h : Leads K ahead L rest) (hp : ∀ t ∈ lexemes ahead, t.Proper) :
    ∀ t ∈ lexemes rest, t.Proper := by
  obtain ⟨taken, rfl, -, -⟩ := h
  exact fun t ht => hp t (by rw [lexemes_append]; exact List.mem_append_right _ ht)

theorem Leads.tracks {result : Except SyntaxFault (List Token)} (h : Leads K ahead L middle)
    (h' : Tracks L middle M result) : Tracks K ahead M result := by
  cases result with
  | error fault => exact h.blames h'
  | ok rest => exact h.trans h'

theorem Tracks.bind {α β : Type} {read : Reads α} {next : α × List Token → Reads β}
    (h : Tracks K ahead L (read.map Prod.snd))
    (hnext : ∀ a rest, read = .ok (a, rest) → Tracks L rest M ((next (a, rest)).map Prod.snd)) :
    Tracks K ahead M ((read.bind next).map Prod.snd) := by
  cases read with
  | error fault => exact h
  | ok result => exact Leads.tracks h (hnext result.1 result.2 rfl)

/-- Two stacks do the same on what is ahead if they do the same on its first lexeme. -/
theorem leads_of_feed (h : feed K t.toLexeme = feed L t.toLexeme) :
    Leads K (t :: rest) L (t :: rest) := by
  have hrun : ∀ ts, run K (t.toLexeme :: ts) = run L (t.toLexeme :: ts) := fun ts => by
    rw [run_cons, run_cons, h]
  refine ⟨[], rfl, fun p hp => ?_, ?_⟩
  · cases p with
    | nil => exact Iff.rfl
    | cons u us =>
      rw [lexemes_cons, List.cons_prefix_cons] at hp
      rw [hp.1, lexemes_nil, List.nil_append, hrun]
  · rw [Accepts, Accepts, lexemes_cons, hrun]

theorem leads_of_end (h : Accepts K [] ↔ Accepts L []) : Leads K [] L [] := by
  refine ⟨[], rfl, fun p hp => ?_, h⟩
  rw [List.prefix_nil.mp hp]
  exact Iff.rfl

theorem leads_of_passed (h : feed K t.toLexeme = some L) : Leads K (t :: rest) L rest := by
  refine ⟨[t], rfl, fun p _ => ?_, ?_⟩
  · rw [lexemes_cons, lexemes_nil, List.singleton_append, run_cons, h]
    exact Iff.rfl
  · rw [lexemes_cons, accepts_cons, h]
    simp

theorem leads_of_shift (h : s.predict t.toLexeme = shift parts) :
    Leads (s :: K) (t :: rest) (parts ++ K) rest :=
  leads_of_passed (feed_of_shift h)

theorem leads_of_expand (h : s.predict t.toLexeme = expand parts) :
    Leads (s :: K) (t :: rest) (parts ++ K) (t :: rest) :=
  leads_of_feed (feed_of_expand h)

/-- An optional symbol that does not take the next lexeme is left out. -/
theorem leads_of_optional (hs : s.isOptional = true)
    (h : ∀ t rest, ahead = t :: rest → s.predict t.toLexeme = expand []) :
    Leads (s :: K) ahead K ahead := by
  cases ahead with
  | nil =>
    refine leads_of_end ?_
    rw [accepts_nil, accepts_nil, List.forall_mem_cons]
    exact ⟨fun h => h.2, fun h => ⟨hs, h⟩⟩
  | cons t rest => exact leads_of_expand (h t rest rfl)

/-- Two stacks that lead to the same one do the same. -/
theorem leads_of_common (h : Leads K (t :: rest) M rest) (h' : Leads L (t :: rest) M rest) :
    Leads K (t :: rest) L (t :: rest) := by
  obtain ⟨taken, htaken, hrun, haccepts⟩ := h
  obtain ⟨taken', htaken', hrun', haccepts'⟩ := h'
  obtain rfl : [t] = taken := List.append_cancel_right htaken
  obtain rfl : [t] = taken' := List.append_cancel_right htaken'
  refine ⟨[], rfl, fun p hp => ?_, haccepts.trans haccepts'.symm⟩
  cases p with
  | nil => exact Iff.rfl
  | cons u us =>
    rw [lexemes_cons, List.cons_prefix_cons] at hp
    obtain ⟨rfl, hus⟩ := hp
    exact (hrun us hus).trans (hrun' us hus).symm

theorem blames_of_stop (h : s.predict t.toLexeme = stop) (hc : cause.isUnclosed = false) :
    Blames (s :: K) (t :: rest) ⟨cause, t :: rest⟩ := by
  have hrejects : ¬ Accepts (s :: K) (lexemes (t :: rest)) := not_accepts_of_stop h
  refine @Blames.misplaced _ _ _ [] _ hc rfl rfl ?_ hrejects
  rintro t' u others ⟨⟩
  rw [lexemes_nil, List.nil_append, run_cons, feed_of_stop h]
  rfl

theorem blames_of_end (h : s.isOptional = false) (hc : cause.isUnclosed = false) :
    Blames (s :: K) [] ⟨cause, []⟩ := by
  refine @Blames.misplaced _ _ _ [] _ hc rfl rfl (by rintro t u others ⟨⟩) ?_
  rw [lexemes_nil, accepts_nil]
  intro hall
  rw [hall s List.mem_cons_self] at h
  cases h

/-! ## Words and groups -/

theorem tracks_readWord {text what : String} (hs : s.isOptional = false)
    (htaken : ∀ t rest, ahead = t :: rest → t.isWord text = true →
      s.predict t.toLexeme = shift parts)
    (hstop : ∀ t rest, ahead = t :: rest → t.isWord text = false → s.predict t.toLexeme = stop) :
    Tracks (s :: K) ahead (parts ++ K) ((readWord text what ahead).map Prod.snd) := by
  cases ahead with
  | nil => exact blames_of_end hs rfl
  | cons t rest =>
    simp only [readWord]
    split
    · next hw => exact leads_of_shift (htaken t rest rfl hw)
    · next hw => exact blames_of_stop (hstop t rest rfl (by simpa using hw)) rfl

theorem Leads.isSome_run (h : Leads K ahead L rest) :
    (run K (lexemes ahead)).isSome ↔ (run L (lexemes rest)).isSome := by
  obtain ⟨taken, rfl, hrun, -⟩ := h
  rw [lexemes_append]
  exact hrun _ (List.prefix_refl _)

/-- Whether the tokens are passed, but not accepted as they are. -/
def Unfinished (K : List Symbol) (ahead : List Token) : Prop :=
  (run K (lexemes ahead)).isSome ∧ ¬ Accepts K (lexemes ahead)

theorem Leads.unfinished (h : Leads K ahead L rest) (h' : Unfinished L rest) :
    Unfinished K ahead := by
  obtain ⟨hpassed, hrejects⟩ := h'
  obtain ⟨taken, -, -, haccepts⟩ := id h
  exact ⟨h.isSome_run.mpr hpassed, haccepts.not.mpr hrejects⟩

theorem unfinished_nil (hs : s.isOptional = false) : Unfinished (s :: K) [] := by
  refine ⟨rfl, ?_⟩
  rw [lexemes_nil, accepts_nil]
  intro hall
  rw [hall s List.mem_cons_self] at hs
  cases hs

/-- What comes of closing groups: the fault of never closing them, or a fault of its own. -/
theorem tracks_passClosers {unclosed : SyntaxFault} {innermost : Delimiter}
    {outer : List Delimiter} :
    match passClosers unclosed innermost outer ahead with
    | .ok rest => Leads (closing innermost :: (outer.map closing ++ K)) ahead K rest
    | .error fault =>
      (fault = unclosed ∧ Unfinished (closing innermost :: (outer.map closing ++ K)) ahead) ∨
        Blames (closing innermost :: (outer.map closing ++ K)) ahead fault := by
  fun_induction passClosers unclosed innermost outer ahead with
  | case1 => exact .inl ⟨rfl, unfinished_nil rfl⟩
  | case2 innermost outer t tokens opened hopens ih =>
    have hleads : Leads (closing innermost :: (outer.map closing ++ K)) (t :: tokens)
        (closing opened :: ((innermost :: outer).map closing ++ K)) tokens :=
      leads_of_shift (predict_closing_of_opens hopens)
    split at ih
    · exact hleads.trans ih
    · exact ih.imp (fun h => ⟨h.1, hleads.unfinished h.2⟩) hleads.blames
  | case3 t tokens d hcloses hopens =>
    exact leads_of_shift (predict_closing_of_closes hopens hcloses)
  | case4 t tokens d hcloses hopens next others ih =>
    have hleads : Leads (closing d :: ((next :: others).map closing ++ K)) (t :: tokens)
        (closing next :: (others.map closing ++ K)) tokens :=
      leads_of_shift (predict_closing_of_closes hopens hcloses)
    split at ih
    · exact hleads.trans ih
    · exact ih.imp (fun h => ⟨h.1, hleads.unfinished h.2⟩) hleads.blames
  | case5 innermost outer t tokens d hcloses hopens hother =>
    exact .inr (blames_of_stop (predict_closing_of_mismatch hopens hcloses hother) rfl)
  | case6 innermost outer t tokens hcloses hopens ih =>
    have hleads : Leads (closing innermost :: (outer.map closing ++ K)) (t :: tokens)
        (closing innermost :: (outer.map closing ++ K)) tokens :=
      leads_of_shift (predict_closing_of_plain hopens hcloses)
    split at ih
    · exact hleads.trans ih
    · exact ih.imp (fun h => ⟨h.1, hleads.unfinished h.2⟩) hleads.blames

theorem tracks_passGroup {d : Delimiter} (hopens : t.opens? = some d)
    (h : s.predict t.toLexeme = shift (closing d :: parts)) :
    Tracks (s :: K) (t :: rest) (parts ++ K) (passGroup (t :: rest)) := by
  have hleads : Leads (s :: K) (t :: rest) (closing d :: (parts ++ K)) rest := leads_of_shift h
  have hclosers := @tracks_passClosers (parts ++ K) rest ⟨.unclosed t.text, t :: rest⟩ d []
  simp only [passGroup, hopens]
  split at hclosers
  · next after hok =>
    rw [hok]
    exact hleads.trans hclosers
  · next fault herror =>
    rw [herror]
    obtain ⟨rfl, hpassed, hrejects⟩ | hblames := hclosers
    · obtain ⟨hpassed, hrejects⟩ := hleads.unfinished ⟨hpassed, hrejects⟩
      exact @Blames.unclosed _ _ _ [] _ _ _ rfl hopens hpassed hrejects
    · exact hleads.blames hblames

theorem tracks_passUntil :
    Tracks (valueRest :: K) ahead (valueRest :: K) (passUntil "]" ahead) := by
  fun_induction passUntil "]" ahead with
  | case1 => exact blames_of_end rfl rfl
  | case2 => exact Leads.refl
  | case3 t tokens hstop hopens fault hgroup =>
    obtain ⟨d, hd⟩ := Option.isSome_iff_exists.mp hopens
    have hshift := predict_valueRest_of_opens hstop hd
    have htracks := @tracks_passGroup _ K _ t tokens d hd hshift
    rw [hgroup] at htracks
    exact htracks
  | case4 t tokens hstop hopens after hgroup ih =>
    obtain ⟨d, hd⟩ := Option.isSome_iff_exists.mp hopens
    have hshift := predict_valueRest_of_opens hstop hd
    have htracks := @tracks_passGroup _ K _ t tokens d hd hshift
    rw [hgroup] at htracks
    exact Leads.tracks htracks ih
  | case5 t tokens hstop hopens hcloses =>
    obtain ⟨d, hd⟩ := Option.isSome_iff_exists.mp hcloses
    have hopens : t.opens? = none := by simpa using hopens
    exact blames_of_stop (predict_valueRest_of_closes hstop hopens hd) rfl
  | case6 t tokens hstop hopens hcloses ih =>
    have hopens : t.opens? = none := by simpa using hopens
    have hcloses : t.closes? = none := by simpa using hcloses
    have hleads : Leads (valueRest :: K) (t :: tokens) (valueRest :: K) tokens :=
      leads_of_shift (predict_valueRest_of_plain hstop hopens hcloses)
    exact hleads.tracks ih

/-- A value goes up to its square bracket, and there has to be something before it. -/
theorem tracks_value (hc : cause.isUnclosed = false) :
    match passUntil "]" ahead with
    | .error fault => Blames (value :: K) ahead fault
    | .ok after =>
      if after.length = ahead.length then Blames (value :: K) ahead ⟨cause, after⟩
      else Leads (value :: K) ahead (valueRest :: K) after := by
  cases ahead with
  | nil =>
    rw [passUntil]
    exact blames_of_end rfl rfl
  | cons t tokens =>
    by_cases hclose : t.isWord "]" = true
    · rw [passUntil, if_pos hclose]
      simp only [if_true]
      exact blames_of_stop (show predict value t.toLexeme = stop from if_pos hclose) hc
    · have hexpand : predict value t.toLexeme = expand [valueRest] := if_neg hclose
      have hleads : Leads (value :: K) (t :: tokens) (valueRest :: K) (t :: tokens) :=
        leads_of_expand hexpand
      have htracks := @tracks_passUntil K (t :: tokens)
      cases huntil : passUntil "]" (t :: tokens) with
      | error fault =>
        rw [huntil] at htracks
        exact hleads.blames htracks
      | ok after =>
        rw [huntil] at htracks
        simp only
        rw [if_neg]
        · exact hleads.trans htracks
        · -- Where nothing is passed, the square bracket is the first token.
          intro hlength
          obtain ⟨taken, htaken, -, -⟩ := htracks
          have hnil : taken = [] := by
            have := congrArg List.length htaken
            rw [List.length_append] at this
            exact List.length_eq_zero_iff.mp (by omega)
          obtain ⟨-, -, -, hstart⟩ := balanced_of_passUntil huntil
          rw [hnil, List.nil_append] at htaken
          rw [← htaken] at hstart
          exact hclose hstart

/-! ## Types -/

/-- What a step of a goal comes to: the stack of the goals that it opens, or a fault. -/
def Goal.Keeps (g : Goal) (K : List Symbol) (ahead : List Token) :
    Except SyntaxFault (List Goal × List Token) → Prop
  | .ok (parts, rest) => Leads (goal g :: K) ahead (parts.map goal ++ K) rest
  | .error fault => Blames (goal g :: K) ahead fault

variable {g : Goal} {goals : List Goal}

theorem keeps_map_passWord {text what : String} (hg : g.isOptional = false)
    (htaken : ∀ t rest, ahead = t :: rest → t.isWord text = true →
      g.predict t.toLexeme = shift (goals.map goal))
    (hstop : ∀ t rest, ahead = t :: rest → t.isWord text = false →
      g.predict t.toLexeme = stop) :
    g.Keeps K ahead ((passWord text what ahead).map (goals, ·)) := by
  have htracks := @tracks_readWord (goal g) K (goals.map goal) ahead text what hg htaken hstop
  unfold passWord
  cases hread : readWord text what ahead with
  | error fault =>
    rw [hread] at htracks
    exact htracks
  | ok result =>
    rw [hread] at htracks
    exact htracks

theorem leads_borrowed : Leads (borrowed :: K) ahead (goal .type :: K) (dropWord "mut" ahead) := by
  cases ahead with
  | nil => exact leads_of_end (by simp [accepts_nil, isOptional, Goal.isOptional])
  | cons t rest =>
    simp only [dropWord]
    split
    · next hmut =>
      have hshift : predict borrowed t.toLexeme = shift [goal .type] := if_pos hmut
      exact leads_of_shift hshift
    · next hmut =>
      have hexpand : predict borrowed t.toLexeme = expand [goal .type] := if_neg hmut
      exact leads_of_expand hexpand

theorem leads_reference :
    Leads (reference :: K) ahead (borrowed :: K) (Goal.dropLifetime ahead) := by
  cases ahead with
  | nil => exact leads_of_end (by simp [accepts_nil, isOptional])
  | cons t rest =>
    simp only [Goal.dropLifetime]
    split
    · next hk =>
      have hshift : predict reference t.toLexeme = shift [borrowed] := if_pos hk
      exact leads_of_shift hshift
    · next hk =>
      have hexpand : predict reference t.toLexeme = expand [borrowed] := if_neg hk
      exact leads_of_expand hexpand

theorem keeps_type : Goal.Keeps .type K ahead (Goal.step .type ahead) := by
  cases ahead with
  | nil => exact blames_of_end rfl rfl
  | cons t rest =>
    simp only [Goal.step]
    split
    · next hamp =>
      have hpredict : predict (goal .type) t.toLexeme = shift [reference] := if_pos hamp
      exact (leads_of_shift hpredict).trans (leads_reference.trans leads_borrowed)
    · next hamp =>
      split
      · next hround => exact leads_of_shift ((if_neg hamp).trans (if_pos hround))
      · next hround =>
        split
        · next hsquare =>
          exact leads_of_shift ((if_neg hamp).trans ((if_neg hround).trans (if_pos hsquare)))
        · next hsquare =>
          split
          · next hdyn =>
            exact leads_of_shift ((if_neg hamp).trans ((if_neg hround).trans
              ((if_neg hsquare).trans (if_pos hdyn))))
          · next hdyn =>
            exact leads_of_expand ((if_neg hamp).trans ((if_neg hround).trans
              ((if_neg hsquare).trans (if_neg hdyn))))

theorem keeps_path : Goal.Keeps .path K ahead (Goal.step .path ahead) := by
  cases ahead with
  | nil => exact leads_of_end (by simp [accepts_nil, isOptional, Goal.isOptional])
  | cons t rest =>
    simp only [Goal.step, dropWord]
    split
    · next hroot => exact leads_of_shift (if_pos hroot)
    · next hroot => exact leads_of_expand (if_neg hroot)

/-- What follows the identifier of a segment, once it is known. -/
theorem keeps_segment (hp : ∀ t ∈ lexemes ahead, t.Proper) :
    Goal.Keeps .segment K ahead (Goal.step .segment ahead) := by
  cases ahead with
  | nil => exact blames_of_end rfl rfl
  | cons t rest =>
    simp only [Goal.step]
    split
    · next hword => exact blames_of_stop (if_pos hword) rfl
    · next hword =>
      have hshift : predict (goal .segment) t.toLexeme = shift [segmentEnd, goal .pathRest] :=
        if_neg hword
      have hident : Leads (goal .segment :: K) (t :: rest) (segmentEnd :: goal .pathRest :: K)
          rest := leads_of_shift hshift
      split
      · next hangle =>
        obtain ⟨u, others, rfl, hu⟩ := exists_of_startsWith hangle
        refine hident.trans (leads_of_feed ?_)
        have hend : predict segmentEnd u.toLexeme = shift [goal .argument] := if_pos hu
        have harguments : predict (goal .arguments) u.toLexeme = shift [goal .argument] :=
          if_pos hu
        exact (feed_of_shift hend).trans (feed_of_shift harguments).symm
      · next hangle =>
        split
        · next hround =>
          obtain ⟨u, others, rfl, hu⟩ := exists_of_startsWith hround
          have hpunct : u.toLexeme = Lexeme.punct "(" :=
            (hp _ (.tail _ List.mem_cons_self)).eq_punct hu rfl
          have hopens : u.opens? = some .round := by
            rw [hpunct]
            rfl
          have hshift : predict segmentEnd u.toLexeme = shift (closing .round :: [result]) :=
            (if_neg hangle).trans (if_pos hu)
          have htracks := @tracks_passGroup _ (goal .pathRest :: K) _ u others _ hopens hshift
          cases hgroup : passGroup (u :: others) with
          | error fault =>
            rw [hgroup] at htracks
            exact hident.blames htracks
          | ok after =>
            rw [hgroup] at htracks
            have hleads := hident.trans htracks
            simp only
            split
            · next harrow =>
              obtain ⟨v, after, rfl, hv⟩ := exists_of_startsWith harrow
              have hresult : predict result v.toLexeme = shift [goal .type] := if_pos hv
              exact hleads.trans (leads_of_shift hresult)
            · next harrow =>
              refine hleads.trans (leads_of_optional rfl ?_)
              rintro v after rfl
              exact if_neg harrow
        · next hround =>
          refine hident.trans (leads_of_optional rfl ?_)
          rintro v after rfl
          exact (if_neg hangle).trans (if_neg hround)

theorem keeps_pathRest : Goal.Keeps .pathRest K ahead (Goal.step .pathRest ahead) := by
  simp only [Goal.step]
  split
  · next hsep =>
    obtain ⟨t, rest, rfl, ht⟩ := exists_of_startsWith hsep
    exact leads_of_shift (if_pos ht)
  · next hsep =>
    refine leads_of_optional rfl ?_
    rintro t rest rfl
    exact if_neg hsep

theorem keeps_boundRest : Goal.Keeps .boundRest K ahead (Goal.step .boundRest ahead) := by
  simp only [Goal.step]
  split
  · next hsep =>
    obtain ⟨t, rest, rfl, ht⟩ := exists_of_startsWith hsep
    exact leads_of_shift (if_pos ht)
  · next hsep =>
    refine leads_of_optional rfl ?_
    rintro t rest rfl
    exact if_neg hsep

theorem keeps_tupleElement : Goal.Keeps .tupleElement K ahead (Goal.step .tupleElement ahead) := by
  simp only [Goal.step]
  split
  · next hclose =>
    obtain ⟨t, rest, rfl, ht⟩ := exists_of_startsWith hclose
    exact leads_of_shift (if_pos ht)
  · next hclose =>
    cases ahead with
    | nil => exact leads_of_end (by simp [accepts_nil, isOptional, Goal.isOptional])
    | cons t rest => exact leads_of_expand (if_neg hclose)

theorem keeps_tupleRest : Goal.Keeps .tupleRest K ahead (Goal.step .tupleRest ahead) := by
  simp only [Goal.step]
  split
  · next hcomma =>
    obtain ⟨t, rest, rfl, ht⟩ := exists_of_startsWith hcomma
    exact leads_of_shift (if_pos ht)
  · next hcomma =>
    refine keeps_map_passWord rfl ?_ ?_
    · rintro t rest rfl hclose
      exact (if_neg hcomma).trans (if_pos hclose)
    · rintro t rest rfl hclose
      exact (if_neg hcomma).trans (if_neg (by simp [hclose]))

theorem keeps_argumentRest : Goal.Keeps .argumentRest K ahead (Goal.step .argumentRest ahead) := by
  simp only [Goal.step]
  split
  · next hcomma =>
    obtain ⟨t, rest, rfl, ht⟩ := exists_of_startsWith hcomma
    exact leads_of_shift (if_pos ht)
  · next hcomma =>
    refine keeps_map_passWord rfl ?_ ?_
    · rintro t rest rfl hclose
      exact (if_neg hcomma).trans (if_pos hclose)
    · rintro t rest rfl hclose
      exact (if_neg hcomma).trans (if_neg (by simp [hclose]))

theorem keeps_arguments : Goal.Keeps .arguments K ahead (Goal.step .arguments ahead) := by
  refine keeps_map_passWord rfl ?_ ?_
  · rintro t rest rfl hopen
    exact if_pos hopen
  · rintro t rest rfl hopen
    exact if_neg (by simp [hopen])

theorem keeps_arrayRest : Goal.Keeps .arrayRest K ahead (Goal.step .arrayRest ahead) := by
  simp only [Goal.step]
  split
  · next hsemi =>
    obtain ⟨t, rest, rfl, ht⟩ := exists_of_startsWith hsemi
    have hshift : predict (goal .arrayRest) t.toLexeme = shift [value] := if_pos ht
    have hleads : Leads (goal .arrayRest :: K) (t :: rest) (value :: K) rest :=
      leads_of_shift hshift
    rw [List.tail_cons]
    have htracks := @tracks_value K rest (.omitted "an array length") rfl
    cases huntil : passUntil "]" rest with
    | error fault =>
      rw [huntil] at htracks
      exact hleads.blames htracks
    | ok after =>
      rw [huntil] at htracks
      simp only at htracks ⊢
      split at htracks
      · next hlength =>
        rw [if_pos hlength]
        exact hleads.blames htracks
      · next hlength =>
        rw [if_neg hlength]
        obtain ⟨-, -, -, hclose⟩ := balanced_of_passUntil huntil
        obtain ⟨u, others, rfl, hu⟩ := exists_of_startsWith hclose
        have hend : predict valueRest u.toLexeme = shift [] := if_pos hu
        exact (hleads.trans htracks).trans (leads_of_shift hend)
  · next hsemi =>
    refine keeps_map_passWord rfl ?_ ?_
    · rintro t rest rfl hclose
      exact (if_neg hsemi).trans (if_pos hclose)
    · rintro t rest rfl hclose
      exact (if_neg hsemi).trans (if_neg (by simp [hclose]))

theorem keeps_bound : Goal.Keeps .bound K ahead (Goal.step .bound ahead) := by
  cases ahead with
  | nil => exact leads_of_end (by simp [accepts_nil, isOptional, Goal.isOptional])
  | cons t rest =>
    simp only [Goal.step]
    split
    · next hk => exact leads_of_shift (if_pos hk)
    · next hk => exact leads_of_expand (if_neg hk)

/-- Whether an argument is read as a type although its first word begins none. The automaton goes
past that word, since an equals sign might follow. -/
def Strays (g : Goal) (ahead : List Token) : Prop :=
  g = .argument ∧ ∃ t rest, ahead = t :: rest ∧ t.kind = .ident ∧
    t.text ∈ Goal.unpathedWords ∧ startsWith rest "=" = false

/-- An identifier that begins a generic argument begins a type unless an equals sign follows. -/
theorem leads_argument (hk : t.kind = .ident) (ht : t.toLexeme.Proper)
    (hword : t.text ∉ Goal.unpathedWords) (hequals : startsWith rest "=" = false)
    (hshift : predict (goal .argument) t.toLexeme = shift [argumentWord t.text]) :
    Leads (goal .argument :: K) (t :: rest) (goal .type :: goal .argumentRest :: K)
      (t :: rest) := by
  have hargument : Leads (goal .argument :: K) (t :: rest) (argumentWord t.text :: K) rest :=
    leads_of_shift hshift
  have htype : Leads (goal .type :: goal .argumentRest :: K) (t :: rest)
      (wordParts t.text ++ goal .argumentRest :: K) rest :=
    leads_of_passed (feed_type_ident hk ht hword)
  refine leads_of_common (hargument.trans ?_) htype
  cases rest with
  | nil =>
    refine leads_of_end ?_
    rw [accepts_nil, accepts_nil]
    constructor
    · exact fun hall => absurd (hall _ List.mem_cons_self) (by simp [isOptional])
    · exact fun hall => absurd (hall (goal .argumentRest) (by simp)) (by decide)
  | cons u others =>
    have hu : ¬ u.isWord "=" = true := by simpa [startsWith] using hequals
    have hexpand : predict (argumentWord t.text) u.toLexeme =
        expand (wordParts t.text ++ [goal .argumentRest]) := (if_neg hu).trans (if_neg hword)
    refine (leads_of_expand hexpand).trans ?_
    rw [List.append_assoc]
    exact Leads.refl

theorem keeps_argument (hp : ∀ t ∈ lexemes ahead, t.Proper) (hstray : ¬ Strays .argument ahead) :
    Goal.Keeps .argument K ahead (Goal.step .argument ahead) := by
  cases ahead with
  | nil => exact blames_of_end rfl rfl
  | cons t rest =>
    simp only [Goal.step]
    split
    · next hclose => exact leads_of_shift (if_pos hclose)
    · next hclose =>
      split
      · next hplain => exact leads_of_shift ((if_neg hclose).trans (if_pos hplain))
      · next hplain =>
        split
        · next hcurly =>
          have hopens : t.opens? = some .curly := by
            rw [eq_punct_of_isPunct hcurly]
            rfl
          have hshift : predict (goal .argument) t.toLexeme =
              shift (closing .curly :: [goal .argumentRest]) :=
            (if_neg hclose).trans ((if_neg hplain).trans (if_pos hcurly))
          have htracks := @tracks_passGroup _ K _ t rest _ hopens hshift
          cases hgroup : passGroup (t :: rest) with
          | error fault =>
            rw [hgroup] at htracks
            exact htracks
          | ok after =>
            rw [hgroup] at htracks
            exact htracks
        · next hcurly =>
          by_cases hk : t.kind = .ident
          · have hshift : predict (goal .argument) t.toLexeme = shift [argumentWord t.text] :=
              (if_neg hclose).trans ((if_neg hplain).trans ((if_neg hcurly).trans (if_pos hk)))
            by_cases hequals : startsWith rest "=" = true
            · rw [if_pos ⟨hk, hequals⟩]
              obtain ⟨u, others, rfl, hu⟩ := exists_of_startsWith hequals
              have hbinding : predict (argumentWord t.text) u.toLexeme =
                  shift [goal .type, goal .argumentRest] := if_pos hu
              exact (leads_of_shift hshift).trans (leads_of_shift hbinding)
            · rw [if_neg fun h => hequals h.2]
              have hword : t.text ∉ Goal.unpathedWords := fun h =>
                hstray ⟨rfl, t, rest, rfl, hk, h, by simpa using hequals⟩
              exact leads_argument hk (hp _ List.mem_cons_self) hword (by simpa using hequals)
                hshift
          · rw [if_neg fun h => hk h.1]
            exact leads_of_expand ((if_neg hclose).trans ((if_neg hplain).trans
              ((if_neg hcurly).trans (if_neg hk))))

theorem keeps_step (hp : ∀ t ∈ lexemes ahead, t.Proper) (hstray : ¬ Strays g ahead) :
    g.Keeps K ahead (g.step ahead) := by
  cases g with
  | type => exact keeps_type
  | path => exact keeps_path
  | segment => exact keeps_segment hp
  | pathRest => exact keeps_pathRest
  | tupleElement => exact keeps_tupleElement
  | tupleRest => exact keeps_tupleRest
  | arrayRest => exact keeps_arrayRest
  | bound => exact keeps_bound
  | boundRest => exact keeps_boundRest
  | arguments => exact keeps_arguments
  | argument => exact keeps_argument hp hstray
  | argumentRest => exact keeps_argumentRest

theorem pass_cons {later : List Goal} : Goal.pass (g :: later) ahead =
    match g.step ahead with
    | .error fault => .error fault
    | .ok (parts, rest) => Goal.pass (parts ++ later) rest := by
  rw [Goal.pass]
  split <;> simp_all

theorem pass_of_step {parts later : List Goal} {result : Except SyntaxFault (List Token)}
    (hstep : g.step ahead = .ok (parts, rest)) (h : Goal.pass (parts ++ later) rest = result) :
    Goal.pass (g :: later) ahead = result := by
  rw [pass_cons, hstep]
  exact h

theorem pass_nil : Goal.pass [] ahead = .ok ahead := by
  rw [Goal.pass.eq_def]

/-- Where an argument strays, the type that it is read as fails at once, and the automaton stops at
the next token. -/
theorem tracks_of_strays {later : List Goal} (hstray : Strays g ahead) :
    Tracks (goal g :: K) ahead L (Goal.pass (g :: later) ahead) := by
  obtain ⟨rfl, t, rest, rfl, hk, hword, hequals⟩ := hstray
  have hclose : ¬ t.isWord ">" = true := not_isWord_of_mem hword (by decide)
  have hroot : ¬ t.isWord "::" = true := not_isWord_of_mem hword (by decide)
  have hplain : ¬ (t.kind = .lifetime ∨ t.kind = .literal) := by simp [hk]
  have hpunct : ∀ text : String, ¬ t.isPunct text = true := by
    intro text hp
    simp [Lexeme.isPunct, hk] at hp
  have hdyn : ¬ t.isIdent "dyn" = true := by
    intro h
    simp only [Lexeme.isIdent, Bool.and_eq_true, beq_iff_eq] at h
    rw [h.2] at hword
    exact absurd hword (by decide)
  have hbinding : ¬ (t.kind = .ident ∧ startsWith rest "=" = true) := by simp [hequals]
  have hargument : Goal.step .argument (t :: rest) = .ok ([.type, .argumentRest], t :: rest) :=
    (if_neg hclose).trans ((if_neg hplain).trans ((if_neg (hpunct _)).trans (if_neg hbinding)))
  have htype : Goal.step .type (t :: rest) = .ok ([.path], t :: rest) :=
    (if_neg (hpunct _)).trans ((if_neg (hpunct _)).trans ((if_neg (hpunct _)).trans (if_neg hdyn)))
  have hpath : Goal.step .path (t :: rest) = .ok ([.segment], t :: rest) := by
    simp only [Goal.step, dropWord]
    rw [if_neg]
    exact hroot
  have hsegment : Goal.step .segment (t :: rest) =
      .error (expectedFault "a type" (t :: rest)) := if_pos (.inr hword)
  have hpass : Goal.pass (.argument :: later) (t :: rest) =
      .error (expectedFault "a type" (t :: rest)) := by
    simp only [pass_cons, hargument, List.cons_append, List.nil_append, htype, hpath, hsegment]
  rw [hpass]
  have hshift : predict (goal .argument) t.toLexeme = shift [argumentWord t.text] :=
    (if_neg hclose).trans ((if_neg hplain).trans ((if_neg (hpunct _)).trans (if_pos hk)))
  have hstop : ∀ u others, rest = u :: others →
      predict (argumentWord t.text) u.toLexeme = stop := by
    rintro u others rfl
    have hu : ¬ u.isWord "=" = true := by simpa [startsWith] using hequals
    exact (if_neg hu).trans (if_pos hword)
  refine @Blames.misplaced _ _ _ [] _ rfl rfl rfl ?_ ?_
  · rintro t' u others ⟨⟩
    rw [lexemes_nil, List.nil_append, run_cons, feed_of_shift hshift]
    exact (run_cons ..).trans (by rw [List.cons_append, feed_of_stop (hstop u others rfl)]; rfl)
  · rw [lexemes_cons, accepts_of_shift hshift]
    cases rest with
    | nil =>
      rw [lexemes_nil, accepts_nil]
      intro hall
      exact absurd (hall _ List.mem_cons_self) (by simp [isOptional])
    | cons u others => exact not_accepts_of_stop (hstop u others rfl)

/-- Goals keep up with the automaton, all of them. -/
theorem tracks_pass (hp : ∀ t ∈ lexemes ahead, t.Proper) :
    Tracks (goals.map goal ++ K) ahead K (Goal.pass goals ahead) := by
  fun_induction Goal.pass goals ahead with
  | case1 => exact Leads.refl
  | case2 ahead g later fault hstep =>
    by_cases hstray : Strays g ahead
    · have htracks := @tracks_of_strays (later.map goal ++ K) K ahead g later hstray
      rw [pass_cons, hstep] at htracks
      exact htracks
    · have hkeeps := @keeps_step (later.map goal ++ K) ahead g hp hstray
      rw [hstep] at hkeeps
      exact hkeeps
  | case3 ahead g later parts rest hstep ih =>
    by_cases hstray : Strays g ahead
    · have htracks := @tracks_of_strays (later.map goal ++ K) K ahead g later hstray
      rw [pass_cons, hstep] at htracks
      exact htracks
    · have hkeeps := @keeps_step (later.map goal ++ K) ahead g hp hstray
      rw [hstep] at hkeeps
      have htracks := ih (Leads.proper hkeeps hp)
      rw [List.map_append, List.append_assoc] at htracks
      exact Leads.tracks hkeeps htracks

theorem tracks_readType (hp : ∀ t ∈ lexemes ahead, t.Proper) :
    Tracks (goal .type :: K) ahead K ((readType ahead).map Prod.snd) := by
  cases ahead with
  | nil => exact blames_of_end rfl rfl
  | cons t rest =>
    have htracks := @tracks_pass K _ [.type] hp
    simp only [readType]
    cases hpass : Goal.pass [.type] (t :: rest) with
    | error fault =>
      rw [hpass] at htracks
      exact htracks
    | ok after =>
      rw [hpass] at htracks
      exact htracks

end Microtypes
