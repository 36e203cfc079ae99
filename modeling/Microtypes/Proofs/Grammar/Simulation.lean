import Microtypes.Proofs.Grammar.TypeSimulation

/-!
# The readers of blocks and the automaton

The readers above the types keep up with the automaton as well, and so `readBlocks` succeeds exactly
on what the automaton accepts.
-/

namespace Microtypes

open Microtypes.Symbol Move

variable {K : List Symbol} {ahead rest : List Token} {source : List Char}

/-! ## Paths -/

theorem tracks_readSegments {what : String} :
    Tracks (word :: K) ahead K ((readSegments what ahead).map Prod.snd) := by
  have hword : ∀ (t : Token) (rest : List Token), t.kind = .ident →
      Leads (word :: K) (t :: rest) (wordRest :: K) rest := by
    intro t rest hk
    have hshift : predict word t.toLexeme = shift [wordRest] := if_pos hk
    exact leads_of_shift hshift
  have hseparator : ∀ (t : Token) (rest : List Token), t.isWord "::" = true →
      Leads (wordRest :: K) (t :: rest) (word :: K) rest := by
    intro t rest hw
    have hshift : predict wordRest t.toLexeme = shift [word] := if_pos hw
    exact leads_of_shift hshift
  fun_induction readSegments what ahead with
  | case1 => exact blames_of_end rfl rfl
  | case2 t rest hk => exact blames_of_stop (if_neg hk) rfl
  | case3 t hk =>
    refine (hword t [] (by simpa using hk)).trans (leads_of_optional rfl ?_)
    rintro u others ⟨⟩
  | case4 t hk separator more hsep fault hmore ih =>
    rw [hmore] at ih
    exact ((hword t _ (by simpa using hk)).trans (hseparator separator more hsep)).blames ih
  | case5 t hk separator more hsep path after hmore ih =>
    rw [hmore] at ih
    exact ((hword t _ (by simpa using hk)).trans (hseparator separator more hsep)).trans ih
  | case6 t hk separator more hsep =>
    refine (hword t _ (by simpa using hk)).trans (leads_of_optional rfl ?_)
    rintro u others ⟨⟩
    exact if_neg hsep

theorem tracks_readPath {what : String} :
    Tracks (words :: K) ahead K ((readPath what ahead).map Prod.snd) := by
  unfold readPath
  split
  · next hroot =>
    obtain ⟨t, rest, rfl, ht⟩ := exists_of_startsWith hroot
    have hshift : predict words t.toLexeme = shift [word] := if_pos ht
    have htracks := Leads.tracks (leads_of_shift hshift) (@tracks_readSegments K rest what)
    rw [List.tail_cons]
    cases hsegments : readSegments what rest with
    | error fault =>
      rw [hsegments] at htracks
      exact htracks
    | ok result =>
      rw [hsegments] at htracks
      exact htracks
  · next hroot =>
    refine Leads.tracks ?_ tracks_readSegments
    cases ahead with
    | nil => exact leads_of_end (by simp [accepts_nil, isOptional])
    | cons t rest =>
      have hexpand : predict words t.toLexeme = expand [word] := if_neg hroot
      exact leads_of_expand hexpand

/-! ## Attributes -/

theorem tracks_readForm :
    Tracks (form :: K) ahead (closer .square :: K) ((readForm ahead).map Prod.snd) := by
  cases ahead with
  | nil => exact leads_of_end (by simp [accepts_nil, isOptional])
  | cons t rest =>
    simp only [readForm]
    split
    · next d hopens =>
      have hshift : predict form t.toLexeme = shift (closing d :: [closer .square]) := by
        simp only [predict, hopens]
      have htracks := @tracks_passGroup _ K _ t rest _ hopens hshift
      cases hgroup : passGroup (t :: rest) with
      | error fault =>
        rw [hgroup] at htracks
        exact htracks
      | ok after =>
        rw [hgroup] at htracks
        exact htracks
    · next hopens =>
      split
      · next hequals =>
        have hshift : predict form t.toLexeme = shift [value] := by
          simp only [predict, hopens, if_pos hequals]
        have hleads : Leads (form :: K) (t :: rest) (value :: K) rest := leads_of_shift hshift
        have htracks := @tracks_value K rest (.omitted "a value after `=`") rfl
        cases huntil : passUntil "]" rest with
        | error fault =>
          rw [huntil] at htracks
          exact hleads.blames htracks
        | ok after =>
          rw [huntil] at htracks
          simp only at htracks ⊢
          split at htracks
          · next hlength =>
            rw [if_pos hlength]
            exact hleads.blames htracks
          · next hlength =>
            rw [if_neg hlength]
            refine (hleads.trans htracks).trans ?_
            obtain ⟨-, -, -, hclose⟩ := balanced_of_passUntil huntil
            obtain ⟨u, others, rfl, hu⟩ := exists_of_startsWith hclose
            have hend : predict valueRest u.toLexeme = shift [] := if_pos hu
            have hcloser : predict (closer .square) u.toLexeme = shift [] := if_pos hu
            exact leads_of_feed ((feed_of_shift hend).trans (feed_of_shift hcloser).symm)
      · next hequals =>
        have hexpand : predict form t.toLexeme = expand [closer .square] := by
          simp only [predict, hopens, if_neg hequals]
        exact leads_of_expand hexpand

theorem tracks_closer {d : Delimiter} {what : String} :
    Tracks (closer d :: K) ahead K ((readWord d.closer what ahead).map Prod.snd) := by
  refine @tracks_readWord (closer d) K [] _ _ _ rfl ?_ ?_
  · intro t rest _ hw
    exact if_pos hw
  · intro t rest _ hw
    exact if_neg (by simp [hw])

theorem tracks_readAfterMark {mark : Token} :
    Tracks (attributeBody :: K) ahead K ((readAfterMark source mark ahead).map Prod.snd) := by
  unfold readAfterMark
  split
  · next hinner =>
    obtain ⟨t, rest, rfl, ht⟩ := exists_of_startsWith hinner
    have hword : ¬ t.isWord "[" = true := by
      intro hw
      simp only [Lexeme.isWord, Bool.and_eq_true, beq_iff_eq] at ht hw
      rw [ht.2] at hw
      exact absurd hw.2 (by decide)
    exact blames_of_stop (if_neg hword) rfl
  · have hopen : Tracks (attributeBody :: K) ahead (words :: form :: K)
        ((readWord "[" "`[` after `#`" ahead).map Prod.snd) := by
      refine @tracks_readWord _ K [words, form] _ _ _ rfl ?_ ?_
      · intro t rest _ hw
        exact if_pos hw
      · intro t rest _ hw
        exact if_neg (by simp [hw])
    refine Tracks.bind hopen fun _ inside _ => ?_
    refine Tracks.bind tracks_readPath fun path afterPath _ => ?_
    refine Tracks.bind tracks_readForm fun form atClose _ => ?_
    exact Tracks.bind tracks_closer fun close after _ => Leads.refl

theorem readAttributes_of_other {t : Token} (hdoc : t.kind ≠ .doc)
    (hmark : t.isPunct "#" = false) : readAttributes source (t :: rest) = .ok ([], t :: rest) := by
  rw [readAttributes]
  simp [hdoc, hmark]

theorem tracks_readAttributes :
    Tracks (attributes :: K) ahead K ((readAttributes source ahead).map Prod.snd) := by
  fun_induction readAttributes source ahead with
  | case1 => exact leads_of_optional rfl (by rintro t rest ⟨⟩)
  | case2 t rest hdoc fault hothers ih =>
    have hshift : predict attributes t.toLexeme = shift [attributes] := if_pos hdoc
    rw [hothers] at ih
    exact Leads.blames (leads_of_shift hshift) ih
  | case3 t rest hdoc others after hothers ih =>
    have hshift : predict attributes t.toLexeme = shift [attributes] := if_pos hdoc
    rw [hothers] at ih
    exact Leads.trans (leads_of_shift hshift) ih
  | case4 t rest hdoc hmark fault hnext =>
    have hshift : predict attributes t.toLexeme = shift [attributeBody, attributes] :=
      (if_neg hdoc).trans (if_pos hmark)
    have htracks := @tracks_readAfterMark (attributes :: K) rest source t
    rw [hnext] at htracks
    exact Leads.blames (leads_of_shift hshift) htracks
  | case5 t rest hdoc hmark attr next hnext fault hothers ih =>
    have hshift : predict attributes t.toLexeme = shift [attributeBody, attributes] :=
      (if_neg hdoc).trans (if_pos hmark)
    have htracks := @tracks_readAfterMark (attributes :: K) rest source t
    rw [hnext] at htracks
    rw [hothers] at ih
    exact (Leads.trans (leads_of_shift hshift) htracks).blames ih
  | case6 t rest hdoc hmark attr next hnext others after hothers ih =>
    have hshift : predict attributes t.toLexeme = shift [attributeBody, attributes] :=
      (if_neg hdoc).trans (if_pos hmark)
    have htracks := @tracks_readAfterMark (attributes :: K) rest source t
    rw [hnext] at htracks
    rw [hothers] at ih
    exact (Leads.trans (leads_of_shift hshift) htracks).trans ih
  | case7 t rest hdoc hmark =>
    refine leads_of_optional rfl ?_
    rintro u others ⟨⟩
    exact (if_neg hdoc).trans (if_neg hmark)

/-! ## Names -/

theorem tracks_readName :
    Tracks (name :: K) ahead K ((readName source ahead).map Prod.snd) := by
  have hleads : Leads (name :: K) ahead (attributes :: nameWord :: K) ahead := by
    cases ahead with
    | nil => exact leads_of_end (by simp [accepts_nil, isOptional])
    | cons t rest =>
      have hexpand : predict name t.toLexeme = expand [attributes, nameWord] := rfl
      exact leads_of_expand hexpand
  have htracks := hleads.tracks (@tracks_readAttributes (nameWord :: K) ahead source)
  unfold readName
  cases hattributes : readAttributes source ahead with
  | error fault =>
    rw [hattributes] at htracks
    exact htracks
  | ok result =>
    obtain ⟨attributes, atName⟩ := result
    rw [hattributes] at htracks
    refine Leads.tracks htracks ?_
    cases atName with
    | nil => exact blames_of_end rfl rfl
    | cons t rest =>
      simp only
      cases hfault : nameFault? t.toLexeme with
      | none =>
        have hshift : predict nameWord t.toLexeme = shift [] := if_pos hfault
        exact leads_of_shift hshift
      | some cause =>
        have hcause : cause.isUnclosed = false := by
          cases refuses_of_nameFault hfault <;> rfl
        exact blames_of_stop (if_neg (by simp [hfault])) hcause

/-- Names keep up with the automaton as far as the bracket that closes them. -/
theorem tracks_readNames :
    Tracks (names :: K) ahead (closer .curly :: K) ((readNames source ahead).map Prod.snd) := by
  have hname : ∀ ahead : List Token, ¬ startsWith ahead Delimiter.curly.closer = true →
      Leads (names :: K) ahead (name :: nameRest :: K) ahead := by
    intro ahead hclose
    cases ahead with
    | nil => exact leads_of_end (by simp [accepts_nil, isOptional])
    | cons t rest =>
      have hexpand : predict names t.toLexeme = expand [name, nameRest] := if_neg hclose
      exact leads_of_expand hexpand
  fun_induction readNames source ahead with
  | case1 ahead hclose =>
    obtain ⟨t, rest, rfl, ht⟩ := exists_of_startsWith hclose
    have hnames : predict names t.toLexeme = shift [] := if_pos ht
    have hcloser : predict (closer .curly) t.toLexeme = shift [] := if_pos ht
    exact leads_of_feed ((feed_of_shift hnames).trans (feed_of_shift hcloser).symm)
  | case2 ahead hclose fault hread =>
    have htracks := (hname ahead hclose).tracks (@tracks_readName (nameRest :: K) ahead source)
    rw [hread] at htracks
    exact htracks
  | case3 ahead hclose decl next hread hcomma fault hnames ih =>
    have htracks := (hname ahead hclose).tracks (@tracks_readName (nameRest :: K) ahead source)
    rw [hread] at htracks
    rw [hnames] at ih
    obtain ⟨t, rest, rfl, ht⟩ := exists_of_startsWith hcomma
    have hshift : predict nameRest t.toLexeme = shift [names] := if_pos ht
    exact Leads.blames (Leads.trans htracks (leads_of_shift hshift)) ih
  | case4 ahead hclose decl next hread hcomma decls after hnames ih =>
    have htracks := (hname ahead hclose).tracks (@tracks_readName (nameRest :: K) ahead source)
    rw [hread] at htracks
    rw [hnames] at ih
    obtain ⟨t, rest, rfl, ht⟩ := exists_of_startsWith hcomma
    have hshift : predict nameRest t.toLexeme = shift [names] := if_pos ht
    exact Leads.trans (Leads.trans htracks (leads_of_shift hshift)) ih
  | case5 ahead hclose decl next hread hcomma =>
    have htracks := (hname ahead hclose).tracks (@tracks_readName (nameRest :: K) ahead source)
    rw [hread] at htracks
    refine Leads.trans htracks ?_
    cases next with
    | nil => exact leads_of_end (by simp [accepts_nil, isOptional])
    | cons t rest =>
      refine leads_of_feed ?_
      have hrest : predict nameRest t.toLexeme = predict (closer .curly) t.toLexeme :=
        if_neg hcomma
      by_cases hw : t.isWord Delimiter.curly.closer = true
      · have hcloser : predict (closer .curly) t.toLexeme = shift [] := if_pos hw
        rw [feed_of_shift hcloser, feed_of_shift (hrest.trans hcloser)]
      · have hcloser : predict (closer .curly) t.toLexeme = stop := if_neg hw
        rw [feed_of_stop hcloser, feed_of_stop (hrest.trans hcloser)]

/-! ## Visibilities -/

theorem predict_goal_type_round {u : Lexeme} (hu : u = Lexeme.punct "(") :
    predict (goal .type) u = shift [goal .tupleElement] := by
  rw [hu]
  rfl

/-- A scope after `pub` and a round bracket begins an element of a tuple where it restricts
nothing. -/
theorem leads_restrictionScope (hp : ∀ t ∈ lexemes ahead, t.Proper)
    (hscope : ∀ t rest, ahead = t :: rest →
      ¬ (t.kind = .ident ∧ t.text ∈ visibilityScopes ∧ startsWith rest ")" = true))
    (hin : ∀ t rest, ahead = t :: rest → ¬ t.isWord "in" = true) :
    Leads (restrictionScope :: K) ahead (goal .tupleElement :: K) ahead := by
  cases ahead with
  | nil => exact leads_of_end (by simp [accepts_nil, isOptional, Goal.isOptional])
  | cons t rest =>
    by_cases hword : t.kind = .ident ∧ t.text ∈ visibilityScopes
    · obtain ⟨hk, hmem⟩ := hword
      have hshift : predict restrictionScope t.toLexeme = shift [scopeEnd] := if_pos ⟨hk, hmem⟩
      have hscopeEnd : Leads (scopeEnd :: K) rest
          (segmentEnd :: goal .pathRest :: goal .tupleRest :: K) rest := by
        cases rest with
        | nil => exact leads_of_end (by simp [accepts_nil, isOptional, Goal.isOptional])
        | cons u others =>
          have hclose : ¬ u.isWord ")" = true := fun h => hscope t _ rfl ⟨hk, hmem, h⟩
          have hexpand : predict scopeEnd u.toLexeme =
              expand [segmentEnd, goal .pathRest, goal .tupleRest] := if_neg hclose
          exact leads_of_expand hexpand
      have htuple : predict (goal .tupleElement) t.toLexeme =
          expand [goal .type, goal .tupleRest] := if_neg (not_isWord_of_mem hmem (by decide))
      have hpathed : t.text ∉ Goal.unpathedWords := by
        have hdisjoint : ∀ text ∈ visibilityScopes, text ∉ Goal.unpathedWords := by decide
        exact hdisjoint _ hmem
      have hparts : wordParts t.text = [segmentEnd, goal .pathRest] := by
        have hscopes : ∀ text ∈ visibilityScopes,
            wordParts text = [segmentEnd, goal .pathRest] := by decide
        exact hscopes _ hmem
      have htype := @feed_type_ident (goal .tupleRest :: K) _ hk (hp _ List.mem_cons_self) hpathed
      rw [hparts] at htype
      refine leads_of_common ((leads_of_shift hshift).trans hscopeEnd) ?_
      exact (leads_of_expand htuple).trans (leads_of_passed htype)
    · have hexpand : predict restrictionScope t.toLexeme = expand [goal .tupleElement] :=
        (if_neg hword).trans (if_neg (hin t rest rfl))
      exact leads_of_expand hexpand

/-- The module that a visibility is restricted to, and the bracket behind it. -/
theorem tracks_moduleScope : Tracks (words :: closer .round :: goal .type :: K) ahead
    (goal .type :: K)
    (Except.map Prod.snd
      (match readPath "a module path" ahead with
      | .error fault => .error fault
      | .ok (path, atClose) =>
        (passWord ")" "`)` to close the visibility restriction" atClose).map
          (s!"pub(in {path})", ·))) := by
  have htracks := @tracks_readPath (closer .round :: goal .type :: K) ahead "a module path"
  cases hpath : readPath "a module path" ahead with
  | error fault =>
    rw [hpath] at htracks
    exact htracks
  | ok result =>
    rw [hpath] at htracks
    have hclosing := Leads.tracks htracks (@tracks_closer (goal .type :: K) result.2
      .round "`)` to close the visibility restriction")
    simp only [passWord]
    cases hread : readWord ")" "`)` to close the visibility restriction" result.2 with
    | error fault =>
      have hread' : readWord Delimiter.round.closer _ result.2 = _ := hread
      rw [hread'] at hclosing
      exact hclosing
    | ok after =>
      have hread' : readWord Delimiter.round.closer _ result.2 = _ := hread
      rw [hread'] at hclosing
      exact hclosing

theorem tracks_readVisibility (hp : ∀ t ∈ lexemes ahead, t.Proper) :
    Tracks (declaredType :: K) ahead (goal .type :: K) ((readVisibility ahead).map Prod.snd) := by
  unfold readVisibility
  split
  · next hpub =>
    cases ahead with
    | nil => exact leads_of_end (by simp [accepts_nil, isOptional, Goal.isOptional])
    | cons t rest =>
      have hword : ¬ t.isWord "pub" = true := by simpa [startsWith] using hpub
      have hexpand : predict declaredType t.toLexeme = expand [goal .type] := if_neg hword
      exact leads_of_expand hexpand
  · next hpub =>
    obtain ⟨t, after, rfl, hword⟩ := exists_of_startsWith (by simpa using hpub)
    have hshift : predict declaredType t.toLexeme = shift [restriction] := if_pos hword
    have hrestriction : Leads (declaredType :: K) (t :: after) (restriction :: K) after :=
      leads_of_shift hshift
    rw [List.tail_cons]
    split
    · next hround =>
      refine hrestriction.trans ?_
      cases after with
      | nil => exact leads_of_end (by simp [accepts_nil, isOptional, Goal.isOptional])
      | cons u rest =>
        have hu : ¬ u.isWord "(" = true := by simpa [startsWith] using hround
        have hexpand : predict restriction u.toLexeme = expand [goal .type] := if_neg hu
        exact leads_of_expand hexpand
    · next hround =>
      obtain ⟨u, rest, rfl, hu⟩ := exists_of_startsWith (by simpa using hround)
      have hopen : predict restriction u.toLexeme = shift [restrictionScope] := if_pos hu
      have hscopes : Leads (restriction :: K) (u :: rest) (restrictionScope :: K) rest :=
        leads_of_shift hopen
      have hbracket : u.toLexeme = Lexeme.punct "(" :=
        (hp _ (.tail _ List.mem_cons_self)).eq_punct hu rfl
      have hprest : ∀ t ∈ lexemes rest, t.Proper := fun x hx => hp x (.tail _ (.tail _ hx))
      -- Where `pub` stands by itself, the bracket is seen again as the beginning of a tuple.
      have hplain : Leads (restrictionScope :: K) rest (goal .tupleElement :: K) rest →
          Leads (declaredType :: K) (t :: u :: rest) (goal .type :: K) (u :: rest) := by
        intro htuple
        refine hrestriction.trans (leads_of_common (hscopes.trans htuple) ?_)
        exact leads_of_shift (predict_goal_type_round hbracket)
      rw [List.tail_cons]
      split
      · next htail =>
        refine hplain (leads_restrictionScope hprest ?_ ?_) <;> rintro x xs ⟨⟩
      · next scope tokens =>
        split
        · next hscope =>
          obtain ⟨hk, hmem, hclose⟩ := hscope
          obtain ⟨v, others, rfl, hv⟩ := exists_of_startsWith hclose
          have hscopeWord : predict restrictionScope scope.toLexeme = shift [scopeEnd] :=
            if_pos ⟨hk, hmem⟩
          have hend : predict scopeEnd v.toLexeme = shift [goal .type] := if_pos hv
          exact hrestriction.trans (hscopes.trans ((leads_of_shift hscopeWord).trans
            (leads_of_shift hend)))
        · next hscope =>
          split
          · next hin =>
            have hnotScope : ¬ (scope.kind = .ident ∧ scope.text ∈ visibilityScopes) := by
              rintro ⟨-, hmem⟩
              exact not_isWord_of_mem hmem (by decide) hin
            have hwords : predict restrictionScope scope.toLexeme =
                shift [words, closer .round, goal .type] :=
              (if_neg hnotScope).trans (if_pos hin)
            have hleads : Leads (declaredType :: K) (t :: u :: scope :: tokens)
                (words :: closer .round :: goal .type :: K) tokens :=
              hrestriction.trans (hscopes.trans (leads_of_shift hwords))
            exact hleads.tracks tracks_moduleScope
          · next hin =>
            refine hplain (leads_restrictionScope hprest ?_ ?_)
            · rintro x xs ⟨⟩
              exact hscope
            · rintro x xs ⟨⟩
              exact hin

/-! ## Blocks -/

theorem tracks_readBlock (hp : ∀ t ∈ lexemes ahead, t.Proper) :
    Tracks (attributes :: declaredType :: opening :: K) ahead (blocks :: K)
      ((readBlock source ahead).map Prod.snd) := by
  have hattributes := @tracks_readAttributes (declaredType :: opening :: K) ahead source
  refine Tracks.bind hattributes fun attributes atVisibility hread => ?_
  rw [hread] at hattributes
  have hpvisibility := Leads.proper hattributes hp
  have hvisibility := @tracks_readVisibility (opening :: K) atVisibility hpvisibility
  refine Tracks.bind hvisibility fun visibility atType hread => ?_
  rw [hread] at hvisibility
  have hptype := Leads.proper hvisibility hpvisibility
  refine Tracks.bind (tracks_readType hptype) fun inner atNames _ => ?_
  have hopening : Tracks (opening :: K) atNames (names :: blocks :: K)
      ((readWord Delimiter.curly.opener "`\x7b` after the inner type" atNames).map Prod.snd) := by
    refine @tracks_readWord opening K [names, blocks] _ _ _ rfl ?_ ?_
    · intro t rest _ hw
      exact if_pos hw
    · intro t rest _ hw
      exact if_neg (by simp [hw])
  refine Tracks.bind hopening fun _ inside _ => ?_
  refine Tracks.bind tracks_readNames fun decls atClose _ => ?_
  exact Tracks.bind tracks_closer fun close after _ => Leads.refl

theorem readBlocks_cons {t : Token} : readBlocks source (t :: rest) =
    match readBlock source (t :: rest) with
    | .error fault => .error fault
    | .ok (block, next) => (readBlocks source next).map (block :: ·) := by
  rw [readBlocks]
  split
  · next hblock => rw [hblock]
  · next block next hblock =>
    rw [hblock]
    simp only
    cases readBlocks source next <;> rfl

/-- Reading blocks succeeds on what the automaton accepts, and blames the right token of what it
rejects. -/
theorem tracks_readBlocks (hp : ∀ t ∈ lexemes ahead, t.Proper) :
    match readBlocks source ahead with
    | .ok _ => Accepts [blocks] (lexemes ahead)
    | .error fault => Blames [blocks] ahead fault := by
  have hblock : ∀ (t : Token) (rest : List Token), Leads [blocks] (t :: rest)
      [attributes, declaredType, opening] (t :: rest) := by
    intro t rest
    have hexpand : predict blocks t.toLexeme = expand [attributes, declaredType, opening] := rfl
    exact leads_of_expand hexpand
  fun_induction readBlocks source ahead with
  | case1 => exact accepts_nil.mpr (by simp [isOptional])
  | case2 t rest fault hread =>
    have htracks := @tracks_readBlock [] _ source hp
    rw [hread] at htracks
    exact (hblock t rest).blames htracks
  | case3 t rest block next hread fault hblocks ih =>
    have htracks := @tracks_readBlock [] _ source hp
    rw [hread] at htracks
    have ih := ih (Leads.proper htracks hp)
    rw [hblocks] at ih
    exact ((hblock t rest).trans htracks).blames ih
  | case4 t rest block next hread decls hblocks ih =>
    have htracks := @tracks_readBlock [] _ source hp
    rw [hread] at htracks
    have ih := ih (Leads.proper htracks hp)
    rw [hblocks] at ih
    obtain ⟨-, -, -, haccepts⟩ := (hblock t rest).trans htracks
    exact haccepts.mpr ih

/-- Blocks are read from proper tokens exactly where the automaton accepts them. -/
theorem readBlocks_ok_iff (hp : ∀ t ∈ lexemes ahead, t.Proper) :
    (∃ blocks, readBlocks source ahead = .ok blocks) ↔ Accepts [blocks] (lexemes ahead) := by
  have htracks := @tracks_readBlocks _ source hp
  cases hread : readBlocks source ahead with
  | error fault =>
    rw [hread] at htracks
    refine ⟨?_, fun h => absurd h htracks.rejects⟩
    rintro ⟨decls, ⟨⟩⟩
  | ok decls =>
    rw [hread] at htracks
    exact ⟨fun _ => htracks, fun _ => ⟨decls, rfl⟩⟩

end Microtypes
