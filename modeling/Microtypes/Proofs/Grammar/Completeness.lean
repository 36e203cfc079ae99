import Microtypes.Proofs.Grammar.TypeCompleteness

/-!
# Derived blocks are accepted

What the grammar derives as blocks is accepted by the automaton, except where `pub` stands by itself
before a type that looks like its restriction: there the automaton, like the reader, takes the
restriction.
-/

namespace Microtypes

open Microtypes.Symbol Move
open Lexeme (punct ident)

variable {s : Symbol} {K : List Symbol} {t : Lexeme} {ts us : List Lexeme}

/-! ## Paths -/

/-- A path ends where something else is expected that no path separator begins. -/
theorem accepts_wordRest (hs : s.isOptional = false)
    (hstop : ∀ t : Lexeme, t.isWord "::" = true → feed (s :: K) t = none)
    (h : Accepts (s :: K) us) : Accepts (wordRest :: s :: K) us := by
  obtain ⟨t, rest, rfl, hfeed⟩ := exists_of_accepts hs h
  refine accepts_expand [] (if_neg ?_) h
  intro hw
  rw [hstop t hw] at hfeed
  cases hfeed

theorem accepts_pathTree {p : PathTree} (hwf : p.WellFormed) (hp : ∀ t ∈ p.lexemes, t.Proper)
    (h : Accepts (wordRest :: K) us) : Accepts (words :: K) (p.lexemes ++ us) := by
  obtain ⟨root, identifiers⟩ := p
  obtain ⟨hne, hident⟩ := hwf
  simp only at hne hident
  have hwords : Accepts (word :: K)
      (separated (punct "::") false (identifiers.map ([·])) ++ us) := by
    refine @accepts_separated _ (wordRest :: K) _ _ _ _ (fun e => absurd e (by simpa using hne))
      h ?_ ?_
    · intro us hus
      exact accepts_shift [word] (by decide) hus
    · intro e hmem us hus
      obtain ⟨w, hw, rfl⟩ := List.mem_map.mp hmem
      exact accepts_shift [wordRest] (if_pos (hident w hw)) hus
  rw [PathTree.lexemes, List.append_assoc]
  cases root with
  | true => exact accepts_shift [word] (by decide) hwords
  | false =>
    obtain ⟨w, identifiers, rfl⟩ := List.exists_cons_of_ne_nil hne
    have hroot : ¬ w.isWord "::" = true := by
      intro hw
      have hk := hident w List.mem_cons_self
      rw [(hp w (by simp [PathTree.lexemes, separated])).eq_punct hw rfl] at hk
      cases hk
    exact accepts_expand [word] (if_neg hroot) hwords

/-! ## Attributes -/

theorem feed_closer_separator {d : Delimiter} (hw : t.isWord "::" = true) :
    feed (closer d :: K) t = none := by
  have hmem : t.text ∈ ["::"] := by simp [text_eq_of_isWord hw]
  refine feed_of_stop (if_neg (not_isWord_of_mem hmem ?_))
  cases d <;> decide

theorem feed_form_separator (hw : t.isWord "::" = true) : feed (form :: K) t = none := by
  have htext := text_eq_of_isWord hw
  have hopens : t.opens? = none := by
    cases hd : t.opens? with
    | none => rfl
    | some d =>
      rw [eq_punct_of_opens hd] at htext
      revert htext
      cases d <;> decide
  have hmem : t.text ∈ ["::"] := by simp [text_eq_of_isWord hw]
  have hequals : ¬ t.isWord "=" = true := not_isWord_of_mem hmem (by decide)
  have hexpand : predict form t = expand [closer .square] := by
    simp only [predict, hopens, if_neg hequals]
  rw [feed_of_expand hexpand]
  exact feed_closer_separator hw

theorem accepts_formTree {f : FormTree} (hwf : f.WellFormed) (hp : ∀ t ∈ f.lexemes, t.Proper)
    (h : Accepts K us) : Accepts (form :: K) (f.lexemes ++ punct "]" :: us) := by
  have hclose : Accepts (closer .square :: K) (punct "]" :: us) := accepts_shift [] (by decide) h
  cases f with
  | bare => exact accepts_expand [closer .square] (by decide) hclose
  | delimited d inside =>
    have hgroup : Accepts (closing d :: closer .square :: K)
        (inside ++ punct d.closer :: punct "]" :: us) :=
      accepts_closing hwf (fun t ht => hp t (by simp [FormTree.lexemes, ht])) hclose
    have hopen : predict form (punct d.opener) = shift [closing d, closer .square] := by
      simp only [predict, opens_punct]
    simpa [FormTree.lexemes] using accepts_shift [closing d, closer .square] hopen hgroup
  | assigned v =>
    have hvalue : Accepts (value :: K) (v ++ punct "]" :: us) :=
      accepts_value hwf (fun t ht => hp t (by simp [FormTree.lexemes, ht])) h
    exact accepts_shift [value] (by decide) hvalue

theorem accepts_attributeTree {a : AttributeTree} (hwf : a.WellFormed)
    (hp : ∀ t ∈ a.lexemes, t.Proper) (h : Accepts (attributes :: K) us) :
    Accepts (attributes :: K) (a.lexemes ++ us) := by
  cases a with
  | doc comment => exact accepts_shift [attributes] (if_pos hwf) h
  | marked path f =>
    obtain ⟨hpath, hf⟩ := hwf
    have hform : Accepts (form :: attributes :: K) (f.lexemes ++ punct "]" :: us) :=
      accepts_formTree hf (fun t ht => hp t (by simp [AttributeTree.lexemes, ht])) h
    have hrest := accepts_wordRest rfl (fun _ => feed_form_separator) hform
    have hwords := accepts_pathTree hpath
      (fun t ht => hp t (by simp [AttributeTree.lexemes, ht])) hrest
    have hbody : Accepts (attributeBody :: attributes :: K)
        (punct "[" :: (path.lexemes ++ (f.lexemes ++ punct "]" :: us))) :=
      accepts_shift [words, form] (by decide) hwords
    have hmark : predict attributes (punct "#") = shift [attributeBody, attributes] := by decide
    simpa [AttributeTree.lexemes] using accepts_shift [attributeBody, attributes] hmark hbody

/-- Attributes end where something else is expected that no attribute begins. -/
theorem accepts_attributeTrees {trees : List AttributeTree} (hwf : ∀ a ∈ trees, a.WellFormed)
    (hp : ∀ t ∈ trees.flatMap AttributeTree.lexemes, t.Proper) (hs : s.isOptional = false)
    (hstop : ∀ t : Lexeme, t.kind = .doc ∨ t.isPunct "#" = true → feed (s :: K) t = none)
    (h : Accepts (s :: K) us) :
    Accepts (attributes :: s :: K) (trees.flatMap AttributeTree.lexemes ++ us) := by
  induction trees with
  | nil =>
    obtain ⟨t, rest, rfl, hfeed⟩ := exists_of_accepts hs h
    have hother : ¬ (t.kind = .doc ∨ t.isPunct "#" = true) := by
      intro ht
      rw [hstop t ht] at hfeed
      cases hfeed
    rw [not_or] at hother
    exact accepts_expand [] ((if_neg hother.1).trans (if_neg hother.2)) h
  | cons a trees ih =>
    rw [List.forall_mem_cons] at hwf
    rw [List.flatMap_cons] at hp ⊢
    rw [List.append_assoc]
    refine accepts_attributeTree hwf.1 (fun t ht => hp t (List.mem_append_left _ ht)) ?_
    exact ih hwf.2 fun t ht => hp t (List.mem_append_right _ ht)

/-! ## Names -/

theorem accepts_nameTree {n : NameTree} (hwf : n.WellFormed) (hp : ∀ t ∈ n.lexemes, t.Proper)
    (h : Accepts K us) : Accepts (name :: K) (n.lexemes ++ us) := by
  obtain ⟨hattributes, hname⟩ := hwf
  have hfault : nameFault? n.name = none := nameFault?_eq_none_iff.mpr hname
  have hword : Accepts (nameWord :: K) (n.name :: us) := accepts_shift [] (if_pos hfault) h
  have haccepts : Accepts (attributes :: nameWord :: K)
      (n.attributes.flatMap AttributeTree.lexemes ++ n.name :: us) := by
    refine accepts_attributeTrees hattributes
      (fun t ht => hp t (by simp [NameTree.lexemes] at ht ⊢; exact .inl ht)) rfl ?_ hword
    intro t ht
    refine feed_of_stop (if_neg fun hnone => ?_)
    have hident := (nameFault?_eq_none_iff.mp hnone).1
    rcases ht with hdoc | hmark
    · rw [hdoc] at hident
      cases hident
    · simp [Lexeme.isPunct, hident] at hmark
  rw [NameTree.lexemes, List.append_assoc]
  obtain ⟨t, rest, heq⟩ : ∃ t rest,
      n.attributes.flatMap AttributeTree.lexemes ++ ([n.name] ++ us) = t :: rest :=
    List.exists_cons_of_ne_nil (by simp)
  rw [heq]
  refine accepts_expand [attributes, nameWord] rfl ?_
  rw [← heq]
  exact haccepts

/-- A declared name, with its attributes, does not begin like the end of the names. -/
theorem not_isWord_of_nameTree {n : NameTree} (hwf : n.WellFormed)
    (hp : ∀ t ∈ n.lexemes, t.Proper) :
    ∃ t rest, n.lexemes = t :: rest ∧ ¬ t.isWord Delimiter.curly.closer = true := by
  obtain ⟨trees, declared⟩ := n
  obtain ⟨hattributes, hk, -⟩ := hwf
  simp only at hattributes hk
  cases trees with
  | nil =>
    refine ⟨declared, [], rfl, fun hw => ?_⟩
    rw [(hp declared (by simp [NameTree.lexemes])).eq_punct hw rfl] at hk
    cases hk
  | cons a trees =>
    have ha := hattributes a List.mem_cons_self
    cases a with
    | doc comment =>
      refine ⟨comment, _, rfl, fun hw => ?_⟩
      have hkind : comment.kind = .doc := ha
      simp [Lexeme.isWord, hkind] at hw
    | marked path f => exact ⟨punct "#", _, rfl, by decide⟩

/-- Names are accepted together with the bracket that closes them. -/
theorem accepts_nameTrees {trees : List NameTree} {trailing : Bool}
    (hwf : ∀ n ∈ trees, n.WellFormed) (hp : ∀ n ∈ trees, ∀ t ∈ n.lexemes, t.Proper)
    (h : Accepts K us) :
    Accepts (names :: K) (separated (punct ",") trailing (trees.map NameTree.lexemes) ++
      punct Delimiter.curly.closer :: us) := by
  have hclose : Accepts (names :: K) (punct Delimiter.curly.closer :: us) :=
    accepts_shift [] (by decide) h
  refine @accepts_separated _ (nameRest :: K) _ _ _ _ (fun _ => hclose) ?_ ?_ ?_
  · cases trailing with
    | true => exact accepts_shift [names] (by decide) hclose
    | false => exact accepts_shift [] (by decide) h
  · intro us hus
    exact accepts_shift [names] (by decide) hus
  · intro e hmem us hus
    obtain ⟨n, hn, rfl⟩ := List.mem_map.mp hmem
    have hname := accepts_nameTree (hwf n hn) (hp n hn) hus
    obtain ⟨t, rest, heq, hw⟩ := not_isWord_of_nameTree (hwf n hn) (hp n hn)
    rw [heq] at hname ⊢
    exact accepts_expand [name, nameRest] (if_neg hw) hname

/-! ## Visibilities -/

/-- A type that begins with a round bracket ends with one. -/
theorem exists_of_derives_round (h : Derives .type (punct "(" :: ts))
    (hp : ∀ t ∈ punct "(" :: ts, t.Proper) : ∃ inside, ts = inside ++ [punct ")"] := by
  generalize htype : punct "(" :: ts = all at h
  cases h with
  | tuple trailing he =>
    cases htype
    exact ⟨_, rfl⟩
  | named hpath hd =>
    subst htype
    have haccepts := reads_of_derives hpath hp [] [] .nil (accepts_nil.mpr (by simp))
    obtain ⟨t, rest, heq, hfeed⟩ := exists_of_accepts rfl haccepts
    cases heq
    rcases beginsType_of_feed_path hfeed with hroot | ⟨hk, -⟩
    · exact absurd hroot (by decide)
    · cases hk
  | _ => exact absurd (List.cons.inj htype).1 (by decide)

/-- An element of a tuple is accepted after `pub` and a round bracket, unless it looks like a
restriction. -/
theorem accepts_restrictionScope (hp : ∀ t ∈ ts ++ [punct ")"], t.Proper)
    (hlooks : ¬ BlockTree.LooksRestricted (punct "(" :: (ts ++ [punct ")"])))
    (h : Accepts (goal .tupleElement :: K) (ts ++ punct ")" :: us)) :
    Accepts (restrictionScope :: K) (ts ++ punct ")" :: us) := by
  cases ts with
  | nil => exact accepts_expand [goal .tupleElement] (by decide) h
  | cons t ts =>
    have ht : t.Proper := hp t (by simp)
    by_cases hscope : t.kind = .ident ∧ t.text ∈ visibilityScopes
    · obtain ⟨hk, hmem⟩ := hscope
      have htuple : predict (goal .tupleElement) t = expand [goal .type, goal .tupleRest] :=
        if_neg (not_isWord_of_mem hmem (by decide))
      have hpathed : t.text ∉ Goal.unpathedWords := by
        have hdisjoint : ∀ text ∈ visibilityScopes, text ∉ Goal.unpathedWords := by decide
        exact hdisjoint _ hmem
      have hparts : wordParts t.text = [segmentEnd, goal .pathRest] := by
        have hscopes : ∀ text ∈ visibilityScopes,
            wordParts text = [segmentEnd, goal .pathRest] := by decide
        exact hscopes _ hmem
      obtain ⟨L, hL, hrest⟩ := accepts_cons.mp h
      rw [feed_of_expand htuple] at hL
      have hfeed := @feed_type_ident (goal .tupleRest :: K) _ hk ht hpathed
      rw [hparts] at hfeed
      cases hfeed.symm.trans hL
      refine accepts_shift [scopeEnd] (if_pos ⟨hk, hmem⟩) ?_
      -- What follows the scope is a token of the type, which does not close the bracket.
      obtain ⟨u, rest, heq, hclose⟩ : ∃ u rest, ts ++ punct ")" :: us = u :: rest ∧
          ¬ u.isWord ")" = true := by
        have hword : ident t.text = t := by rw [ident, ← hk]
        cases ts with
        | nil =>
          refine absurd (.inl ⟨t.text, hmem, ?_⟩) hlooks
          rw [hword]
          exact List.prefix_rfl
        | cons u ts =>
          refine ⟨u, _, rfl, fun hw => hlooks (.inl ⟨t.text, hmem, ?_⟩)⟩
          rw [hword, (hp u (by simp)).eq_punct hw rfl]
          exact List.prefix_append [_, _, _] _
      rw [List.append_eq, heq] at hrest ⊢
      exact accepts_expand [segmentEnd, goal .pathRest, goal .tupleRest] (if_neg hclose) hrest
    · have hin : ¬ t.isWord "in" = true := by
        intro hw
        refine hlooks (.inr ?_)
        rw [ht.eq_ident hw rfl]
        exact List.prefix_append [_, _] _
      exact accepts_expand [goal .tupleElement] ((if_neg hscope).trans (if_neg hin)) h

theorem accepts_restriction (hts : Derives .type ts) (hp : ∀ t ∈ ts, t.Proper)
    (hlooks : ¬ BlockTree.LooksRestricted ts) (h : Accepts (goal .type :: K) (ts ++ us)) :
    Accepts (restriction :: K) (ts ++ us) := by
  obtain ⟨t, ts, rfl⟩ := List.exists_cons_of_ne_nil (derives_ne_nil hts)
  by_cases hround : t.isWord "(" = true
  · have ht : t = punct "(" := (hp t List.mem_cons_self).eq_punct hround rfl
    subst ht
    obtain ⟨inside, rfl⟩ := exists_of_derives_round hts hp
    refine accepts_shift [restrictionScope] (by decide) ?_
    have hopen : predict (goal .type) (punct "(") = shift [goal .tupleElement] := by decide
    have htuple := (accepts_of_shift hopen).mp h
    rw [List.append_eq, List.append_assoc] at htuple ⊢
    exact accepts_restrictionScope (fun t ht => hp t (.tail _ ht)) hlooks htuple
  · exact accepts_expand [goal .type] (if_neg hround) h

theorem accepts_visibilityTree {v : VisibilityTree} (hwf : v.WellFormed)
    (hpv : ∀ t ∈ v.lexemes, t.Proper) (hts : Derives .type ts) (hp : ∀ t ∈ ts, t.Proper)
    (hlooks : v = .plain → ¬ BlockTree.LooksRestricted ts)
    (h : Accepts (goal .type :: K) (ts ++ us)) :
    Accepts (declaredType :: K) (v.lexemes ++ (ts ++ us)) := by
  cases v with
  | hidden =>
    obtain ⟨t, rest, heq, hfeed⟩ := exists_of_accepts rfl h
    rw [VisibilityTree.lexemes, List.nil_append, heq]
    rw [heq] at h
    have hpub : ¬ t.isWord "pub" = true := (beginsType_of_feed hfeed).not_isWord (by decide)
    exact accepts_expand [goal .type] (if_neg hpub) h
  | plain =>
    have hrestriction := accepts_restriction hts hp (hlooks rfl) h
    exact accepts_shift [restriction] (by decide) hrestriction
  | scope text =>
    have hclose : Accepts (scopeEnd :: K) (punct ")" :: (ts ++ us)) :=
      accepts_shift [goal .type] (by decide) h
    have hscope : Accepts (restrictionScope :: K) (ident text :: punct ")" :: (ts ++ us)) :=
      accepts_shift [scopeEnd] (if_pos ⟨rfl, hwf⟩) hclose
    have hopen : Accepts (restriction :: K)
        (punct "(" :: ident text :: punct ")" :: (ts ++ us)) :=
      accepts_shift [restrictionScope] (by decide) hscope
    exact accepts_shift [restriction] (by decide) hopen
  | within path =>
    have hclose : Accepts (closer .round :: goal .type :: K) (punct ")" :: (ts ++ us)) :=
      accepts_shift [] (by decide) h
    have hrest := accepts_wordRest rfl (fun _ => feed_closer_separator) hclose
    have hwords := accepts_pathTree hwf
      (fun t ht => hpv t (by simp [VisibilityTree.lexemes, ht])) hrest
    have hin : Accepts (restrictionScope :: K)
        (ident "in" :: (path.lexemes ++ punct ")" :: (ts ++ us))) :=
      accepts_shift [words, closer .round, goal .type] (by decide) hwords
    have hopen : Accepts (restriction :: K)
        (punct "(" :: ident "in" :: (path.lexemes ++ punct ")" :: (ts ++ us))) :=
      accepts_shift [restrictionScope] (by decide) hin
    have hpub : predict declaredType (ident "pub") = shift [restriction] := by decide
    simpa [VisibilityTree.lexemes] using accepts_shift [restriction] hpub hopen

/-! ## Blocks -/

theorem feed_declaredType_attribute (ht : t.kind = .doc ∨ t.isPunct "#" = true) :
    feed (declaredType :: K) t = none := by
  cases hfeed : feed (declaredType :: K) t with
  | none => rfl
  | some L =>
    exfalso
    have hpub : ¬ t.isWord "pub" = true := by
      intro hw
      rcases ht with hk | hmark
      · simp [Lexeme.isWord, hk] at hw
      · rw [eq_punct_of_isPunct hmark] at hw
        exact absurd hw (by decide)
    have hexpand : predict declaredType t = expand [goal .type] := if_neg hpub
    rw [feed_of_expand hexpand] at hfeed
    have hbegins : BeginsType t := @beginsType_of_feed K t (by
      rw [List.singleton_append] at hfeed
      rw [hfeed]
      rfl)
    rcases ht with hk | hmark
    · rcases hbegins.kind with h | h <;> rw [hk] at h <;> cases h
    · rw [eq_punct_of_isPunct hmark] at hbegins
      rcases hbegins with ⟨-, hmem⟩ | ⟨hk, -⟩
      · exact absurd hmem (by decide)
      · cases hk

theorem accepts_blockTree {b : BlockTree} (hwf : b.WellFormed) (hsettled : b.Settled)
    (hp : ∀ t ∈ b.lexemes, t.Proper) (h : Accepts (blocks :: K) us) :
    Accepts (blocks :: K) (b.lexemes ++ us) := by
  obtain ⟨hattributes, hvisibility, hinner, hdecls⟩ := hwf
  have hpattributes : ∀ t ∈ b.attributes.flatMap AttributeTree.lexemes, t.Proper := fun t ht =>
    hp t (by simp only [BlockTree.lexemes, List.mem_append]; simp [ht])
  have hpvisibility : ∀ t ∈ b.visibility.lexemes, t.Proper := fun t ht =>
    hp t (by simp [BlockTree.lexemes, ht])
  have hpinner : ∀ t ∈ b.inner, t.Proper := fun t ht => hp t (by simp [BlockTree.lexemes, ht])
  have hpnames : ∀ n ∈ b.names, ∀ t ∈ n.lexemes, t.Proper := by
    intro n hn t ht
    have hmem : t ∈ separated (punct ",") b.trailing (b.names.map NameTree.lexemes) :=
      mem_separated (List.mem_map_of_mem hn) ht
    exact hp t (by simp [BlockTree.lexemes, hmem])
  have hnames := @accepts_nameTrees _ us b.names b.trailing hdecls hpnames h
  have hopening : Accepts (opening :: K) (punct Delimiter.curly.opener ::
      (separated (punct ",") b.trailing (b.names.map NameTree.lexemes) ++
        punct Delimiter.curly.closer :: us)) := accepts_shift [names, blocks] (by decide) hnames
  have htype := reads_of_derives hinner hpinner (opening :: K) _ (.ender (by decide)) hopening
  have hdeclared := accepts_visibilityTree hvisibility hpvisibility hinner hpinner hsettled htype
  have hall := accepts_attributeTrees hattributes hpattributes rfl
    (fun _ => feed_declaredType_attribute) hdeclared
  obtain ⟨t, rest, heq, -⟩ := exists_of_accepts rfl hdeclared
  obtain ⟨t', rest', heq'⟩ : ∃ t rest, b.attributes.flatMap AttributeTree.lexemes ++
      (b.visibility.lexemes ++ (b.inner ++ punct Delimiter.curly.opener ::
        (separated (punct ",") b.trailing (b.names.map NameTree.lexemes) ++
          punct Delimiter.curly.closer :: us))) = t :: rest :=
    List.exists_cons_of_ne_nil (by simp [heq])
  have hsame : b.lexemes ++ us = t' :: rest' := by
    rw [← heq']
    simp [BlockTree.lexemes]
  rw [hsame]
  rw [heq'] at hall
  exact accepts_expand [attributes, declaredType, opening] rfl hall

/-- Blocks that the grammar derives are accepted, if their visibilities are settled. -/
theorem accepts_of_derivedAs {trees : List BlockTree} (h : DerivedAs trees ts)
    (hsettled : ∀ b ∈ trees, b.Settled) (hp : ∀ t ∈ ts, t.Proper) : Accepts [blocks] ts := by
  obtain ⟨hwf, rfl⟩ := h
  induction trees with
  | nil => exact accepts_nil.mpr (by decide)
  | cons b trees ih =>
    rw [List.forall_mem_cons] at hwf hsettled
    rw [List.flatMap_cons] at hp ⊢
    have hrest := ih hsettled.2 hwf.2 fun t ht => hp t (List.mem_append_right _ ht)
    exact accepts_blockTree hwf.1 hsettled.1 (fun t ht => hp t (List.mem_append_left _ ht)) hrest

end Microtypes
