import Microtypes.Proofs.Grammar.Normalisation
import Microtypes.Proofs.Grammar.Standing

/-!
# Reading a block from its parts

What is derived as a path or a visibility is read as such, and a type is read as such in front of
the names. So a block is read wherever its parts stand one after another (`readBlock_of_runs`), and
blocks are read from the runs that each of them is read from alone (`readBlocks_of_runs`).
-/

namespace Microtypes

open Lexeme (punct ident)
open Microtypes.Symbol Move

variable {source : List Char} {ahead rest more run type : List Token} {what : String}

/-! ## Paths and visibilities -/

theorem readSegments_of_words {words : List Lexeme} (hne : words ≠ [])
    (hwords : ∀ w ∈ words, w.kind = .ident)
    (hlex : lexemes run = separated (punct "::") false (words.map ([·])))
    (hrest : startsWith rest "::" = false) :
    readSegments what (run ++ rest) = .ok ("::".intercalate (words.map (·.text)), rest) := by
  induction words generalizing run with
  | nil => exact absurd rfl hne
  | cons word words ih =>
    obtain ⟨hword, hothers⟩ := List.forall_mem_cons.mp hwords
    cases words with
    | nil =>
      obtain ⟨t, rfl, rfl⟩ := List.map_eq_singleton_iff.mp hlex
      have hk : ¬ t.kind ≠ .ident := not_not_intro hword
      cases rest with
      | nil => simp only [List.append_nil, readSegments, if_neg hk]; simp
      | cons separator rest =>
        have hseparator : ¬ separator.isWord "::" = true := Bool.eq_false_iff.mp hrest
        simp only [List.cons_append, List.nil_append, readSegments, if_neg hk, if_neg hseparator]
        simp
    | cons second words =>
      rw [List.map_cons, List.map_cons, separated_cons_cons] at hlex
      obtain ⟨t, ts, rfl, rfl, hts⟩ := List.map_eq_cons_iff.mp hlex
      obtain ⟨separator, more, rfl, hseparator, hmore⟩ := List.map_eq_cons_iff.mp hts
      have hk : ¬ t.kind ≠ .ident := not_not_intro hword
      have hword' : separator.isWord "::" = true := by
        rw [hseparator]
        rfl
      have hlater := ih (List.cons_ne_nil _ _) hothers hmore
      simp only [List.cons_append, readSegments, if_neg hk, if_pos hword', hlater]
      simp [String.append_assoc]

/-- A derived path is read in front of anything but a further separator. -/
theorem readPath_of_tree {tree : PathTree} (hwf : tree.WellFormed)
    (hp : ∀ t ∈ lexemes run, t.Proper) (hlex : lexemes run = tree.lexemes)
    (hrest : startsWith rest "::" = false) :
    readPath what (run ++ rest) = .ok (tree.text, rest) := by
  obtain ⟨root, words⟩ := tree
  obtain ⟨hne, hwords⟩ := hwf
  cases root with
  | true =>
    obtain ⟨t, ts, rfl, ht, hts⟩ := List.map_eq_cons_iff.mp hlex
    have hroot : startsWith (t :: ts ++ rest) "::" = true := by
      show t.isWord "::" = true
      rw [ht]
      rfl
    rw [readPath, if_pos hroot, List.cons_append, List.tail_cons,
      readSegments_of_words hne hwords hts hrest]
    rfl
  | false =>
    have hroot : startsWith (run ++ rest) "::" = false := by
      obtain ⟨word, words, rfl⟩ := List.exists_cons_of_ne_nil hne
      obtain ⟨t, ts, rfl, ht, -⟩ := List.map_eq_cons_iff.mp hlex
      rw [Bool.eq_false_iff]
      intro hword
      have hk : t.kind = .ident := by
        rw [ht]
        exact hwords word List.mem_cons_self
      rw [(hp _ List.mem_cons_self).eq_punct hword rfl] at hk
      cases hk
    rw [readPath, hroot, if_neg Bool.false_ne_true, readSegments_of_words hne hwords hlex hrest]
    simp [PathTree.text]

/-- Whether `pub` in front of the tokens is taken as a visibility by itself. -/
theorem readVisibility_plain {t : Token} (ht : t.isWord "pub" = true)
    (hp : ∀ t ∈ lexemes rest, t.Proper) (hlooks : ¬ BlockTree.LooksRestricted (lexemes rest)) :
    readVisibility (t :: rest) = .ok ("pub", rest) := by
  have hpub : startsWith (t :: rest) "pub" = true := ht
  rw [readVisibility, hpub, List.tail_cons, if_neg (by simp)]
  by_cases hround : startsWith rest "(" = true
  · rw [if_neg (by simp [hround])]
    have hopen := lexemes_of_startsWith hround hp rfl
    obtain ⟨u, others, rfl, -⟩ := exists_of_startsWith hround
    rw [List.tail_cons] at hopen ⊢
    cases others with
    | nil => rfl
    | cons scope others =>
      have hpothers : ∀ t ∈ lexemes (scope :: others), t.Proper := fun t ht => hp t (.tail _ ht)
      simp only
      rw [if_neg, if_neg]
      · intro hin
        have hword := (hpothers _ List.mem_cons_self).eq_ident hin rfl
        refine hlooks (.inr ?_)
        rw [hopen, lexemes_cons, hword]
        exact ⟨_, rfl⟩
      · rintro ⟨hk, hmem, hclose⟩
        have hclosing := lexemes_of_startsWith hclose (fun t ht => hpothers t (.tail _ ht)) rfl
        refine hlooks (.inl ⟨scope.text, hmem, ?_⟩)
        rw [hopen, lexemes_cons, hclosing, ident, ← hk]
        exact ⟨_, rfl⟩
  · rw [if_pos (by simpa using hround)]

theorem readVisibility_within {path : PathTree} (hwf : path.WellFormed)
    (hp : ∀ t ∈ lexemes run, t.Proper) (hlex : lexemes run = (VisibilityTree.within path).lexemes) :
    readVisibility (run ++ rest) = .ok ((VisibilityTree.within path).text, rest) := by
  have hsplit : lexemes run = ident "pub" :: punct "(" :: ident "in" ::
      (path.lexemes ++ [punct ")"]) := hlex
  obtain ⟨t, _, rfl, ht, h⟩ := List.map_eq_cons_iff.mp hsplit
  obtain ⟨opener, _, rfl, hopener, h⟩ := List.map_eq_cons_iff.mp h
  obtain ⟨scope, _, rfl, hscope, h⟩ := List.map_eq_cons_iff.mp h
  obtain ⟨inner, _, rfl, hinner, h⟩ := List.map_eq_append_iff.mp h
  obtain ⟨closer, rfl, hcloser⟩ := List.map_eq_singleton_iff.mp h
  have hpinner : ∀ t ∈ lexemes inner, t.Proper := fun t ht => hp t (by simp [lexemes_append, ht])
  have hclose : startsWith (closer :: rest) "::" = false := by
    rw [startsWith, List.head?_cons, Option.any_some, hcloser]
    rfl
  have hpath := @readPath_of_tree (closer :: rest) inner "a module path" path hwf hpinner hinner
    hclose
  have hscopeText : scope.text ∉ visibilityScopes := by
    rw [hscope]
    decide
  have hin : scope.isWord "in" = true := by
    rw [hscope]
    rfl
  simp only [readVisibility, startsWith, List.cons_append, List.nil_append, List.head?_cons,
    Option.any_some, List.tail_cons, List.append_assoc, ht, hopener]
  rw [if_neg (by decide), if_neg (by decide), if_neg fun h => hscopeText h.2.1, if_pos hin, hpath]
  simp only [passWord, readWord_cons (show closer.isWord ")" = true by rw [hcloser]; rfl)]
  rfl

/-- A derived visibility is read in front of a type that does not look like a part of it. -/
theorem readVisibility_of_tree {tree : VisibilityTree} (hwf : tree.WellFormed)
    (hp : ∀ t ∈ lexemes (run ++ rest), t.Proper) (hlex : lexemes run = tree.lexemes)
    (hpub : startsWith rest "pub" = false)
    (hsettled : tree = .plain → ¬ BlockTree.LooksRestricted (lexemes rest)) :
    readVisibility (run ++ rest) = .ok (tree.text, rest) := by
  rw [lexemes_append, List.forall_mem_append] at hp
  cases tree with
  | hidden =>
    obtain rfl := List.map_eq_nil_iff.mp hlex
    rw [List.nil_append, readVisibility, hpub]
    rfl
  | plain =>
    obtain ⟨t, rfl, ht⟩ := List.map_eq_singleton_iff.mp hlex
    exact readVisibility_plain (by rw [ht]; rfl) hp.2 (hsettled rfl)
  | scope word =>
    obtain ⟨t, _, rfl, ht, h⟩ := List.map_eq_cons_iff.mp hlex
    obtain ⟨opener, _, rfl, hopener, h⟩ := List.map_eq_cons_iff.mp h
    obtain ⟨scope, _, rfl, hscope, h⟩ := List.map_eq_cons_iff.mp h
    obtain ⟨closer, rfl, hcloser⟩ := List.map_eq_singleton_iff.mp h
    have hmem : word ∈ visibilityScopes := hwf
    simp only [readVisibility, startsWith, List.cons_append, List.nil_append, List.head?_cons,
      Option.any_some, List.tail_cons, ht, hopener, hscope, hcloser]
    rw [if_neg (by decide), if_neg (by decide), if_pos ⟨rfl, hmem, by decide⟩]
    rfl
  | within path => exact readVisibility_within hwf hp.1 hlex

/-- A derived type is read in front of the names. -/
theorem readType_of_derives (hp : ∀ t ∈ lexemes type, t.Proper) (h : Derives .type (lexemes type))
    (hopen : startsWith more Delimiter.curly.opener = true) :
    ∃ inner, readType (type ++ more) = .ok (inner, more) ∧
      inner.text = spelling (lexemes type) := by
  obtain ⟨inner, hread, htext⟩ := readWholeType_of_derives hp h
  exact ⟨inner, readType_append (readType_of_readWholeType hread) (.inr hopen), htext⟩

/-- How a derived type begins. -/
theorem exists_of_derives (hp : ∀ t ∈ lexemes type, t.Proper) (h : Derives .type (lexemes type)) :
    ∃ t others, type = t :: others ∧ BeginsType t.toLexeme := by
  have haccepts := reads_of_derives h hp [] [] .nil (accepts_nil.mpr (by simp))
  obtain ⟨t, rest, heq, hfeed⟩ := exists_of_accepts rfl haccepts
  rw [List.append_nil] at heq
  obtain ⟨u, others, rfl, rfl, -⟩ := List.map_eq_cons_iff.mp heq
  exact ⟨u, others, rfl, beginsType_of_feed hfeed⟩

/-- What looks like a restriction lies in front of the names. -/
theorem looksRestricted_of_opener {t : Token} {inner others : List Lexeme}
    (ht : t.isWord Delimiter.curly.opener = true)
    (h : BlockTree.LooksRestricted (inner ++ t.toLexeme :: others)) :
    BlockTree.LooksRestricted inner := by
  have htext := text_eq_of_isWord ht
  have hcut {front : List Lexeme} (hfront : ∀ u ∈ front, u.text ≠ Delimiter.curly.opener)
      (h : front <+: inner ++ t.toLexeme :: others) : front <+: inner := by
    have hone : inner ++ [t.toLexeme] <+: inner ++ t.toLexeme :: others := by
      rw [List.prefix_append_right_inj]
      exact ⟨others, rfl⟩
    rcases List.prefix_or_prefix_of_prefix h hone with h | h
    · rcases List.prefix_concat_iff.mp h with rfl | h
      · exact absurd htext (hfront _ List.mem_concat_self)
      · exact h
    · exact absurd htext (hfront _ (h.subset List.mem_concat_self))
  obtain ⟨word, hword, h⟩ | h := h
  · have hcurly : word ≠ Delimiter.curly.opener := by
      rintro rfl
      revert hword
      decide
    refine .inl ⟨word, hword, hcut ?_ h⟩
    simp only [List.forall_mem_cons]
    exact ⟨by decide, hcurly, by decide, List.forall_mem_nil _⟩
  · exact .inr (hcut (by decide) h)

/-! ## Attributes and names -/

/-- Attributes that are read from a run alone are read in front of others. -/
theorem readAttributes_join {attributes others : List Attribute}
    (h : readAttributes source run = .ok (attributes, []))
    (hmore : readAttributes source more = .ok (others, rest)) :
    readAttributes source (run ++ more) = .ok (attributes ++ others, rest) := by
  fun_induction readAttributes source run generalizing attributes with
  | case1 =>
    cases h
    exact hmore
  | case2 => cases h
  | case3 t run hdoc found after hfound ih =>
    cases h
    rw [List.cons_append, Likeness.readAttributes_eq_bind, if_pos hdoc, ih hfound]
    rfl
  | case4 => cases h
  | case5 => cases h
  | case6 t run hdoc hmark attr next hnext found after hfound ih =>
    cases h
    exact readAttributes_of_mark hdoc hmark (readAfterMark_append hnext more) (ih hfound)
  | case7 => cases h

/-- No attribute begins like a visibility or a type. -/
theorem readAttributes_of_visibility {t : Token} {tree : VisibilityTree}
    (h : lexemes run = tree.lexemes) (hbegins : BeginsType t.toLexeme) (more : List Token) :
    readAttributes source (run ++ t :: more) = .ok ([], run ++ t :: more) := by
  cases run with
  | nil =>
    refine readAttributes_of_other (fun hdoc => ?_) (Bool.eq_false_iff.mpr fun hmark => ?_)
    · rcases hbegins.kind with hk | hk <;> cases hk.symm.trans hdoc
    · rw [eq_punct_of_isPunct hmark] at hbegins
      rcases hbegins with ⟨-, hmem⟩ | ⟨hk, -⟩
      · exact absurd hmem (by decide)
      · cases hk
  | cons u run =>
    have hu : u.toLexeme = ident "pub" := by
      cases tree with
      | hidden => cases h
      | plain | scope | within => exact (List.cons.inj h).1
    exact readAttributes_of_other (by rw [hu]; decide) (by rw [hu]; decide)

/-- Attributes that are read each from its run alone are read one after another. -/
theorem readAttributes_of_runs {runs : List (List Token)} {attributes : List Attribute}
    (h : List.Forall₂ (fun run a => readAttributes source run = .ok ([a], [])) runs attributes)
    (hrest : readAttributes source rest = .ok ([], rest)) :
    readAttributes source (runs.flatten ++ rest) = .ok (attributes, rest) := by
  induction h with
  | nil => exact hrest
  | cons hrun _ ih =>
    rw [List.flatten_cons, List.append_assoc]
    exact readAttributes_join hrun ih

/-- A name that stands alone is read from its run alone. -/
theorem DeclaredName.StandsAlone.alone {decl : DeclaredName} (h : decl.StandsAlone source run) :
    readName source run = .ok (decl, []) := by
  cases h with
  | @mk runs attributes t hattributes hname =>
    have hk := (nameFault?_eq_none_iff.mp hname).1
    have hmark : t.isPunct "#" = false := by simp [Lexeme.isPunct, hk]
    have hrest := @readAttributes_of_other [] source t (by simp [hk]) hmark
    exact readName_of_attributes hname
      (readAttributes_of_runs (hattributes.imp fun _ _ hstands => hstands.alone) hrest)

/-- A name that is read does not begin like the end of the names. -/
theorem startsWith_of_readName {decl : DeclaredName} (hp : ∀ t ∈ lexemes ahead, t.Proper)
    (h : readName source ahead = .ok (decl, rest)) :
    startsWith ahead Delimiter.curly.closer = false := by
  rw [Bool.eq_false_iff]
  intro hclose
  obtain ⟨t, others, rfl, hword⟩ := exists_of_startsWith hclose
  have ht : t.toLexeme = punct Delimiter.curly.closer :=
    (hp _ List.mem_cons_self).eq_punct hword rfl
  have hnone := @readAttributes_of_other others source t (by rw [ht]; decide) (by rw [ht]; decide)
  have hfault : nameFault? t.toLexeme ≠ none := by
    rw [ht]
    decide
  rw [readName, hnone] at h
  cases hcause : nameFault? t.toLexeme with
  | none => exact hfault hcause
  | some cause => simp only [hcause] at h; cases h

/-- One name in curly brackets. -/
theorem readNames_single {decl : DeclaredName} {closer : Token}
    (hp : ∀ t ∈ lexemes run, t.Proper) (h : readName source run = .ok (decl, []))
    (hcloser : closer.isWord Delimiter.curly.closer = true) :
    readNames source (run ++ [closer]) = .ok ([decl], [closer]) := by
  have hrun : run ≠ [] := by
    have hlength := length_of_readName h
    exact List.ne_nil_of_length_pos (by omega)
  refine readNames_last ?_ (readName_append h [closer]) ?_
  · rw [startsWith_append hrun]
    exact startsWith_of_readName hp h
  · have hmem : closer.text ∈ [Delimiter.curly.closer] := by simp [text_eq_of_isWord hcloser]
    exact Bool.eq_false_iff.mpr (not_isWord_of_mem hmem (by decide))

/-! ## Blocks -/

/-- A block is read where its parts stand one after another. -/
theorem readBlock_of_runs {attributes : List Attribute} {visibility body : List Token}
    {opener closer : Token} {tree : VisibilityTree} {names : List DeclaredName}
    (hattributes : readAttributes source run = .ok (attributes, []))
    (hwf : tree.WellFormed) (hvisibility : lexemes visibility = tree.lexemes)
    (hsettled : tree = .plain → ¬ BlockTree.LooksRestricted (lexemes type))
    (htype : Derives .type (lexemes type))
    (hopener : opener.isWord Delimiter.curly.opener = true)
    (hnames : readNames source (body ++ [closer]) = .ok (names, [closer]))
    (hcloser : closer.isWord Delimiter.curly.closer = true)
    (hp : ∀ t ∈ lexemes (visibility ++ (type ++ opener :: (body ++ [closer]))), t.Proper) :
    ∃ inner, inner.text = spelling (lexemes type) ∧
      readBlock source (run ++ (visibility ++ (type ++ opener :: (body ++ [closer])))) =
        .ok (⟨attributes, inner, tree.text, names⟩, []) := by
  have hptype : ∀ t ∈ lexemes type, t.Proper := fun t ht => hp t (by simp [lexemes_append, ht])
  obtain ⟨inner, hinner, htext⟩ :=
    @readType_of_derives (opener :: (body ++ [closer])) _ hptype htype hopener
  obtain ⟨first, others, rfl, hbegins⟩ := exists_of_derives hptype htype
  have hpub : startsWith (first :: others ++ opener :: (body ++ [closer])) "pub" = false :=
    Bool.eq_false_iff.mpr (hbegins.not_isWord (by decide))
  have hread := readVisibility_of_tree hwf hp hvisibility hpub fun hplain hlooks => by
    rw [lexemes_append, lexemes_cons] at hlooks
    exact hsettled hplain (looksRestricted_of_opener hopener hlooks)
  have hnone := @readAttributes_of_visibility source _ _ _ hvisibility hbegins
    (others ++ opener :: (body ++ [closer]))
  have hall := readAttributes_join hattributes hnone
  rw [List.append_nil] at hall
  exact ⟨inner, htext, readBlock_of_parts hall hread hinner rfl hopener hnames rfl hcloser⟩

/-- A block is read without the rest. -/
theorem readBlock_alone {block : Declaration} (hp : ∀ t ∈ lexemes (run ++ rest), t.Proper)
    (h : readBlock source (run ++ rest) = .ok (block, rest)) :
    readBlock source run = .ok (block, []) := by
  obtain ⟨tree, hwf, hsettled, hlex, -⟩ := tree_of_readBlock hp h
  have hrun := lexemes_run hlex
  rw [lexemes_append, List.forall_mem_append] at hp
  obtain ⟨t, others, rfl⟩ : ∃ t others, run = t :: others := by
    have hlength := length_of_readBlock h
    rw [List.length_append] at hlength
    exact List.exists_cons_of_length_pos (by omega)
  have haccepts : Accepts [attributes, declaredType, opening] (lexemes (t :: others)) := by
    have hend : Accepts [blocks] [] := accepts_nil.mpr (by simp [isOptional])
    have hall := accepts_blockTree hwf hsettled (hrun ▸ hp.1) hend
    rw [List.append_nil, ← hrun] at hall
    have hexpand : predict blocks t.toLexeme = expand [attributes, declaredType, opening] := rfl
    exact (accepts_of_expand hexpand).mp hall
  have htracks := @tracks_readBlock [] _ source hp.1
  cases hread : readBlock source (t :: others) with
  | error fault =>
    rw [hread] at htracks
    exact absurd haccepts htracks.rejects
  | ok result =>
    obtain ⟨block', rest'⟩ := result
    have hsame := h.symm.trans (readBlock_append hread rest)
    simp only [Except.ok.injEq, Prod.mk.injEq, List.self_eq_append_left] at hsame
    rw [hsame.1, hsame.2]

/-- The first of several blocks that are read, and the others. -/
theorem exists_of_readBlocks_cons {block : Declaration} {blocks : List Declaration}
    (h : readBlocks source ahead = .ok (block :: blocks)) :
    ∃ next, readBlock source ahead = .ok (block, next) ∧ readBlocks source next = .ok blocks := by
  cases ahead with
  | nil =>
    rw [readBlocks_nil] at h
    cases h
  | cons t ahead =>
    rw [readBlocks_cons] at h
    cases hblock : readBlock source (t :: ahead) with
    | error fault => rw [hblock] at h; cases h
    | ok result =>
      obtain ⟨first, next⟩ := result
      rw [hblock] at h
      simp only at h
      cases hblocks : readBlocks source next with
      | error fault => rw [hblocks] at h; cases h
      | ok others =>
        rw [hblocks] at h
        obtain ⟨rfl, rfl⟩ := List.cons.inj (Except.ok.inj h)
        exact ⟨next, rfl, hblocks⟩

/-- Blocks that are read from the front of the tokens are read each from its run alone. -/
theorem exists_runs_of_readBlocks {front back : List Declaration}
    (hp : ∀ t ∈ lexemes ahead, t.Proper) (h : readBlocks source ahead = .ok (front ++ back)) :
    ∃ (runs : List (List Token)) (rest : List Token), ahead = runs.flatten ++ rest ∧
      List.Forall₂ (fun run block => readBlock source run = .ok (block, [])) runs front ∧
      readBlocks source rest = .ok back := by
  induction front generalizing ahead with
  | nil => exact ⟨[], ahead, rfl, .nil, h⟩
  | cons block front ih =>
    obtain ⟨next, hblock, hblocks⟩ := exists_of_readBlocks_cons h
    obtain ⟨run, rfl⟩ := split_of_tracks (@tracks_readBlock [] _ source hp) hblock
    have hpnext := hp
    rw [lexemes_append, List.forall_mem_append] at hpnext
    obtain ⟨runs, rest, rfl, hruns, hback⟩ := ih hpnext.2 hblocks
    refine ⟨run :: runs, rest, ?_, .cons (readBlock_alone hp hblock) hruns, hback⟩
    rw [List.flatten_cons, List.append_assoc]

/-- Blocks that are read each from its run alone are read one after another. -/
theorem readBlocks_of_runs {runs : List (List Token)} {blocks others : List Declaration}
    (h : List.Forall₂ (fun run block => readBlock source run = .ok (block, [])) runs blocks)
    (hrest : readBlocks source rest = .ok others) :
    readBlocks source (runs.flatten ++ rest) = .ok (blocks ++ others) := by
  induction h with
  | nil => exact hrest
  | @cons run block runs blocks hrun _ ih =>
    rw [List.flatten_cons, List.append_assoc]
    obtain ⟨t, run, rfl⟩ := List.exists_cons_of_length_pos (length_of_readBlock hrun)
    exact readBlocks_of_readBlock (readBlock_append hrun _) ih

end Microtypes
