import Microtypes.Proofs.Grammar.TypeSoundness

/-!
# Blocks that are read are derived

Each reader above the types, when it succeeds, has gone past lexemes that its part of the grammar
derives, and what it returns matches the tree of that derivation.
-/

namespace Microtypes

open Lexeme (punct ident)

variable {source : List Char} {ahead rest : List Token}

/-! ## Paths -/

theorem separated_cons_cons {separator : Lexeme} {trailing : Bool} {first second : List Lexeme}
    {others : List (List Lexeme)} :
    separated separator trailing (first :: second :: others) =
      first ++ separator :: separated separator trailing (second :: others) := by
  simp [separated, continued]

theorem words_of_readSegments {what path : String} (hp : ∀ t ∈ lexemes ahead, t.Proper)
    (h : readSegments what ahead = .ok (path, rest)) :
    ∃ words : List Lexeme, words ≠ [] ∧ (∀ w ∈ words, w.kind = .ident) ∧
      lexemes ahead = separated (punct "::") false (words.map ([·])) ++ lexemes rest ∧
      path = "::".intercalate (words.map (·.text)) := by
  fun_induction readSegments what ahead generalizing path with
  | case1 => cases h
  | case2 => cases h
  | case3 t hk =>
    cases h
    refine ⟨[t.toLexeme], by simp, ?_, rfl, by simp⟩
    intro w hw
    rw [List.mem_singleton.mp hw]
    simpa using hk
  | case4 => cases h
  | case5 t hk separator more hsep path' after hmore ih =>
    cases h
    obtain ⟨words, hne, hwords, hlex, rfl⟩ := ih (fun u hu => hp u (.tail _ (.tail _ hu))) hmore
    obtain ⟨word, words, rfl⟩ := List.exists_cons_of_ne_nil hne
    have hseparator : separator.toLexeme = punct "::" :=
      (hp _ (.tail _ List.mem_cons_self)).eq_punct hsep rfl
    refine ⟨t.toLexeme :: word :: words, by simp, ?_, ?_, ?_⟩
    · exact List.forall_mem_cons.mpr ⟨by simpa using hk, hwords⟩
    · rw [List.map_cons, List.map_cons, separated_cons_cons, lexemes_cons, lexemes_cons, hlex,
        hseparator]
      rfl
    · simp [String.append_assoc]
  | case6 t hk separator more hsep =>
    cases h
    refine ⟨[t.toLexeme], by simp, ?_, rfl, by simp⟩
    intro w hw
    rw [List.mem_singleton.mp hw]
    simpa using hk

/-- A path that is read is a path of the grammar, and its text is that path's. -/
theorem tree_of_readPath {what path : String} (hp : ∀ t ∈ lexemes ahead, t.Proper)
    (h : readPath what ahead = .ok (path, rest)) :
    ∃ tree : PathTree, tree.WellFormed ∧ lexemes ahead = tree.lexemes ++ lexemes rest ∧
      path = tree.text := by
  unfold readPath at h
  split at h
  · next hroot =>
    have hlex := lexemes_of_startsWith hroot hp rfl
    obtain ⟨⟨segments, after⟩, hs, hend⟩ := map_eq_ok_iff.mp h
    cases hend
    have hp' := forall_of_passed hp
      (show lexemes ahead = [punct "::"] ++ lexemes ahead.tail from hlex)
    obtain ⟨words, hne, hwords, htail, hpath⟩ := words_of_readSegments hp' hs
    refine ⟨⟨true, words⟩, ⟨hne, hwords⟩, ?_, ?_⟩
    · rw [hlex, htail]
      rfl
    · rw [hpath]
      rfl
  · obtain ⟨words, hne, hwords, hlex, hpath⟩ := words_of_readSegments hp h
    refine ⟨⟨false, words⟩, ⟨hne, hwords⟩, hlex, ?_⟩
    rw [hpath, PathTree.text]
    simp

/-! ## Attributes -/

/-- The tokens inside a group that was passed. -/
theorem lexemes_insideGroup {before after : List Token} {first last : Lexeme}
    {inside : List Lexeme} (h : lexemes before = first :: inside ++ [last] ++ lexemes after) :
    lexemes (insideGroup before after) = inside := by
  have hpassed := lexemes_passed h
  simp only [lexemes] at hpassed
  simp only [insideGroup, lexemes, List.map_dropLast, List.map_tail, hpassed]
  simp

theorem tree_of_readForm {form : AttributeForm} (hp : ∀ t ∈ lexemes ahead, t.Proper)
    (h : readForm ahead = .ok (form, rest)) :
    ∃ tree : FormTree, tree.WellFormed ∧ lexemes ahead = tree.lexemes ++ lexemes rest ∧
      tree.Matches form := by
  cases ahead with
  | nil => cases h; exact ⟨.bare, trivial, rfl, trivial⟩
  | cons t others =>
    simp only [readForm] at h
    split at h
    · next d hd =>
      obtain ⟨after, hgroup, hend⟩ := map_eq_ok_iff.mp h
      cases hend
      obtain ⟨t', others', d', inside, heq, hd', hin, hlex⟩ := isGroup_of_passGroup hgroup
      cases heq
      cases hd.symm.trans hd'
      exact ⟨.delimited d inside, hin, hlex, rfl, lexemes_insideGroup hlex⟩
    · split at h
      · next hequals =>
        cases huntil : passUntil "]" others with
        | error fault => rw [huntil] at h; cases h
        | ok after =>
          rw [huntil] at h
          simp only at h
          split at h
          · cases h
          · next hlength =>
            cases h
            obtain ⟨value, hvalue, hbalanced, -⟩ := balanced_of_passUntil huntil
            have hne : value ≠ [] := by
              rintro rfl
              have := congrArg List.length hvalue
              simp only [length_lexemes, List.nil_append] at this
              exact hlength this.symm
            refine ⟨.assigned value, ⟨hbalanced, hne⟩, ?_, lexemes_passed hvalue⟩
            rw [lexemes_cons, hvalue, (hp _ List.mem_cons_self).eq_punct hequals rfl]
            rfl
      · cases h
        exact ⟨.bare, trivial, rfl, trivial⟩

theorem tree_of_readAfterMark {mark : Token} {attr : Attribute}
    (hp : ∀ t ∈ lexemes ahead, t.Proper)
    (h : readAfterMark source mark ahead = .ok (attr, rest)) :
    ∃ tree : AttributeTree, tree.WellFormed ∧
      punct "#" :: lexemes ahead = tree.lexemes ++ lexemes rest ∧ tree.Matches attr := by
  cases parts_of_readAfterMark h with
  | parts hbang hopen hpath hform hclose =>
    have hbracket := lexemes_of_readWord hopen hp rfl
    have hpinside := forall_of_passed hp hbracket
    obtain ⟨path, hpathWf, hpathLex, hpathText⟩ := tree_of_readPath hpinside hpath
    have hpform := forall_of_passed hpinside hpathLex
    obtain ⟨form, hformWf, hformLex, hformMatches⟩ := tree_of_readForm hpform hform
    have hend := lexemes_of_readWord hclose (forall_of_passed hpform hformLex) rfl
    refine ⟨.marked path form, ⟨hpathWf, hformWf⟩, ?_, hpathText, hformMatches⟩
    rw [hbracket, hpathLex, hformLex, hend]
    simp [AttributeTree.lexemes]

/-- Attributes that are read are attributes of the grammar. -/
theorem trees_of_readAttributes {attributes : List Attribute} (hp : ∀ t ∈ lexemes ahead, t.Proper)
    (h : readAttributes source ahead = .ok (attributes, rest)) :
    ∃ trees : List AttributeTree, (∀ a ∈ trees, a.WellFormed) ∧
      lexemes ahead = trees.flatMap AttributeTree.lexemes ++ lexemes rest ∧
      List.Forall₂ AttributeTree.Matches trees attributes := by
  fun_induction readAttributes source ahead generalizing attributes with
  | case1 => cases h; exact ⟨[], by simp, rfl, .nil⟩
  | case2 => cases h
  | case3 t tokens hdoc others after hothers ih =>
    cases h
    obtain ⟨trees, hwf, hlex, hmatches⟩ := ih (fun u hu => hp u (.tail _ hu)) hothers
    refine ⟨.doc t.toLexeme :: trees, List.forall_mem_cons.mpr ⟨hdoc, hwf⟩, ?_,
      .cons ⟨rfl, rfl, rfl⟩ hmatches⟩
    rw [lexemes_cons, hlex]
    rfl
  | case4 => cases h
  | case5 => cases h
  | case6 t tokens hdoc hmark attr next hnext others after hothers ih =>
    cases h
    have hptail : ∀ u ∈ lexemes tokens, u.Proper := fun u hu => hp u (.tail _ hu)
    obtain ⟨tree, htreeWf, htreeLex, htreeMatches⟩ := tree_of_readAfterMark hptail hnext
    rw [← eq_punct_of_isPunct hmark] at htreeLex
    have hpnext := forall_of_passed hp htreeLex
    obtain ⟨trees, hwf, hlex, hmatches⟩ := ih hpnext hothers
    refine ⟨tree :: trees, List.forall_mem_cons.mpr ⟨htreeWf, hwf⟩, ?_, .cons htreeMatches hmatches⟩
    rw [lexemes_cons, htreeLex, hlex]
    simp
  | case7 => cases h; exact ⟨[], by simp, rfl, .nil⟩

/-! ## Names -/

theorem tree_of_readName {name : DeclaredName} (hp : ∀ t ∈ lexemes ahead, t.Proper)
    (h : readName source ahead = .ok (name, rest)) :
    ∃ tree : NameTree, tree.WellFormed ∧ lexemes ahead = tree.lexemes ++ lexemes rest ∧
      tree.Matches name := by
  cases parts_of_readName h with
  | @parts attributes t hattributes hname =>
    obtain ⟨trees, hwf, hlex, hmatches⟩ := trees_of_readAttributes hp hattributes
    refine ⟨⟨trees, t.toLexeme⟩, ⟨hwf, nameFault?_eq_none_iff.mp hname⟩, ?_, rfl, hmatches⟩
    rw [hlex, lexemes_cons]
    simp [NameTree.lexemes]

/-- Names that are read are names of the grammar. -/
theorem trees_of_readNames {names : List DeclaredName} (hp : ∀ t ∈ lexemes ahead, t.Proper)
    (h : readNames source ahead = .ok (names, rest)) :
    ∃ (trees : List NameTree) (trailing : Bool), (∀ n ∈ trees, n.WellFormed) ∧
      lexemes ahead =
        separated (punct ",") trailing (trees.map NameTree.lexemes) ++ lexemes rest ∧
      List.Forall₂ NameTree.Matches trees names := by
  fun_induction readNames source ahead generalizing names with
  | case1 => cases h; exact ⟨[], false, by simp, rfl, .nil⟩
  | case2 => cases h
  | case3 => cases h
  | case4 ahead _ name next hname hcomma names' rest' hnames ih =>
    cases h
    obtain ⟨tree, htreeWf, htreeLex, htreeMatches⟩ := tree_of_readName hp hname
    have hpnext := forall_of_passed hp htreeLex
    have hseparator := lexemes_of_startsWith hcomma hpnext rfl
    have hptail := forall_of_passed hpnext
      (show lexemes next = [punct ","] ++ lexemes next.tail from hseparator)
    obtain ⟨trees, trailing, hwf, hlex, hmatches⟩ := ih hptail hnames
    have hwf' := List.forall_mem_cons.mpr ⟨htreeWf, hwf⟩
    cases trees with
    | nil =>
      refine ⟨[tree], true, hwf', ?_, .cons htreeMatches hmatches⟩
      rw [htreeLex, hseparator, hlex]
      simp [separated, continued]
    | cons second trees =>
      refine ⟨tree :: second :: trees, trailing, hwf', ?_, .cons htreeMatches hmatches⟩
      rw [htreeLex, hseparator, hlex]
      simp [separated, continued]
  | case5 ahead _ name next hname _ =>
    cases h
    obtain ⟨tree, htreeWf, htreeLex, htreeMatches⟩ := tree_of_readName hp hname
    refine ⟨[tree], false, List.forall_mem_cons.mpr ⟨htreeWf, by simp⟩, ?_,
      .cons htreeMatches .nil⟩
    rw [htreeLex]
    simp [separated, continued]

/-! ## Visibilities -/

theorem startsWith_of_lexemes {t : Lexeme} {ts : List Lexeme} {text : String}
    (h : lexemes ahead = t :: ts) (ht : t.isWord text = true) : startsWith ahead text = true := by
  cases ahead with
  | nil => cases h
  | cons u us =>
    cases h
    exact ht

/-- A type that looks like a restriction begins with a round bracket. -/
theorem startsWith_of_looksRestricted (h : BlockTree.LooksRestricted (lexemes ahead)) :
    startsWith ahead "(" = true := by
  obtain ⟨word, -, tail, htail⟩ | ⟨tail, htail⟩ := h
  · exact startsWith_of_lexemes htail.symm rfl
  · exact startsWith_of_lexemes htail.symm rfl

/-- What looks like a restriction does so however much follows. -/
theorem looksRestricted_of_isPrefix {inner all : List Lexeme}
    (h : BlockTree.LooksRestricted inner) (hall : inner <+: all) :
    BlockTree.LooksRestricted all := by
  obtain ⟨word, hword, hscope⟩ | hin := h
  · exact .inl ⟨word, hword, hscope.trans hall⟩
  · exact .inr (hin.trans hall)

/-- A visibility that is read is one of the grammar, and where it is `pub` by itself what follows
does not look like a restriction of it. -/
theorem tree_of_readVisibility {visibility : String} (hp : ∀ t ∈ lexemes ahead, t.Proper)
    (h : readVisibility ahead = .ok (visibility, rest)) :
    ∃ tree : VisibilityTree, tree.WellFormed ∧ lexemes ahead = tree.lexemes ++ lexemes rest ∧
      visibility = tree.text ∧
      (tree = .plain → ¬ BlockTree.LooksRestricted (lexemes rest)) := by
  unfold readVisibility at h
  split at h
  · cases h
    exact ⟨.hidden, trivial, rfl, rfl, by rintro ⟨⟩⟩
  · next hpub =>
    obtain ⟨t, after, rfl, hword⟩ := exists_of_startsWith (by simpa using hpub)
    have hplain : lexemes (t :: after) = [ident "pub"] ++ lexemes after := by
      rw [lexemes_cons, (hp _ List.mem_cons_self).eq_ident hword rfl]
      rfl
    have hpafter := forall_of_passed hp hplain
    rw [List.tail_cons] at h
    split at h
    · next hround =>
      cases h
      refine ⟨.plain, trivial, hplain, rfl, fun _ hlooks => ?_⟩
      rw [startsWith_of_looksRestricted hlooks] at hround
      cases hround
    · next hround =>
      have hopen := lexemes_of_startsWith (by simpa using hround) hpafter rfl
      split at h
      · next htail =>
        cases h
        refine ⟨.plain, trivial, hplain, rfl, fun _ hlooks => ?_⟩
        rw [hopen, htail] at hlooks
        obtain ⟨word, -, tail, h⟩ | ⟨tail, h⟩ := hlooks <;> cases h
      · next scope tokens htail =>
        rw [htail] at hopen
        have hprest := forall_of_passed hpafter
          (show lexemes after = [punct "("] ++ lexemes (scope :: tokens) from hopen)
        split at h
        · next hscope =>
          obtain ⟨hk, hmem, hclose⟩ := hscope
          cases h
          have hclosing := lexemes_of_startsWith hclose
            (fun u hu => hprest u (.tail _ hu)) rfl
          have hword : scope.toLexeme = ident scope.text := by rw [ident, ← hk]
          refine ⟨.scope scope.text, hmem, ?_, rfl, by rintro ⟨⟩⟩
          rw [hplain, hopen, lexemes_cons, hclosing, hword]
          rfl
        · next hscope =>
          split at h
          · next hin =>
            have hword := (hprest _ List.mem_cons_self).eq_ident hin rfl
            have hptokens : ∀ u ∈ lexemes tokens, u.Proper := fun u hu => hprest u (.tail _ hu)
            split at h
            · cases h
            · next path atClose hpath =>
              obtain ⟨tree, hwf, hlex, rfl⟩ := tree_of_readPath hptokens hpath
              obtain ⟨rfl, hclosing⟩ :=
                lexemes_of_map_passWord h (forall_of_passed hptokens hlex) rfl
              refine ⟨.within tree, hwf, ?_, rfl, by rintro ⟨⟩⟩
              rw [hplain, hopen, lexemes_cons, hword, hlex, hclosing]
              simp [VisibilityTree.lexemes]
          · next hin =>
            cases h
            refine ⟨.plain, trivial, hplain, rfl, fun _ hlooks => ?_⟩
            rw [hopen, lexemes_cons] at hlooks
            obtain ⟨word, hmem, hprefix⟩ | hprefix := hlooks
            · rw [List.cons_prefix_cons, List.cons_prefix_cons] at hprefix
              obtain ⟨-, hword, tail, hclose⟩ := hprefix
              have hk := congrArg Lexeme.kind hword
              have ht := congrArg Lexeme.text hword
              exact hscope ⟨hk.symm, by rwa [← ht], startsWith_of_lexemes hclose.symm rfl⟩
            · rw [List.cons_prefix_cons, List.cons_prefix_cons] at hprefix
              rw [← hprefix.2.1] at hin
              exact hin rfl

/-! ## Blocks -/

/-- A block that is read is a block of the grammar. -/
theorem tree_of_readBlock {block : Declaration} (hp : ∀ t ∈ lexemes ahead, t.Proper)
    (h : readBlock source ahead = .ok (block, rest)) :
    ∃ tree : BlockTree, tree.WellFormed ∧ tree.Settled ∧
      lexemes ahead = tree.lexemes ++ lexemes rest ∧ tree.Matches block := by
  cases parts_of_readBlock h with
  | parts hattributes hvisibility htype hopen hnames hclose =>
    obtain ⟨attributes, hattributesWf, hattributesLex, hattributesMatch⟩ :=
      trees_of_readAttributes hp hattributes
    have hpvisibility := forall_of_passed hp hattributesLex
    obtain ⟨visibility, hvisibilityWf, hvisibilityLex, hvisibilityText, hsettled⟩ :=
      tree_of_readVisibility hpvisibility hvisibility
    have hptype := forall_of_passed hpvisibility hvisibilityLex
    obtain ⟨inner, hinnerLex, hinner, hinnerText⟩ := derives_of_readType hptype htype
    have hpopen := forall_of_passed hptype hinnerLex
    have hopening := lexemes_of_readWord hopen hpopen rfl
    have hpnames := forall_of_passed hpopen hopening
    obtain ⟨names, trailing, hnamesWf, hnamesLex, hnamesMatch⟩ := trees_of_readNames hpnames hnames
    have hclosing := lexemes_of_readWord hclose (forall_of_passed hpnames hnamesLex) rfl
    refine ⟨⟨attributes, visibility, inner, names, trailing⟩,
      ⟨hattributesWf, hvisibilityWf, hinner, hnamesWf⟩, fun hplain hlooks => ?_, ?_,
      hattributesMatch, hvisibilityText, hinnerText, hnamesMatch⟩
    · refine hsettled hplain (looksRestricted_of_isPrefix hlooks ?_)
      rw [hinnerLex]
      exact List.prefix_append ..
    · rw [hattributesLex, hvisibilityLex, hinnerLex, hopening, hnamesLex, hclosing]
      simp [BlockTree.lexemes]

/-- Blocks that are read are blocks of the grammar, and all tokens belong to them. -/
theorem trees_of_readBlocks {blocks : List Declaration} (hp : ∀ t ∈ lexemes ahead, t.Proper)
    (h : readBlocks source ahead = .ok blocks) :
    ∃ trees : List BlockTree, DerivedAs trees (lexemes ahead) ∧ (∀ b ∈ trees, b.Settled) ∧
      List.Forall₂ BlockTree.Matches trees blocks := by
  fun_induction readBlocks source ahead generalizing blocks with
  | case1 => cases h; exact ⟨[], ⟨by simp, rfl⟩, by simp, .nil⟩
  | case2 => cases h
  | case3 => cases h
  | case4 first others block rest hblock blocks' hblocks ih =>
    cases h
    obtain ⟨tree, hwf, hsettled, hlex, hmatches⟩ := tree_of_readBlock hp hblock
    obtain ⟨trees, ⟨hwfs, hlexs⟩, hsettleds, hmatchess⟩ := ih (forall_of_passed hp hlex) hblocks
    refine ⟨tree :: trees, ⟨List.forall_mem_cons.mpr ⟨hwf, hwfs⟩, ?_⟩,
      List.forall_mem_cons.mpr ⟨hsettled, hsettleds⟩, .cons hmatches hmatchess⟩
    rw [hlex, hlexs]
    rfl

end Microtypes
