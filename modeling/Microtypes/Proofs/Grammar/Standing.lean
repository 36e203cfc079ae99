import Microtypes.Proofs.Grammar.Acceptance
import Microtypes.Proofs.Grammar.Extension
import Microtypes.Proofs.Token.Tiling

/-!
# Where blocks stand in a source

The tokens of a source that is read are those of its blocks, one block after another, and the tokens
of a block are those of its parts (`standAs_of_readBlocks`). An attribute is a run of tokens, and
its text is what stands in the source from the first of them to the last one. A part is read from
its run alone as it was read in front of the rest.
-/

namespace Microtypes

open Lexeme (punct ident)
open Microtypes.Symbol Move

variable {source : List Char} {ahead rest run : List Token}

/-- Whether an attribute stands in a source as a run of tokens. -/
structure Attribute.StandsAs (source : List Char) (run : List Token) (a : Attribute) : Prop where
  /-- The tokens are an attribute of the grammar, with the same path and form. -/
  derived : ∃ tree : AttributeTree, tree.WellFormed ∧ lexemes run = tree.lexemes ∧ tree.Matches a
  /-- The text is verbatim. -/
  text : ∃ first last, run.head? = some first ∧ run.getLast? = some last ∧
    a.location = first.location ∧ a.text = String.ofList (slice source first.start last.stop)

/-- Whether an attribute stands in a source as a run of tokens from which nothing else is read. -/
structure Attribute.StandsAlone (source : List Char) (run : List Token) (a : Attribute) : Prop
    extends Attribute.StandsAs source run a where
  alone : readAttributes source run = .ok ([a], [])

/-- Whether a declared name stands in a source as a run of tokens: those of its attributes, and the
name. -/
inductive DeclaredName.StandsAs (source : List Char) : List Token → DeclaredName → Prop
  | mk {runs : List (List Token)} {attributes : List Attribute} {t : Token}
      (hattributes : List.Forall₂ (Attribute.StandsAs source) runs attributes)
      (hname : nameFault? t.toLexeme = none) :
      StandsAs source (runs.flatten ++ [t]) ⟨t.text, attributes, t.location⟩

/-- Whether names stand in a source as a run of tokens: those of each name, with commas between them
and perhaps after the last one. -/
inductive NamesStandAs (source : List Char) : List Token → List DeclaredName → Prop
  | nil : NamesStandAs source [] []
  | last {run : List Token} {decl : DeclaredName} (h : decl.StandsAs source run) :
      NamesStandAs source run [decl]
  | cons {run rest : List Token} {comma : Token} {decl : DeclaredName} {names : List DeclaredName}
      (h : decl.StandsAs source run) (hcomma : comma.isWord "," = true)
      (hnames : NamesStandAs source rest names) :
      NamesStandAs source (run ++ comma :: rest) (decl :: names)

/-- Whether a block stands in a source as a run of tokens: those of its attributes, its visibility
and its type, and then the names in curly brackets. -/
inductive Declaration.StandsAs (source : List Char) : List Token → Declaration → Prop
  | mk {runs : List (List Token)} {visibility type names : List Token} {opener closer : Token}
      {block : Declaration}
      (hattributes : List.Forall₂ (Attribute.StandsAs source) runs block.attributes)
      (hvisibility : ∃ tree : VisibilityTree, tree.WellFormed ∧
        lexemes visibility = tree.lexemes ∧ block.visibility = tree.text)
      (htype : Derives .type (lexemes type) ∧ block.inner.text = spelling (lexemes type))
      (hopener : opener.isWord Delimiter.curly.opener = true)
      (hnames : NamesStandAs source names block.names)
      (hcloser : closer.isWord Delimiter.curly.closer = true) :
      StandsAs source (runs.flatten ++ visibility ++ type ++ opener :: names ++ [closer]) block

/-! ## Parts that are read alone -/

/-- Whether a declared name stands in a source as a run of tokens from which nothing else is read:
the runs of its attributes, and the name. -/
inductive DeclaredName.StandsAlone (source : List Char) : List Token → DeclaredName → Prop
  | mk {runs : List (List Token)} {attributes : List Attribute} {t : Token}
      (hattributes : List.Forall₂ (Attribute.StandsAlone source) runs attributes)
      (hname : nameFault? t.toLexeme = none) :
      StandsAlone source (runs.flatten ++ [t]) ⟨t.text, attributes, t.location⟩

/-- Whether runs of tokens follow one another with commas between them and perhaps after the last
one. -/
inductive Punctuated : List (List Token) → List Token → Prop
  | nil : Punctuated [] []
  | last (run : List Token) : Punctuated [run] run
  | cons {run rest : List Token} {runs : List (List Token)} {comma : Token}
      (hcomma : comma.isWord "," = true) (h : Punctuated runs rest) :
      Punctuated (run :: runs) (run ++ comma :: rest)

/-- The tokens of a block, part by part. -/
structure BlockParts where
  attributes : List (List Token)
  visibility : List Token
  type : List Token
  opener : Token
  /-- The tokens of each name. -/
  names : List (List Token)
  /-- What stands in the brackets: the names and the commas. -/
  body : List Token
  closer : Token

namespace BlockParts

/-- What stands in front of the brackets. -/
def stem (p : BlockParts) : List Token :=
  p.attributes.flatten ++ p.visibility ++ p.type

/-- All tokens of the block. -/
def tokens (p : BlockParts) : List Token :=
  p.stem ++ p.opener :: p.body ++ [p.closer]

/-- Whether a block stands in a source with these parts. -/
structure StandFor (source : List Char) (p : BlockParts) (block : Declaration) : Prop where
  attributes : List.Forall₂ (Attribute.StandsAlone source) p.attributes block.attributes
  visibility : ∃ tree : VisibilityTree, tree.WellFormed ∧ lexemes p.visibility = tree.lexemes ∧
    block.visibility = tree.text ∧
    (tree = .plain → ¬ BlockTree.LooksRestricted (lexemes p.type))
  derives : Derives .type (lexemes p.type)
  inner : block.inner.text = spelling (lexemes p.type)
  opener : p.opener.isWord Delimiter.curly.opener = true
  punctuated : Punctuated p.names p.body
  names : List.Forall₂ (DeclaredName.StandsAlone source) p.names block.names
  closer : p.closer.isWord Delimiter.curly.closer = true

end BlockParts

theorem DeclaredName.StandsAlone.standsAs {decl : DeclaredName} (h : decl.StandsAlone source run) :
    decl.StandsAs source run := by
  cases h with
  | mk hattributes hname =>
    exact .mk (hattributes.imp fun _ _ hstands => hstands.toStandsAs) hname

theorem namesStandAs_of_punctuated {runs : List (List Token)} {body : List Token}
    {names : List DeclaredName} (h : Punctuated runs body)
    (hnames : List.Forall₂ (DeclaredName.StandsAlone source) runs names) :
    NamesStandAs source body names := by
  induction h generalizing names with
  | nil =>
    cases hnames
    exact .nil
  | last run =>
    obtain ⟨decl, _, hdecl, ⟨⟩, rfl⟩ := List.forall₂_cons_left_iff.mp hnames
    exact .last hdecl.standsAs
  | cons hcomma _ ih =>
    obtain ⟨decl, others, hdecl, hothers, rfl⟩ := List.forall₂_cons_left_iff.mp hnames
    exact .cons hdecl.standsAs hcomma (ih hothers)

theorem BlockParts.StandFor.standsAs {p : BlockParts} {block : Declaration}
    (h : p.StandFor source block) : block.StandsAs source p.tokens := by
  obtain ⟨tree, hwf, hlex, htext, -⟩ := h.visibility
  exact .mk (h.attributes.imp fun _ _ hstands => hstands.toStandsAs) ⟨tree, hwf, hlex, htext⟩
    ⟨h.derives, h.inner⟩ h.opener (namesStandAs_of_punctuated h.punctuated h.names) h.closer

/-! ## Readers -/

/-- What a reader goes past stands in front of what is ahead then. -/
theorem split_of_tracks {α : Type} {K L : List Symbol} {read : Reads α} {a : α}
    (h : Tracks K ahead L (read.map Prod.snd)) (hread : read = .ok (a, rest)) :
    ∃ run, ahead = run ++ rest := by
  rw [hread] at h
  obtain ⟨run, hrun, -⟩ := h
  exact ⟨run, hrun⟩

theorem lexemes_run {run : List Token} {taken : List Lexeme}
    (h : lexemes (run ++ rest) = taken ++ lexemes rest) : lexemes run = taken := by
  rw [lexemes_append] at h
  exact List.append_cancel_right h

/-- The tokens of an attribute after its mark. -/
theorem run_of_readAfterMark {mark : Token} {attr : Attribute}
    (h : readAfterMark source mark ahead = .ok (attr, rest)) :
    ∃ inner closer, ahead = inner ++ [closer] ++ rest ∧ attr.location = mark.location ∧
      attr.text = String.ofList (slice source mark.start closer.stop) := by
  cases parts_of_readAfterMark h with
  | @parts opener closer inside afterPath atClose _ _ hbang hopen hpath hform hclose =>
    obtain ⟨path, hpathRun⟩ := split_of_tracks (@tracks_readPath [] _ _) hpath
    obtain ⟨form, hformRun⟩ := split_of_tracks (@tracks_readForm [] _) hform
    refine ⟨opener :: path ++ form, closer, ?_, rfl, rfl⟩
    rw [(eq_cons_of_readWord hopen).1, hpathRun, hformRun, (eq_cons_of_readWord hclose).1]
    simp

/-- What an attribute was read from is read as that attribute without the rest. -/
theorem readAfterMark_alone {mark : Token} {a : Attribute} {tree : AttributeTree}
    (hmark : mark.isPunct "#" = true) (hp : ∀ t ∈ lexemes (mark :: run), t.Proper)
    (hwf : tree.WellFormed) (hlex : lexemes (mark :: run) = tree.lexemes)
    (h : readAfterMark source mark (run ++ rest) = .ok (a, rest)) :
    readAfterMark source mark run = .ok (a, []) := by
  have haccepts : Accepts [attributes] (lexemes (mark :: run)) := by
    have hend : Accepts [attributes] [] := accepts_nil.mpr (by simp [isOptional])
    have hall := accepts_attributeTree hwf (hlex ▸ hp) hend
    rwa [List.append_nil, ← hlex] at hall
  have hshift : predict attributes mark.toLexeme = shift [attributeBody, attributes] := by
    rw [eq_punct_of_isPunct hmark]
    decide
  have hbody : Accepts [attributeBody, attributes] (lexemes run) := (accepts_of_shift hshift).mp
    haccepts
  have htracks := @tracks_readAfterMark [attributes] run source mark
  cases hread : readAfterMark source mark run with
  | error fault =>
    rw [hread] at htracks
    exact absurd hbody htracks.rejects
  | ok result =>
    obtain ⟨a', rest'⟩ := result
    have hsame := h.symm.trans (readAfterMark_append hread rest)
    simp only [Except.ok.injEq, Prod.mk.injEq, List.self_eq_append_left] at hsame
    rw [hsame.1, hsame.2]

theorem standsAlone_doc {t : Token} (hdoc : t.kind = .doc) (ht : t.StandsIn source) :
    Attribute.StandsAlone source [t] ⟨"doc", .bare, t.text, t.location⟩ where
  derived := ⟨.doc t.toLexeme, hdoc, rfl, rfl, rfl, rfl⟩
  text := ⟨t, t, rfl, rfl, rfl, ht.text⟩
  alone := by
    rw [Likeness.readAttributes_eq_bind, if_pos hdoc, readAttributes_nil]
    rfl

theorem standsAlone_of_readAfterMark {mark : Token} {a : Attribute}
    (hp : ∀ t ∈ lexemes (mark :: ahead), t.Proper) (hmark : mark.isPunct "#" = true)
    (h : readAfterMark source mark ahead = .ok (a, rest)) :
    ∃ run, mark :: ahead = run ++ rest ∧ a.StandsAlone source run := by
  have hdoc : mark.kind ≠ .doc := by
    rw [eq_punct_of_isPunct hmark]
    decide
  obtain ⟨inner, closer, rfl, hlocation, htext⟩ := run_of_readAfterMark h
  obtain ⟨tree, hwf, hlex, hmatches⟩ := tree_of_readAfterMark (fun t ht => hp t (.tail _ ht)) h
  rw [← eq_punct_of_isPunct hmark] at hlex
  have hlexrun : lexemes (mark :: inner ++ [closer]) = tree.lexemes := lexemes_run hlex
  rw [← List.cons_append, lexemes_append, List.forall_mem_append] at hp
  have halone := readAfterMark_alone hmark hp.1 hwf hlexrun h
  exact ⟨mark :: inner ++ [closer], rfl, ⟨⟨tree, hwf, hlexrun, hmatches⟩, mark, closer, rfl,
    List.getLast?_concat, hlocation, htext⟩,
    readAttributes_of_mark hdoc hmark halone readAttributes_nil⟩

theorem insideGroup_subset (before after : List Token) : insideGroup before after ⊆ before :=
  fun _ ht => List.mem_of_mem_take (List.mem_of_mem_tail (List.dropLast_subset _ ht))

theorem arguments_subset_of_readForm {a : Attribute} (h : readForm ahead = .ok (a.form, rest)) :
    a.arguments ⊆ ahead := by
  unfold Attribute.arguments
  cases ahead with
  | nil =>
    have hbare : AttributeForm.bare = a.form := congrArg Prod.fst (Except.ok.inj h)
    rw [← hbare]
    exact List.nil_subset _
  | cons t tokens =>
    simp only [readForm] at h
    split at h
    · obtain ⟨after, -, hend⟩ := map_eq_ok_iff.mp h
      rw [← (Prod.mk.inj hend).1]
      exact insideGroup_subset _ _
    · split at h
      · split at h
        · cases h
        · split at h
          · cases h
          · simp only [Except.ok.injEq, Prod.mk.injEq] at h
            rw [← h.1]
            exact fun u hu => List.mem_cons_of_mem _ (List.mem_of_mem_take hu)
      · simp only [Except.ok.injEq, Prod.mk.injEq] at h
        rw [← h.1]
        exact List.nil_subset _

/-- The arguments of an attribute are tokens that it was read from. -/
theorem arguments_subset_of_readAfterMark {mark : Token} {a : Attribute}
    (h : readAfterMark source mark ahead = .ok (a, rest)) : a.arguments ⊆ ahead := by
  cases parts_of_readAfterMark h with
  | parts hbang hopen hpath hform hclose =>
    obtain ⟨path, hpathRun⟩ := split_of_tracks (@tracks_readPath [] _ _) hpath
    rw [(eq_cons_of_readWord hopen).1, hpathRun]
    intro u hu
    exact List.mem_cons_of_mem _ (List.mem_append_right _ (arguments_subset_of_readForm hform hu))

theorem arguments_subset_of_readAttributes {attributes : List Attribute} {a : Attribute}
    (h : readAttributes source ahead = .ok (attributes, rest)) (ha : a ∈ attributes) :
    a.arguments ⊆ ahead := by
  fun_induction readAttributes source ahead generalizing attributes with
  | case1 =>
    cases h
    cases ha
  | case2 => cases h
  | case3 t ahead _ others after hothers ih =>
    cases h
    rcases List.mem_cons.mp ha with rfl | ha
    · exact List.nil_subset _
    · exact fun u hu => List.mem_cons_of_mem _ (ih hothers ha hu)
  | case4 => cases h
  | case5 => cases h
  | case6 t ahead _ _ attr next hnext others after hothers ih =>
    cases h
    rcases List.mem_cons.mp ha with rfl | ha
    · exact fun u hu => List.mem_cons_of_mem _ (arguments_subset_of_readAfterMark hnext hu)
    · obtain ⟨inner, closer, rfl, -, -⟩ := run_of_readAfterMark hnext
      exact fun u hu => List.mem_cons_of_mem _ (List.mem_append_right _ (ih hothers ha hu))
  | case7 =>
    cases h
    cases ha

theorem Attribute.StandsAlone.arguments_subset {a : Attribute} (h : a.StandsAlone source run) :
    a.arguments ⊆ run :=
  arguments_subset_of_readAttributes h.alone List.mem_cons_self

/-- Attributes that are read stand where they were read, each by itself. -/
theorem standsAlone_of_readAttributes {attributes : List Attribute}
    (hp : ∀ t ∈ lexemes ahead, t.Proper) (hin : ∀ t ∈ ahead, t.StandsIn source)
    (h : readAttributes source ahead = .ok (attributes, rest)) :
    ∃ runs : List (List Token), ahead = runs.flatten ++ rest ∧
      List.Forall₂ (Attribute.StandsAlone source) runs attributes := by
  fun_induction readAttributes source ahead generalizing attributes with
  | case1 =>
    cases h
    exact ⟨[], rfl, .nil⟩
  | case2 => cases h
  | case3 t ahead hdoc others after hothers ih =>
    cases h
    obtain ⟨ht, hin⟩ := List.forall_mem_cons.mp hin
    obtain ⟨runs, rfl, hruns⟩ := ih (fun u hu => hp u (.tail _ hu)) hin hothers
    exact ⟨[t] :: runs, rfl, .cons (standsAlone_doc hdoc ht) hruns⟩
  | case4 => cases h
  | case5 => cases h
  | case6 t ahead _ hmark attr next hnext others after hothers ih =>
    cases h
    obtain ⟨run, hrun, hstands⟩ := standsAlone_of_readAfterMark hp hmark hnext
    rw [hrun, lexemes_append, List.forall_mem_append] at hp
    rw [hrun, List.forall_mem_append] at hin
    obtain ⟨runs, rfl, hruns⟩ := ih hp.2 hin.2 hothers
    refine ⟨run :: runs, ?_, .cons hstands hruns⟩
    rw [hrun, List.flatten_cons, List.append_assoc]
  | case7 =>
    cases h
    exact ⟨[], rfl, .nil⟩

theorem standsAlone_of_readName {decl : DeclaredName} (hp : ∀ t ∈ lexemes ahead, t.Proper)
    (hin : ∀ t ∈ ahead, t.StandsIn source) (h : readName source ahead = .ok (decl, rest)) :
    ∃ run, ahead = run ++ rest ∧ decl.StandsAlone source run := by
  cases parts_of_readName h with
  | parts hattributes hname =>
    obtain ⟨runs, hrun, hruns⟩ := standsAlone_of_readAttributes hp hin hattributes
    refine ⟨_, ?_, .mk hruns hname⟩
    rw [hrun]
    simp

/-- Names that are read stand where they were read, each by itself. -/
theorem standAlone_of_readNames {names : List DeclaredName} (hp : ∀ t ∈ lexemes ahead, t.Proper)
    (hin : ∀ t ∈ ahead, t.StandsIn source) (h : readNames source ahead = .ok (names, rest)) :
    ∃ runs body, ahead = body ++ rest ∧ Punctuated runs body ∧
      List.Forall₂ (DeclaredName.StandsAlone source) runs names := by
  fun_induction readNames source ahead generalizing names with
  | case1 =>
    cases h
    exact ⟨[], [], rfl, .nil, .nil⟩
  | case2 => cases h
  | case3 => cases h
  | case4 ahead _ name next hname hcomma names' rest' hnames ih =>
    cases h
    obtain ⟨run, rfl, hrun⟩ := standsAlone_of_readName hp hin hname
    obtain ⟨comma, next, rfl, hword⟩ := exists_of_startsWith hcomma
    rw [lexemes_append] at hp
    obtain ⟨runs, later, hlater, hbody, hruns⟩ := ih
      (fun t ht => hp t (List.mem_append_right _ (.tail _ ht)))
      (fun t ht => hin t (List.mem_append_right _ (.tail _ ht))) hnames
    rw [List.tail_cons] at hlater
    refine ⟨run :: runs, run ++ comma :: later, ?_, .cons hword hbody, .cons hrun hruns⟩
    rw [hlater]
    simp
  | case5 ahead _ name next hname _ =>
    cases h
    obtain ⟨run, hahead, hrun⟩ := standsAlone_of_readName hp hin hname
    exact ⟨[run], run, hahead, .last run, .cons hrun .nil⟩

/-- A block that is read stands where it was read, with its parts. -/
theorem exists_parts_of_readBlock {block : Declaration} (hp : ∀ t ∈ lexemes ahead, t.Proper)
    (hin : ∀ t ∈ ahead, t.StandsIn source) (h : readBlock source ahead = .ok (block, rest)) :
    ∃ p : BlockParts, ahead = p.tokens ++ rest ∧ p.StandFor source block := by
  have proper_rest {run rest : List Token} (hp : ∀ t ∈ lexemes (run ++ rest), t.Proper) :
      ∀ t ∈ lexemes rest, t.Proper := by
    rw [lexemes_append] at hp
    exact (List.forall_mem_append.mp hp).2
  cases parts_of_readBlock h with
  | parts hattributes hvisibility htype hopen hnames hclose =>
    obtain ⟨runs, rfl, hruns⟩ := standsAlone_of_readAttributes hp hin hattributes
    have hpvisibility := proper_rest hp
    obtain ⟨visibility, hvisibilityRun⟩ :=
      split_of_tracks (@tracks_readVisibility [] _ hpvisibility) hvisibility
    obtain ⟨tree, hwf, hlex, htext, hsettled⟩ := tree_of_readVisibility hpvisibility hvisibility
    rw [hvisibilityRun] at hlex hpvisibility hin
    have hptype := proper_rest hpvisibility
    obtain ⟨type, htypeRun⟩ := split_of_tracks (@tracks_readType [] _ hptype) htype
    obtain ⟨inner, hinnerLex, hinner, hinnerText⟩ := derives_of_readType hptype htype
    rw [htypeRun] at hinnerLex hptype hin hsettled
    have hpopen := proper_rest hptype
    obtain ⟨hatNames, hopener⟩ := eq_cons_of_readWord hopen
    rw [hatNames] at hpopen hin
    simp only [List.forall_mem_append, List.forall_mem_cons] at hin
    obtain ⟨-, -, -, -, hin⟩ := hin
    obtain ⟨names, body, hnamesRun, hbody, hnameRuns⟩ :=
      standAlone_of_readNames (fun t ht => hpopen t (.tail _ ht)) hin hnames
    obtain ⟨hatClose, hcloser⟩ := eq_cons_of_readWord hclose
    have htypeLex := lexemes_run hinnerLex
    have hunrestricted (hplain : tree = .plain) : ¬ BlockTree.LooksRestricted (lexemes type) := by
      intro hlooks
      refine hsettled hplain (looksRestricted_of_isPrefix hlooks ?_)
      rw [lexemes_append]
      exact List.prefix_append _ _
    refine ⟨⟨runs, visibility, type, _, names, body, _⟩, ?_, hruns,
      ⟨tree, hwf, lexemes_run hlex, htext, hunrestricted⟩, htypeLex ▸ hinner, htypeLex ▸ hinnerText,
      hopener, hbody, hnameRuns, hcloser⟩
    rw [hvisibilityRun, htypeRun, hatNames, hnamesRun, hatClose]
    simp [BlockParts.tokens, BlockParts.stem]

/-- Blocks that are read stand where they were read, and all tokens belong to them. -/
theorem exists_parts_of_readBlocks {blocks : List Declaration}
    (hp : ∀ t ∈ lexemes ahead, t.Proper) (hin : ∀ t ∈ ahead, t.StandsIn source)
    (h : readBlocks source ahead = .ok blocks) :
    ∃ parts : List BlockParts, ahead = parts.flatMap BlockParts.tokens ∧
      List.Forall₂ (BlockParts.StandFor source) parts blocks := by
  fun_induction readBlocks source ahead generalizing blocks with
  | case1 =>
    cases h
    exact ⟨[], rfl, .nil⟩
  | case2 => cases h
  | case3 => cases h
  | case4 first others block rest hblock blocks' hblocks ih =>
    cases h
    obtain ⟨p, hrun, hstands⟩ := exists_parts_of_readBlock hp hin hblock
    rw [hrun, lexemes_append] at hp
    rw [hrun] at hin
    obtain ⟨parts, rfl, hparts⟩ :=
      ih (List.forall_mem_append.mp hp).2 (List.forall_mem_append.mp hin).2 hblocks
    exact ⟨p :: parts, hrun, .cons hstands hparts⟩

theorem standAs_of_readBlocks {blocks : List Declaration} (hp : ∀ t ∈ lexemes ahead, t.Proper)
    (hin : ∀ t ∈ ahead, t.StandsIn source) (h : readBlocks source ahead = .ok blocks) :
    ∃ runs : List (List Token), ahead = runs.flatten ∧
      List.Forall₂ (Declaration.StandsAs source) runs blocks := by
  obtain ⟨parts, hahead, hparts⟩ := exists_parts_of_readBlocks hp hin h
  refine ⟨parts.map BlockParts.tokens, by rw [hahead, List.flatMap_def], ?_⟩
  exact List.forall₂_map_left_iff.mpr (hparts.imp fun _ _ hstands => hstands.standsAs)

/-! ## Parts of a source that is read -/

theorem exists_of_forall₂ {α β : Type} {related : α → β → Prop} {as : List α} {bs : List β}
    (h : List.Forall₂ related as bs) {b : β} (hb : b ∈ bs) : ∃ a ∈ as, related a b := by
  induction h with
  | nil => cases hb
  | cons hab _ ih =>
    rcases List.mem_cons.mp hb with rfl | hb
    · exact ⟨_, List.mem_cons_self, hab⟩
    · obtain ⟨a, ha, hrel⟩ := ih hb
      exact ⟨a, List.mem_cons_of_mem _ ha, hrel⟩

/-- Every block of a source that is read stands there with its parts. -/
theorem exists_parts_of_readSource {source : String} {blocks : List Declaration}
    {block : Declaration} (h : readSource source = .ok blocks) (hblock : block ∈ blocks) :
    ∃ ts, ∃ p : BlockParts, sourceTokens source = .ok ts ∧ p.tokens <:+: ts ∧
      p.StandFor source.toList block := by
  obtain ⟨ts, hts, hread⟩ := readBlocks_of_readSource h
  obtain ⟨parts, rfl, hparts⟩ := exists_parts_of_readBlocks (proper_of_sourceTokens hts)
    (tiles_of_sourceTokens hts).standsIn hread
  obtain ⟨p, hmem, hstands⟩ := exists_of_forall₂ hparts hblock
  rw [List.flatMap_def] at hts
  exact ⟨_, p, hts, List.infix_of_mem_flatten (List.mem_map_of_mem hmem), hstands⟩

/-- Every block of a source that is read stands there as a run of its tokens. -/
theorem exists_standsAs_of_readSource {source : String} {blocks : List Declaration}
    {block : Declaration} (h : readSource source = .ok blocks) (hblock : block ∈ blocks) :
    ∃ ts run, sourceTokens source = .ok ts ∧ run <:+: ts ∧ block.StandsAs source.toList run := by
  obtain ⟨ts, p, hts, hrun, hparts⟩ := exists_parts_of_readSource h hblock
  exact ⟨ts, p.tokens, hts, hrun, hparts.standsAs⟩

theorem infix_of_punctuated {runs : List (List Token)} {body : List Token}
    (h : Punctuated runs body) (hrun : run ∈ runs) : run <:+: body := by
  induction h with
  | nil => cases hrun
  | last =>
    obtain rfl := List.mem_singleton.mp hrun
    exact List.infix_rfl
  | @cons first rest _ comma _ _ ih =>
    rcases List.mem_cons.mp hrun with rfl | hrun
    · exact (List.prefix_append _ _).isInfix
    · have hrest : rest <:+: first ++ comma :: rest :=
        ((List.suffix_cons comma rest).trans (List.suffix_append first _)).isInfix
      exact (ih hrun).trans hrest

/-- Every declared name of a source that is read stands there as a run of its tokens. -/
theorem exists_standsAlone_of_mem_names {source : String} {blocks : List Declaration}
    {block : Declaration} {decl : DeclaredName} (h : readSource source = .ok blocks)
    (hblock : block ∈ blocks) (hdecl : decl ∈ block.names) :
    ∃ ts run, sourceTokens source = .ok ts ∧ run <:+: ts ∧
      decl.StandsAlone source.toList run := by
  obtain ⟨ts, p, hts, hwhole, hparts⟩ := exists_parts_of_readSource h hblock
  obtain ⟨run, hrun, hstands⟩ := exists_of_forall₂ hparts.names hdecl
  have hbody : p.body <:+: p.tokens :=
    (List.suffix_cons p.opener p.body).isInfix.trans (List.infix_append _ _ _)
  exact ⟨ts, run, hts, ((infix_of_punctuated hparts.punctuated hrun).trans hbody).trans hwhole,
    hstands⟩

theorem exists_standsAs_of_mem_names {source : String} {blocks : List Declaration}
    {block : Declaration} {decl : DeclaredName} (h : readSource source = .ok blocks)
    (hblock : block ∈ blocks) (hdecl : decl ∈ block.names) :
    ∃ ts run, sourceTokens source = .ok ts ∧ run <:+: ts ∧ decl.StandsAs source.toList run := by
  obtain ⟨ts, run, hts, hrun, hstands⟩ := exists_standsAlone_of_mem_names h hblock hdecl
  exact ⟨ts, run, hts, hrun, hstands.standsAs⟩

/-- Every attribute of a source that is read stands there as a run of its tokens. -/
theorem exists_standsAlone_of_readSource {source : String} {blocks : List Declaration}
    {block : Declaration} {a : Attribute} (h : readSource source = .ok blocks)
    (hblock : block ∈ blocks)
    (ha : a ∈ block.attributes ∨ ∃ decl ∈ block.names, a ∈ decl.attributes) :
    ∃ ts run, sourceTokens source = .ok ts ∧ run <:+: ts ∧ a.StandsAlone source.toList run := by
  rcases ha with ha | ⟨decl, hdecl, ha⟩
  · obtain ⟨ts, p, hts, hwhole, hparts⟩ := exists_parts_of_readSource h hblock
    obtain ⟨run, hrun, hstands⟩ := exists_of_forall₂ hparts.attributes ha
    refine ⟨ts, run, hts, (List.infix_of_mem_flatten hrun).trans (.trans ?_ hwhole), hstands⟩
    simp only [BlockParts.tokens, BlockParts.stem, List.append_assoc]
    exact (List.prefix_append _ _).isInfix
  · obtain ⟨ts, whole, hts, hwhole, hstands⟩ := exists_standsAlone_of_mem_names h hblock hdecl
    cases hstands with
    | mk hattributes _ =>
      obtain ⟨run, hrun, hstands⟩ := exists_of_forall₂ hattributes ha
      refine ⟨ts, run, hts, (List.infix_of_mem_flatten hrun).trans (.trans ?_ hwhole), hstands⟩
      exact (List.prefix_append _ _).isInfix

/-- Every attribute of a specification stands in the source as a run of its tokens. -/
theorem exists_standsAlone_of_mem_attributes {source : String} {blocks : List Declaration}
    {spec : Spec} {a : Attribute} (h : readSource source = .ok blocks)
    (hspec : spec ∈ specsOf blocks) (ha : a ∈ spec.attributes) :
    ∃ ts run, sourceTokens source = .ok ts ∧ run <:+: ts ∧ a.StandsAlone source.toList run := by
  obtain ⟨block, hblock, hspec⟩ := List.mem_flatMap.mp hspec
  obtain ⟨decl, hdecl, rfl⟩ := List.mem_map.mp hspec
  have hwhere : a ∈ block.attributes ∨ ∃ decl ∈ block.names, a ∈ decl.attributes :=
    (List.mem_append.mp ha).symm.imp id fun hname => ⟨decl, hdecl, hname⟩
  exact exists_standsAlone_of_readSource h hblock hwhere

theorem exists_standsAs_of_mem_attributes {source : String} {blocks : List Declaration}
    {spec : Spec} {a : Attribute} (h : readSource source = .ok blocks)
    (hspec : spec ∈ specsOf blocks) (ha : a ∈ spec.attributes) :
    ∃ ts run, sourceTokens source = .ok ts ∧ run <:+: ts ∧ a.StandsAs source.toList run := by
  obtain ⟨ts, run, hts, hrun, hstands⟩ := exists_standsAlone_of_mem_attributes h hspec ha
  exact ⟨ts, run, hts, hrun, hstands.toStandsAs⟩

end Microtypes
