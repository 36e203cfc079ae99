import Microtypes.Proofs.Control.Requests
import Microtypes.Proofs.Grammar.HiddenName
import Microtypes.Proofs.Grammar.Normalisation
import Microtypes.Proofs.Rust.Template

/-!
# The texts that wrappers are made from

A wrapper is made from a name, a type, a visibility and perhaps the type of a column, as they are
written in a source. Each of these texts can be put between the fixed pieces of generated code,
unless a type holds a line doc comment (`isGiven_ofSpec`, `inserts_columnType`).
-/

namespace Microtypes

open Lexeme (punct ident)

variable {source : String} {sourceChars : List Char} {ahead rest run : List Token}
  {type : WrittenType} {blocks : List Declaration} {block : Declaration} {spec : Spec}
  {text : String} {words : List Lexeme}

/-! ## Types in a source -/

/-- Whether a type is read from a run of the tokens of a source, its place included. -/
def WrittenType.IsReadFrom (type : WrittenType) (source : String) (run : List Token) : Prop :=
  ∃ ts, sourceTokens source = .ok ts ∧ run <:+: ts ∧ readWholeType run = .ok type

theorem location_of_readType (h : readType ahead = .ok (type, rest)) :
    ∃ first, ahead.head? = some first ∧ type.location = first.location := by
  cases ahead with
  | nil => cases h
  | cons first others =>
    rw [readType] at h
    split at h
    · cases h
    · cases h
      exact ⟨first, rfl, rfl⟩

/-- A type that is read in front of other tokens is also read from its own. -/
theorem run_of_readType (hp : ∀ t ∈ lexemes ahead, t.Proper)
    (h : readType ahead = .ok (type, rest)) :
    ∃ run, ahead = run ++ rest ∧ readWholeType run = .ok type := by
  obtain ⟨run, rfl⟩ := split_of_tracks (@tracks_readType [] _ hp) h
  obtain ⟨ts, hsplit, hderives, htext⟩ := derives_of_readType hp h
  obtain rfl : lexemes run = ts := lexemes_run hsplit
  rw [lexemes_append] at hp
  obtain ⟨again, hagain, hsame⟩ :=
    readWholeType_of_derives (List.forall_mem_append.mp hp).1 hderives
  obtain ⟨first, hfirst, hlocation⟩ := location_of_readType h
  obtain ⟨first', hfirst', hlocation'⟩ := location_of_readType (readType_of_readWholeType hagain)
  have hhead : first' = first := by
    rw [List.head?_append, hfirst'] at hfirst
    exact Option.some.inj hfirst
  have heq : again = type := by
    obtain ⟨text, location⟩ := type
    obtain ⟨text', location'⟩ := again
    rw [hhead] at hlocation'
    rw [WrittenType.mk.injEq]
    exact ⟨hsame.trans htext.symm, hlocation'.trans hlocation.symm⟩
  exact ⟨run, rfl, heq ▸ hagain⟩

/-- The type of a block is read from tokens of the block. -/
theorem run_of_readBlock (hp : ∀ t ∈ lexemes ahead, t.Proper)
    (h : readBlock sourceChars ahead = .ok (block, rest)) :
    ∃ run, run <:+: ahead ∧ readWholeType run = .ok block.inner := by
  have proper_rest {run rest : List Token} (hp : ∀ t ∈ lexemes (run ++ rest), t.Proper) :
      ∀ t ∈ lexemes rest, t.Proper := by
    rw [lexemes_append] at hp
    exact (List.forall_mem_append.mp hp).2
  cases parts_of_readBlock h with
  | parts hattributes hvisibility htype hopen hnames hclose =>
    obtain ⟨_, rfl⟩ := split_of_tracks (@tracks_readAttributes [] _ _) hattributes
    have hpvisibility := proper_rest hp
    obtain ⟨_, hrun⟩ := split_of_tracks (@tracks_readVisibility [] _ hpvisibility) hvisibility
    rw [hrun] at hpvisibility
    obtain ⟨type, htypeRun, hread⟩ := run_of_readType (proper_rest hpvisibility) htype
    refine ⟨type, ?_, hread⟩
    rw [hrun, htypeRun, ← List.append_assoc, ← List.append_assoc]
    exact List.infix_append _ _ _

theorem run_of_readBlocks (hp : ∀ t ∈ lexemes ahead, t.Proper)
    (h : readBlocks sourceChars ahead = .ok blocks) (hblock : block ∈ blocks) :
    ∃ run, run <:+: ahead ∧ readWholeType run = .ok block.inner := by
  fun_induction readBlocks sourceChars ahead generalizing blocks with
  | case1 =>
    cases h
    cases hblock
  | case2 => cases h
  | case3 => cases h
  | case4 first others block' rest hfirst blocks' hblocks ih =>
    cases h
    rcases List.mem_cons.mp hblock with rfl | hblock
    · exact run_of_readBlock hp hfirst
    · obtain ⟨before, hrun⟩ := split_of_tracks (@tracks_readBlock [] _ _ hp) hfirst
      rw [hrun, lexemes_append] at hp
      obtain ⟨run, hwithin, hread⟩ := ih (List.forall_mem_append.mp hp).2 hblocks hblock
      rw [hrun]
      exact ⟨run, hwithin.trans (List.suffix_append before rest).isInfix, hread⟩

/-- The type of every block of a source that is read is read from tokens of the source. -/
theorem exists_isReadFrom (h : readSource source = .ok blocks) (hblock : block ∈ blocks) :
    ∃ run, block.inner.IsReadFrom source run := by
  obtain ⟨ts, hts, hread⟩ := readBlocks_of_readSource h
  obtain ⟨run, hrun, hinner⟩ := run_of_readBlocks (proper_of_sourceTokens hts) hread hblock
  exact ⟨run, ts, hts, hrun, hinner⟩

/-- The text of a type without line doc comments can be put into other text. -/
theorem inserts_of_readWholeType (hshaped : ∀ t ∈ lexemes run, t.Shaped)
    (hdoc : ∀ t ∈ run, t.isLineDoc = false) (h : readWholeType run = .ok type) :
    Inserts type.text := by
  obtain ⟨ts, hsplit, hderives, htext⟩ :=
    derives_of_readType (fun t ht => (hshaped t ht).proper) (readType_of_readWholeType h)
  obtain rfl : lexemes run = ts := by simpa [lexemes] using hsplit
  rw [htext]
  refine inserts_of_derives hshaped ?_ hderives
  intro t ht
  obtain ⟨token, htoken, rfl⟩ := List.mem_map.mp ht
  exact hdoc token htoken

theorem shaped_of_within {ts : List Token} (hts : sourceTokens source = .ok ts)
    (hrun : run <:+: ts) : ∀ t ∈ lexemes run, t.Shaped := by
  intro t ht
  exact shaped_of_tokens (tokens_of_sourceTokens hts) (List.map_subset _ hrun.subset ht)

/-! ## Names -/

theorem isLineDoc_of_kind {t : Lexeme} (hk : t.kind ≠ .doc) : t.isLineDoc = false := by
  rw [Lexeme.isLineDoc, beq_eq_false_iff_ne.mpr hk]
  rfl

/-- The text of a token that is neither a mark nor a comment can be put into other text. -/
theorem inserts_token {t : Lexeme} (ht : t.Shaped) (hpunct : t.kind ≠ .punct)
    (hdoc : t.kind ≠ .doc) : Inserts t.text := by
  have hsingle {p : Lexeme → Prop} (hp : p t) : ∀ u ∈ [t], p u := List.forall_mem_singleton.mpr hp
  have hspelling : Inserts (spelling [t]) :=
    inserts_spelling (hsingle ht) (hsingle (isLineDoc_of_kind hdoc))
      (endsFinal_single (final_of_kind hpunct hdoc)) (balanced_of_kind hpunct .nil)
  exact hspelling

theorem inserts_ident (h : identExtent text.toList = some text.toList.length) : Inserts text :=
  @inserts_token (ident text) h (show TokenKind.ident ≠ .punct by decide)
    (show TokenKind.ident ≠ .doc by decide)

theorem runLength_of_isPlainIdent {name : List Char} (h : IsPlainIdent name) :
    runLength isIdentRest name = name.length := by
  have hrun := runLength_append h.rest (show ∀ c ∈ [].head?, isIdentRest c = false by simp)
  rwa [List.append_nil] at hrun

theorem identExtent_of_isPlainIdent {name : List Char} (h : IsPlainIdent name) :
    identExtent name = some name.length := by
  have hraw : ∀ others, name ≠ 'r' :: '#' :: others := by
    rintro others rfl
    have hmark : isIdentRest '#' = true := h.rest '#' (by simp)
    cases hmark
  rw [identExtent_eq hraw, if_pos h.start, runLength_of_isPlainIdent h]

theorem inserts_hiddenName {name : String} (h : IsDeclarable name) : Inserts (hiddenName name) :=
  inserts_ident (identExtent_of_isPlainIdent (isPlainIdent_hiddenName h))

theorem inserts_name {name : String} (h : IsDeclarable name) : Inserts name := by
  apply inserts_ident
  obtain ⟨plain, hplain, -, htext | htext⟩ := h.withoutRawMark
  · rw [htext]
    exact identExtent_of_isPlainIdent hplain
  · rw [htext, identExtent_raw, if_pos hplain.start, runLength_of_isPlainIdent hplain,
      List.length_cons, List.length_cons, Nat.add_comm]

/-! ## Visibilities -/

/-- A text between two fixed pieces that open a bracket and close it again. -/
theorem inserts_around {front back : List Char} {d : Delimiter} (h : Inserts text)
    (hfront : fits false [] [d] front = true) (hback : fits false [d] [] back = true)
    (hopens : opensUp front = true) (hparted : (!back.isEmpty && parted back) = true) :
    Inserts (String.ofList front ++ text ++ String.ofList back) := by
  have hwoven := @Woven.around false Inserts [] text [] [d] [] front back h hfront hback hopens
    hparted
  exact hwoven.inserts fun _ hgiven => hgiven

/-- The words of a path are written with nothing between them and the marks. -/
theorem spelling_words (words : List Lexeme) :
    spelling (separated (punct "::") false (words.map ([·]))) =
      "::".intercalate (words.map (·.text)) := by
  induction words with
  | nil => rfl
  | cons w words ih =>
    cases words with
    | nil => simp [separated, continued, spelling]
    | cons next words =>
      have hbefore : spaced w (punct "::") = false := by simp [spaced, punct, unspacedBefore]
      have hsplit : spelling (separated (punct "::") false ((w :: next :: words).map ([·]))) =
          w.text ++
            ("::" ++ spelling (separated (punct "::") false ((next :: words).map ([·])))) := by
        simp only [List.map_cons, separated, continued, List.cons_append, List.nil_append, spelling,
          hbefore, spaced_separator]
        simp [punct]
      rw [hsplit, ih]
      simp only [List.map_cons, String.intercalate_cons_cons, String.append_assoc]

theorem spelling_path (path : PathTree) (h : path.words ≠ []) :
    spelling path.lexemes = path.text := by
  obtain ⟨root, words⟩ := path
  rw [PathTree.text, ← spelling_words, PathTree.lexemes]
  cases root with
  | false => simp [rootMark]
  | true =>
    obtain ⟨w, words, rfl⟩ := List.exists_cons_of_ne_nil h
    simp only [rootMark, if_true, List.map_cons, separated, List.cons_append, List.nil_append,
      spelling, spaced_separator]
    simp [punct]

/-- The text of a path can be put into other text. -/
theorem inserts_path {path : PathTree} (hwf : path.WellFormed)
    (hshaped : ∀ t ∈ path.lexemes, t.Shaped) : Inserts path.text := by
  obtain ⟨root, words⟩ := path
  obtain ⟨hne, hwords⟩ := hwf
  have hplain {t : Lexeme} (hk : t.kind = .ident) : t.kind ≠ .punct ∧ t.kind ≠ .doc := by
    rw [hk]
    exact ⟨by decide, by decide⟩
  have hitems {p : List Lexeme → Prop} (hp : ∀ w ∈ words, p [w]) :
      ∀ item ∈ words.map ([·]), p item := by
    intro item hitem
    obtain ⟨w, hw, rfl⟩ := List.mem_map.mp hitem
    exact hp w hw
  have hmark : (punct "::").isLineDoc = false := rfl
  have hroot : Balanced (rootMark root) ∧ ∀ t ∈ rootMark root, t.isLineDoc = false := by
    cases root with
    | false => exact ⟨.nil, List.forall_mem_nil _⟩
    | true => exact ⟨balanced_mark (by decide) .nil, List.forall_mem_singleton.mpr hmark⟩
  rw [← spelling_path _ hne]
  refine inserts_spelling hshaped (List.forall_mem_append.mpr ⟨hroot.2, ?_⟩)
    (endsFinal_append (endsFinal_separated (hitems ?_) (hitems ?_)) ?_ (rootMark root))
    (balanced_append hroot.1 (balanced_separated (balanced_mark (by decide) .nil) (hitems ?_)))
  · refine forall_mem_separated hmark (hitems fun w hw => ?_)
    exact List.forall_mem_singleton.mpr (isLineDoc_of_kind (hplain (hwords w hw)).2)
  · exact fun w _ => List.cons_ne_nil w []
  · intro w hw
    exact endsFinal_single (final_of_kind (hplain (hwords w hw)).1 (hplain (hwords w hw)).2)
  · obtain ⟨w, words, rfl⟩ := List.exists_cons_of_ne_nil hne
    exact List.cons_ne_nil _ _
  · exact fun w hw => balanced_of_kind (hplain (hwords w hw)).1 .nil

/-- The text of a visibility can be put into other text. -/
theorem inserts_visibility {tree : VisibilityTree} (hwf : tree.WellFormed)
    (hshaped : ∀ t ∈ tree.lexemes, t.Shaped) : Inserts tree.text := by
  cases tree with
  | hidden =>
    have hfinal : EndsFinal [] := fun t ht => by cases ht
    have hempty : Inserts (spelling []) :=
      inserts_spelling (List.forall_mem_nil _) (List.forall_mem_nil _) hfinal .nil
    exact hempty
  | plain => exact inserts_ident (hshaped (ident "pub") List.mem_cons_self)
  | scope word =>
    have hword : Inserts word :=
      inserts_ident (hshaped (ident word) (by simp [VisibilityTree.lexemes]))
    have haround := @inserts_around word ['p', 'u', 'b', '('] [')'] .round hword (by decide +kernel)
      (by decide +kernel) rfl rfl
    exact haround
  | within path =>
    have hpath : Inserts path.text := by
      refine inserts_path hwf fun t ht => hshaped t ?_
      exact List.mem_append_left _ (List.mem_append_right _ ht)
    have haround := @inserts_around path.text ['p', 'u', 'b', '(', 'i', 'n', ' '] [')'] .round hpath
      (by decide +kernel) (by decide +kernel) rfl rfl
    exact haround

/-! ## Wrappers -/

/-- All texts of the wrapper of a specification can be put into generated code, unless its type
holds a line doc comment. -/
theorem isGiven_ofSpec (h : readSource source = .ok blocks) (hspec : spec ∈ specsOf blocks)
    (hdoc : ∀ run, spec.inner.IsReadFrom source run → ∀ t ∈ run, t.isLineDoc = false) :
    (Wrapper.ofSpec spec).IsGiven Inserts := by
  have hname := isDeclarable_of_mem_specsOf h hspec
  obtain ⟨block, hblock, hspec⟩ := List.mem_flatMap.mp hspec
  obtain ⟨decl, -, rfl⟩ := List.mem_map.mp hspec
  refine ⟨inserts_name hname, inserts_hiddenName hname, ?_, ?_⟩
  · obtain ⟨run, hrun⟩ := exists_isReadFrom h hblock
    have hplain := hdoc run hrun
    obtain ⟨ts, hts, hwithin, hread⟩ := hrun
    exact inserts_of_readWholeType (shaped_of_within hts hwithin) hplain hread
  · obtain ⟨ts, run, hts, hrun, hstand⟩ := exists_standsAs_of_readSource h hblock
    cases hstand with
    | @mk runs visibility _ _ _ _ _ _ hvisibility _ _ _ _ =>
      obtain ⟨tree, hwf, hlex, htext⟩ := hvisibility
      have hwithin : visibility <:+: ts := by
        refine .trans ?_ hrun
        simp only [List.append_assoc]
        exact List.infix_append' _ _ _
      show Inserts block.visibility
      rw [htext]
      exact inserts_visibility hwf (hlex ▸ shaped_of_within hts hwithin)

/-! ## Column types -/

theorem mem_lexemes_of_matches {form : FormTree} {a : Attribute} (h : form.Matches a.form) :
    ∀ t ∈ lexemes a.arguments, t ∈ form.lexemes := by
  intro t ht
  unfold Attribute.arguments at ht
  cases hform : a.form with
  | bare =>
    rw [hform] at ht
    cases ht
  | delimited d arguments =>
    rw [hform] at h ht
    cases form with
    | delimited d' inside =>
      obtain ⟨-, rfl⟩ := h
      exact List.mem_append_left _ (List.mem_cons_of_mem _ ht)
    | bare => cases h
    | assigned value => cases h
  | assigned value =>
    rw [hform] at h ht
    cases form with
    | assigned value' =>
      obtain rfl : lexemes value = value' := h
      exact List.mem_cons_of_mem _ ht
    | bare => cases h
    | delimited d' inside => cases h

/-- The tokens in the arguments of an attribute are written as their kinds of tokens are. -/
theorem shaped_of_standsAs {a : Attribute} {ts : List Token} (hts : sourceTokens source = .ok ts)
    (hrun : run <:+: ts) (h : a.StandsAs source.toList run) :
    ∀ t ∈ lexemes a.arguments, t.Shaped := by
  obtain ⟨tree, -, hlex, hmatches⟩ := h.derived
  have hall := shaped_of_within hts hrun
  intro t ht
  cases tree with
  | doc comment =>
    rw [Attribute.arguments, hmatches.2.1] at ht
    cases ht
  | marked path form =>
    rw [hlex] at hall
    have hmem := mem_lexemes_of_matches hmatches.2 t ht
    exact hall t (List.mem_append_left _ (List.mem_append_right _ hmem))

/-- The type of a column can be put into generated code, unless it holds a line doc comment. -/
theorem inserts_columnType {control : Control} {mapping : ColumnRequest}
    (h : readSource source = .ok blocks) (hspec : spec ∈ specsOf blocks)
    (hcontrols : controls spec.attributes = .ok control)
    (hmapping : control.columnMapping = some mapping)
    (hdoc : ∀ a ∈ attributesAt Marker.columnMapping.path spec.attributes,
      ∀ t ∈ a.arguments.drop 2, t.isLineDoc = false) : Inserts mapping.sqlType.text := by
  obtain ⟨a, ha, hread⟩ := column_of_controls hcontrols hmapping
  have hmem : a ∈ spec.attributes := (List.mem_filter.mp ha).1
  obtain ⟨ts, run, hts, hrun, hstand⟩ := exists_standsAs_of_mem_attributes h hspec hmem
  refine inserts_of_readWholeType ?_ (hdoc a ha) (readWholeType_of_readColumnType hread)
  intro t ht
  exact shaped_of_standsAs hts hrun hstand t (List.map_subset _ (List.drop_subset 2 _) ht)

end Microtypes
