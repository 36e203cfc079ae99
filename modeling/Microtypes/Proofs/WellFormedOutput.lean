import Microtypes.Output
import Microtypes.Proofs.PassingOn
import Microtypes.Proofs.Rust.Emission
import Microtypes.Proofs.Rust.Ingredients
import Microtypes.Proofs.Token.Excerpt
import Microtypes.Proofs.Token.Lines
import Microtypes.Text.Split

/-!
# The generated file can be read

The lines of a generated file are comments, blank lines, attributes as they stand in the source,
woven code and messages in quotes. Each of them is read by itself, and so the whole file is read,
and its brackets match (`wellNested_of_ofSource`).
-/

namespace Microtypes

open Lexeme (punct)

variable {source label text : String} {features : Features} {e : Expansion} {spec : Spec}
  {blocks : List Declaration} {lines : List String} {a b : List Delimiter} {discreet : Bool}
  {items : List Item} {g : Generated} {outcome : Outcome} {outer : List Delimiter}

/-- Whether no type that code is made from holds a line doc comment. -/
structure Expansion.PlainTypes (e : Expansion) (source : String) : Prop where
  /-- The type of a block, as a run of tokens of the source. -/
  inner : ∀ spec ∈ e.specs, ∀ run, spec.inner.IsReadFrom source run →
    ∀ t ∈ run, t.isLineDoc = false
  /-- The type of a column, as the arguments of the attribute behind the key and the equals sign. -/
  column : ∀ spec ∈ e.specs, ∀ control mapping, controls spec.attributes = .ok control →
    control.columnMapping = some mapping →
    ∀ a ∈ attributesAt Marker.columnMapping.path spec.attributes,
      ∀ t ∈ a.arguments.drop 2, t.isLineDoc = false

/-! ## Messages -/

/-- The first quote that no backslash escapes is the one at the end. -/
theorem stringExtent_rustStringChars (text : List Char) :
    stringExtent (rustStringChars text ++ ['"']) = some (rustStringChars text ++ ['"']).length := by
  induction text with
  | nil => rfl
  | cons c text ih =>
    rw [rustStringChars_cons]
    by_cases hc : c = '\\' ∨ c = '"'
    · rw [if_pos hc]
      simp only [List.cons_append, List.nil_append, stringExtent, ih, Option.map_some,
        List.length_cons]
    · rw [if_neg hc]
      rw [not_or] at hc
      rw [List.singleton_append, List.cons_append, stringExtent, ih]
      · simp
      · exact fun hslash _ => hc.1 hslash
      · exact fun _ _ hslash _ => hc.1 hslash
      · exact hc.2

/-- A message in quotes is a string literal. -/
theorem shaped_rustString (text : String) : (⟨.literal, rustString text⟩ : Lexeme).Shaped := by
  have hliteral := LiteralText.string false (stringExtent_rustStringChars text.toList)
  rw [byteMark, if_neg (by decide), List.nil_append, ← List.cons_append] at hliteral
  rw [Lexeme.Shaped, rustString, String.toList_ofList]
  exact hliteral

/-- A message in quotes can be put into other text. -/
theorem inserts_rustString (text : String) : Inserts (rustString text) :=
  @inserts_token ⟨.literal, rustString text⟩ (shaped_rustString text)
    (show TokenKind.literal ≠ .punct by decide) (show TokenKind.literal ≠ .doc by decide)

theorem Inserts.lexed (h : Inserts text) : ∃ ts, lexed text.toList = .ok ts ∧ Balanced ts := by
  obtain ⟨ts, hbalanced, hlexed⟩ := h [] rfl
  exact ⟨ts, hlexed.lexed, hbalanced⟩

theorem lexedLines_rustLines (d : Diagnostic) : LexedLines outer outer d.rustLines := by
  have hline := @inserts_around (rustString d.message) "::core::compile_error!(".toList ");".toList
    .round (inserts_rustString d.message) (by decide +kernel) (by decide +kernel)
    (by decide +kernel) (by decide +kernel)
  rw [String.ofList_toList, String.ofList_toList] at hline
  obtain ⟨ts, hline, hts⟩ := hline.lexed
  exact .cons_balanced hline hts .nil

/-! ## Wrappers -/

/-- Woven lines are read one by one. -/
theorem lexedLines_of_wovenLines (h : WovenLines discreet Inserts a b lines) :
    LexedLines a b lines := by
  induction h with
  | nil => exact .nil
  | @cons _ _ _ _ opens _ _ h _ ih =>
    have hend : opens = true ∨ parted [] = true := Or.inr rfl
    obtain ⟨ts, hnest, hlexed⟩ := h.reads (fun _ hgiven => hgiven) hend
    exact .cons hlexed.lexed hnest ih

theorem lexedLines_renderPassages {passages : List Passage}
    (h : ∀ passage ∈ passages, LexedLines outer outer passage.lines) :
    LexedLines outer outer (renderPassages passages) := by
  induction passages with
  | nil => exact .nil
  | cons passage passages ih =>
    obtain ⟨hfirst, hlater⟩ := List.forall_mem_cons.mp h
    cases passages with
    | nil => exact hfirst
    | cons next rest =>
      have hblank : LexedLines outer outer (if passage.attached then [] else [""]) := by
        split
        · exact .nil
        · exact .cons_blank .nil
      exact (hfirst.append hblank).append (ih hlater)

theorem lexedLines_renderItems (h : ∀ item ∈ items, LexedLines outer outer item.lines) :
    LexedLines outer outer (renderItems items) :=
  lexedLines_renderPassages (List.forall_mem_map.mpr h)

/-- Brackets match in an attribute. -/
theorem balanced_of_wellFormed {tree : AttributeTree} (h : tree.WellFormed) :
    Balanced tree.lexemes := by
  cases tree with
  | doc comment =>
    have hk : comment.kind = .doc := h
    exact balanced_of_kind (by rw [hk]; decide) .nil
  | marked path form =>
    obtain ⟨⟨-, hwords⟩, hform⟩ := h
    have hpath : Balanced path.lexemes := by
      have hroot : Balanced (rootMark path.root) := by
        cases path.root with
        | false => exact .nil
        | true => exact balanced_mark (by decide) .nil
      refine balanced_append hroot (balanced_separated (balanced_mark (by decide) .nil) ?_)
      intro item hitem
      obtain ⟨w, hw, rfl⟩ := List.mem_map.mp hitem
      exact balanced_of_kind (by rw [hwords w hw]; decide) .nil
    have hrest : Balanced form.lexemes := by
      cases form with
      | bare => exact .nil
      | delimited d inside => exact .group d hform .nil
      | assigned value => exact balanced_mark (by decide) hform.1
    have hgroup : Balanced (punct "[" :: (path.lexemes ++ form.lexemes) ++ punct "]" :: []) :=
      .group .square (balanced_append hpath hrest) .nil
    exact .plain rfl rfl hgroup

/-- The text of an attribute is read as in the source. -/
theorem lexed_attribute {a : Attribute} (h : readSource source = .ok blocks)
    (hspec : spec ∈ specsOf blocks) (ha : a ∈ spec.attributes) :
    ∃ ts, lexed a.text.toList = .ok ts ∧ Balanced ts := by
  obtain ⟨ts, run, hts, hrun, hstand⟩ := exists_standsAs_of_mem_attributes h hspec ha
  obtain ⟨tree, hwf, hlex, -⟩ := hstand.derived
  obtain ⟨first, last, hfirst, hlast, -, htext⟩ := hstand.text
  refine ⟨lexemes run, ?_, hlex ▸ balanced_of_wellFormed hwf⟩
  rw [htext, String.toList_ofList]
  exact lexed_excerpt hts hrun hfirst hlast

/-- The attributes that are passed on stand in lines of their own. -/
theorem lexedLines_passedItems {group : Group} {item : Item} (h : readSource source = .ok blocks)
    (hspec : spec ∈ specsOf blocks)
    (hitem : item ∈ passedItems group (Wrapper.ofSpec spec).attributes) :
    LexedLines outer outer item.lines := by
  unfold passedItems at hitem
  split at hitem
  · cases hitem
  · obtain rfl := List.mem_singleton.mp hitem
    refine .of_forall fun line hline => ?_
    obtain ⟨a, ha, rfl⟩ := List.mem_map.mp hline
    exact lexed_attribute h hspec (List.mem_filter.mp ha).1

/-- The lines of a wrapper are read one by one. -/
theorem lexedLines_of_expandSpec (h : readSource source = .ok blocks)
    (hspec : spec ∈ specsOf blocks)
    (hinner : ∀ run, spec.inner.IsReadFrom source run → ∀ t ∈ run, t.isLineDoc = false)
    (hcolumn : ∀ control mapping, controls spec.attributes = .ok control →
      control.columnMapping = some mapping →
      ∀ a ∈ attributesAt Marker.columnMapping.path spec.attributes,
        ∀ t ∈ a.arguments.drop 2, t.isLineDoc = false)
    (hg : expandSpec features spec = .ok (.generated g)) :
    ∀ item ∈ g.items, LexedLines outer outer item.lines := by
  have hgiven := isGiven_ofSpec h hspec hinner
  have hwoven {discreet : Bool} {items : List Item} (h : WovenItems discreet Inserts items) :
      ∀ item ∈ items, LexedLines outer outer item.lines := by
    intro item hitem
    exact lexedLines_of_wovenLines (h item hitem outer)
  have hpassed (group : Group) : ∀ item ∈ passedItems group (Wrapper.ofSpec spec).attributes,
      LexedLines outer outer item.lines :=
    fun item hitem => lexedLines_passedItems h hspec hitem
  rw [expandSpec_eq] at hg
  split at hg
  · next control hcontrols =>
    have hsql : ∀ mapping, control.columnMapping = some mapping → Inserts mapping.sqlType.text := by
      intro mapping hmapping
      exact inserts_columnType h hspec hcontrols hmapping
        (hcolumn control mapping hcontrols hmapping)
    have hcolumns {variant : Variant} {more : List Item}
        (hmore : columnItems variant (.ofSpec spec) control g.plan = .ok more) :
        WovenItems false Inserts more :=
      woven_columnItems hgiven hsql (fun hd => by cases hd) hmore
    obtain ⟨more, ⟨-, hitems, hmore⟩ | ⟨_, -, hitems, hmore⟩⟩ := (emittedBy_of_outcomeOf hg).items
    · rw [hitems, normalBase_eq_bare, List.append_assoc, List.forall_mem_append,
        List.forall_mem_append]
      exact ⟨hpassed _, hwoven (woven_normalBase hgiven g.plan), hwoven (hcolumns hmore)⟩
    · rw [hitems, secretBase_eq_bare, List.append_assoc, List.forall_mem_append,
        List.forall_mem_append]
      exact ⟨hpassed _, hwoven (woven_secretBase hgiven g.plan), hwoven (hcolumns hmore)⟩
  · cases hg
  · cases hg

/-! ## Headers -/

theorem feed_not_mem_namesLabel (features : Features) :
    '\n' ∉ (namesLabel features.names).toList := by
  have hname (f : Feature) : '\n' ∉ f.name.toList := by
    cases f <;> decide +kernel
  unfold namesLabel
  split
  · decide +kernel
  · rw [mem_intercalate (by decide +kernel)]
    rintro ⟨name, hmem, hfeed⟩
    obtain ⟨f, -, rfl⟩ := List.mem_map.mp (List.mem_mergeSort.mp hmem)
    exact hname f hfeed

/-- The lines of a header are comments. -/
theorem lexedLines_of_headerLines {header : List String} (hfeed : '\n' ∉ label.toList)
    (h : headerLines label features.names = .ok header) : LexedLines outer outer header := by
  have hfronts : ∀ front ∈ [headerEdge, "// | Microtype wrappers for Rust", "// | Generated by ",
      "// | Source: ", "// | Features: "],
      ['/', '/', ' '] <+: front.toList ∧ '\n' ∉ front.toList := by decide +kernel
  have hcomment {front text : String} {lines : List String}
      (hfront : ['/', '/', ' '] <+: front.toList ∧ '\n' ∉ front.toList)
      (htext : '\n' ∉ text.toList) (hlines : LexedLines outer outer lines) :
      LexedLines outer outer ((front ++ text) :: lines) := by
    obtain ⟨⟨body, hbody⟩, hfeed⟩ := hfront
    refine .cons_balanced ?_ .nil hlines
    rw [← hbody] at hfeed
    rw [String.toList_append, ← hbody]
    refine lexed_lineComment fun hmem => ?_
    rcases List.mem_append.mp hmem with hmem | hmem
    · exact hfeed (List.mem_append_right _ hmem)
    · exact htext hmem
  have hfixed {front : String} {lines : List String}
      (hfront : ['/', '/', ' '] <+: front.toList ∧ '\n' ∉ front.toList)
      (hlines : LexedLines outer outer lines) : LexedLines outer outer (front :: lines) := by
    have hempty := @hcomment front "" lines hfront (by decide) hlines
    rwa [String.append_empty] at hempty
  simp only [List.forall_mem_cons] at hfronts
  obtain ⟨hedge, htitle, htool, hsource, hnames, -⟩ := hfronts
  unfold headerLines at h
  split at h
  · cases h
  · cases h
    refine hfixed hedge (hfixed htitle (hcomment htool (by decide +kernel) ?_))
    exact hcomment hsource hfeed
      (hcomment hnames (feed_not_mem_namesLabel features) (hfixed hedge .nil))

/-! ## Files -/

/-- Every outcome of an expansion is written in lines that are read one by one. -/
theorem lexedLines_of_ofSource (he : Expansion.ofSource source features = .ok e)
    (hplain : e.PlainTypes source) (houtcome : outcome ∈ e.results) :
    LexedLines outer outer outcome.lines := by
  cases outcome with
  | failed diagnostic => exact lexedLines_rustLines diagnostic
  | generated wrapper =>
    rcases origin_of_mem_results he houtcome with ⟨_, -, hfailed⟩ |
      ⟨_, hread, hspecs, spec, hspec, hexpand⟩
    · cases hfailed
    · have hmem : spec ∈ e.specs := hspecs ▸ hspec
      exact lexedLines_renderItems (lexedLines_of_expandSpec hread hspec (hplain.inner spec hmem)
        (hplain.column spec hmem) hexpand)

theorem lexedLines_flatMap {results : List Outcome}
    (h : ∀ outcome ∈ results, LexedLines outer outer outcome.lines) :
    LexedLines outer outer (results.flatMap fun result => "" :: result.lines) := by
  induction results with
  | nil => exact .nil
  | cons outcome results ih =>
    obtain ⟨houtcome, hlater⟩ := List.forall_mem_cons.mp h
    rw [List.flatMap_cons]
    exact houtcome.cons_blank.append (ih hlater)

/-- A generated file can be read, and its brackets match. -/
theorem wellNested_of_ofSource {keepGoing : Bool} (he : Expansion.ofSource source features = .ok e)
    (hplain : e.PlainTypes source) (hlabel : label ≠ "") (hfeed : '\n' ∉ label.toList)
    (hkeep : keepGoing = true ∨ e.ok = true) :
    ∃ text ts, assemble label features.names e keepGoing = .ok text ∧
      sourceTokens text = .ok ts ∧ Balanced (lexemes ts) := by
  obtain ⟨header, hheader⟩ : ∃ header, headerLines label features.names = .ok header := by
    unfold headerLines
    rw [if_neg (by simpa using hlabel)]
    exact ⟨_, rfl⟩
  have hwritten : ¬ (!e.ok && !keepGoing) = true := by
    rcases hkeep with rfl | hok
    · simp
    · simp [hok]
  have hlines : LexedLines [] [] (fileLines header e.results) :=
    (lexedLines_of_headerLines hfeed hheader).append
      (lexedLines_flatMap fun outcome houtcome => lexedLines_of_ofSource he hplain houtcome)
  obtain ⟨run, hlexed, hnest⟩ := lexed_of_lexedLines hlines
  obtain ⟨ts, hts, rfl⟩ := readsBack_iff.mpr hlexed
  refine ⟨_, ts, ?_, hts, balanced_iff_nest.mpr hnest⟩
  rw [assemble, if_neg hwritten, hheader]
  rfl

/-- The file for a block with attributes of both kinds. -/
theorem wellNested_of_ofSource_marked :
    ∃ e, Expansion.ofSource markedSource .default = .ok e ∧ e.PlainTypes markedSource ∧
      "a.microtype" ≠ "" ∧ '\n' ∉ "a.microtype".toList ∧ (false = true ∨ e.ok = true) ∧
      ∃ text ts, assemble "a.microtype" (Features.names .default) e false = .ok text ∧
        sourceTokens text = .ok ts ∧ Balanced (lexemes ts) := by
  obtain ⟨spec, hspec⟩ : ∃ spec, specsOf [markedBlock] = [spec] := ⟨_, rfl⟩
  obtain ⟨wrapper, hwrapper⟩ : ∃ wrapper, expandSpec .default spec = .ok (.generated wrapper) := by
    cases hspec
    exact ⟨_, rfl⟩
  have he := ofSource_of_readSource readSource_marked .default
  rw [hspec, List.mapM_cons, hwrapper] at he
  have hplain :
      Expansion.PlainTypes ⟨[markedBlock], [spec], [.generated wrapper]⟩ markedSource := by
    constructor
    · rintro spec' - run ⟨ts, hts, hrun, -⟩ t ht
      have hall : ∀ t ∈ markedTokens, t.isLineDoc = false := by decide +kernel
      obtain rfl : markedTokens = ts := Except.ok.inj (sourceTokens_marked.symm.trans hts)
      exact hall t (hrun.subset ht)
    · intro spec' hspec' control mapping _ _ a ha
      obtain rfl := List.mem_singleton.mp hspec'
      cases hspec
      cases ha
  have hlabel : "a.microtype" ≠ "" := by decide
  have hfeed : '\n' ∉ "a.microtype".toList := by decide +kernel
  exact ⟨_, he, hplain, hlabel, hfeed, Or.inr rfl,
    wellNested_of_ofSource he hplain hlabel hfeed (Or.inr rfl)⟩

end Microtypes
