import Microtypes.Proofs.Grammar.Rebuilding
import Microtypes.Proofs.Relocation
import Microtypes.Proofs.Token.Respacing

/-!
# Lines with one name of a block

For a name of a block, the text in front of the names can be written out again with this name alone
in curly brackets. Where lines like this stand one below another, they are cut into the same tokens
(`segments_linesPieces`), and each is read as the block with this name only (`IsLine.reads_block`).
-/

namespace Microtypes

open Lexeme (punct)

variable {source source' above below tail : List Char} {stem run line : List Token}
  {head back body later : List Segment} {bodies : List (List Segment)}

/-! ## Reading a line -/

/-- A block with one of its names only. -/
def Declaration.sole (block : Declaration) (decl : DeclaredName) : Declaration :=
  { block with names := [decl] }

theorem specsOf_sole (block : Declaration) :
    specsOf (block.names.map block.sole) = block.specs := by
  rw [specsOf, List.flatMap_map, Declaration.specs, List.map_eq_flatMap]
  rfl

/-- Whether some tokens are copies of those in front of the names of a block, and then of those of a
name, in curly brackets. -/
inductive IsLine (source source' : List Char) (stem run : List Token) : List Token → Prop
  | mk {stem' run' : List Token} {opener closer : Token} (hstem : Copied source source' stem stem')
      (hopener : opener.toLexeme = punct Delimiter.curly.opener)
      (hrun : Copied source source' run run')
      (hcloser : closer.toLexeme = punct Delimiter.curly.closer) :
      IsLine source source' stem run (stem' ++ opener :: (run' ++ [closer]))

theorem proper_punct {text : String} (h : startsIdent text.toList = false) :
    (punct text).Proper where
  ident hk := by cases hk
  punct _ := h

/-- A line is read as the block with this name only. -/
theorem IsLine.reads_block {p : BlockParts} {block : Declaration} {decl : DeclaredName}
    (h : IsLine source source' p.stem run line) (hstands : p.StandFor source block)
    (hdecl : decl.StandsAlone source run) (hpstem : ∀ t ∈ lexemes p.stem, t.Proper)
    (hprun : ∀ t ∈ lexemes run, t.Proper) :
    ∃ block', readBlock source' line = .ok (block', []) ∧
      (block.sole decl).Alike elsewhere block' := by
  obtain @⟨_, run', opener, closer, hstem, hopener, hrun, hcloser⟩ := h
  rw [hstem.lexemes_eq] at hpstem
  rw [hrun.lexemes_eq] at hprun
  obtain ⟨front, type, rfl, hfront, htype⟩ := hstem.split
  obtain ⟨attributes, visibility, rfl, hattributes, hvisibility⟩ := hfront.split
  have hread := readAttributes_of_runs (hstands.attributes.imp fun _ _ ha => ha.alone)
    readAttributes_nil
  rw [List.append_nil] at hread
  obtain ⟨attributes', hattributes', halike⟩ := hattributes.reads_attributes hread
  obtain ⟨decl', hdecl', hdeclAlike⟩ := hrun.reads_name hdecl.alone
  obtain ⟨tree, hwf, hlex, htext, hsettled⟩ := hstands.visibility
  rw [hvisibility.lexemes_eq] at hlex
  have hderives := hstands.derives
  have hinnerText := hstands.inner
  rw [htype.lexemes_eq] at hsettled hderives hinnerText
  have hopens : opener.isWord Delimiter.curly.opener = true := by
    rw [hopener]
    rfl
  have hcloses : closer.isWord Delimiter.curly.closer = true := by
    rw [hcloser]
    rfl
  have hproper : ∀ t ∈ lexemes (visibility ++ (type ++ opener :: (run' ++ [closer]))),
      t.Proper := by
    simp only [lexemes_append, lexemes_cons, List.forall_mem_append, List.forall_mem_cons,
      hopener, hcloser] at hpstem hprun ⊢
    exact ⟨hpstem.1.2, hpstem.2, proper_punct rfl, hprun, proper_punct rfl, List.forall_mem_nil _⟩
  obtain ⟨inner, hinner, hblock⟩ := readBlock_of_runs hattributes' hwf hlex hsettled hderives
    hopens (readNames_single hprun hdecl' hcloses) hcloses hproper
  rw [← List.append_assoc, ← List.append_assoc] at hblock
  exact ⟨_, hblock, halike, .mk (hinnerText.trans hinner.symm) trivial, htext,
    .cons hdeclAlike .nil⟩

/-- Lines are read as blocks of one name each. -/
theorem exists_soles {p : BlockParts} {block : Declaration} {runs lines : List (List Token)}
    {names : List DeclaredName} (hstands : p.StandFor source block)
    (hpstem : ∀ t ∈ lexemes p.stem, t.Proper) (hpruns : ∀ run ∈ runs, ∀ t ∈ lexemes run, t.Proper)
    (hnames : List.Forall₂ (DeclaredName.StandsAlone source) runs names)
    (hlines : List.Forall₂ (IsLine source source' p.stem) runs lines) :
    ∃ soles, List.Forall₂ (fun line sole => readBlock source' line = .ok (sole, [])) lines soles ∧
      List.Forall₂ (Declaration.Alike elsewhere) (names.map block.sole) soles := by
  induction hnames generalizing lines with
  | nil =>
    cases hlines
    exact ⟨[], .nil, .nil⟩
  | cons hname _ ih =>
    obtain ⟨hprun, hpruns⟩ := List.forall_mem_cons.mp hpruns
    obtain ⟨line, others, hline, hothers, rfl⟩ := List.forall₂_cons_left_iff.mp hlines
    obtain ⟨sole, hsole, halike⟩ := hline.reads_block hstands hname hpstem hprun
    obtain ⟨soles, hsoles, hall⟩ := ih hpruns hothers
    exact ⟨sole :: soles, .cons hsole hsoles, .cons halike hall⟩

/-! ## The pieces of a line -/

/-- The pieces of a line. -/
def linePieces (head body : List Segment) : List Segment :=
  head ++ ⟨some .punct, ['{']⟩ :: (body ++ [⟨some .punct, ['}']⟩])

/-- The pieces of lines, one below another. -/
def linesPieces (head : List Segment) (bodies : List (List Segment)) : List Segment :=
  List.intercalate [⟨none, ['\n']⟩] (bodies.map (linePieces head))

/-- Whether some pieces are read from their text alone, and end with a word. -/
structure EndsInWord (pieces : List Segment) : Prop where
  alone : segments (pieces.flatMap Segment.text) = .ok pieces
  word : ∀ last ∈ pieces.getLast?, last.kind = some .ident

theorem flatMap_linePieces (head body : List Segment) :
    (linePieces head body).flatMap Segment.text =
      head.flatMap Segment.text ++ '{' :: (body.flatMap Segment.text ++ ['}']) := by
  simp [linePieces]

theorem linesPieces_singleton (head body : List Segment) :
    linesPieces head [body] = linePieces head body := by
  rw [linesPieces, List.map_singleton, List.intercalate_singleton]

theorem linesPieces_cons_cons (head body second : List Segment) (others : List (List Segment)) :
    linesPieces head (body :: second :: others) =
      linePieces head body ++ ⟨none, ['\n']⟩ :: linesPieces head (second :: others) := by
  rw [linesPieces, List.map_cons, List.map_cons, List.intercalate_cons_cons, List.append_assoc]
  rfl

/-- The text of lines is the texts of the lines, one below another. -/
theorem flatMap_linesPieces (head : List Segment) (bodies : List (List Segment)) :
    (linesPieces head bodies).flatMap Segment.text = List.intercalate ['\n']
      (bodies.map fun body => (linePieces head body).flatMap Segment.text) := by
  induction bodies with
  | nil => rfl
  | cons body bodies ih =>
    cases bodies with
    | nil => rw [linesPieces_singleton, List.map_singleton, List.intercalate_singleton]
    | cons second others =>
      rw [linesPieces_cons_cons, List.flatMap_append, List.flatMap_cons, ih, List.map_cons,
        List.map_cons, List.map_cons, List.intercalate_cons_cons, List.append_assoc]

theorem readPiece_curly {c : Char} (hc : c = '{' ∨ c = '}') (after : List Char) :
    readPiece c after = .ok ⟨some .punct, 0⟩ := by
  have hpaired : ∀ p ∈ pairedPuncts, p.1 ≠ '{' ∧ p.1 ≠ '}' := by decide
  refine readPiece_single ?_ fun d _ => ⟨fun hmem => ?_, ?_⟩
  · rcases hc with rfl | rfl <;> decide
  · exact hc.elim (hpaired _ hmem).1 (hpaired _ hmem).2
  · rcases hc with rfl | rfl <;> exact fun hslash => absurd hslash (by decide)

/-- A line is cut into its pieces in front of any text. -/
theorem segments_linePieces (hhead : segments source = .ok (head ++ back))
    (hseam : ∃ c ∈ (back.flatMap Segment.text).head?, isBlank c = false) (hbody : EndsInWord body)
    (hlater : segments tail = .ok later) :
    segments ((linePieces head body).flatMap Segment.text ++ tail) =
      .ok (linePieces head body ++ later) := by
  have boundary {c : Char} {after : List Char} (hc : isBoundary c = true) :
      EndsBoundary (c :: after) := by
    rintro d ⟨⟩
    exact hc
  have hcloser := segments_cons _ 0 (readPiece_curly (.inr rfl) tail) hlater
  have halone : segments (body.flatMap Segment.text) = .ok (body ++ []) := by
    rw [List.append_nil, hbody.alone]
  have hinside := segments_append_of_seam halone (boundary rfl) (.word hbody.word) hcloser
  have hopener := segments_cons _ 0 (readPiece_curly (.inl rfl) _) hinside
  have hall := segments_append_of_seam hhead (boundary rfl) (.plain hseam) hopener
  simpa [linePieces] using hall

theorem segments_linesPieces (hhead : segments source = .ok (head ++ back))
    (hseam : ∃ c ∈ (back.flatMap Segment.text).head?, isBlank c = false)
    (hbodies : ∀ body ∈ bodies, EndsInWord body) (hlater : segments tail = .ok later) :
    segments ((linesPieces head bodies).flatMap Segment.text ++ tail) =
      .ok (linesPieces head bodies ++ later) := by
  induction bodies with
  | nil => exact hlater
  | cons body bodies ih =>
    obtain ⟨hbody, hothers⟩ := List.forall_mem_cons.mp hbodies
    cases bodies with
    | nil =>
      rw [linesPieces_singleton]
      exact segments_linePieces hhead hseam hbody hlater
    | cons second others =>
      have hbelow := segments_cons none 0 (readPiece_of_isBlank (c := '\n') rfl) (ih hothers)
      have hline := segments_linePieces hhead hseam hbody hbelow
      rw [linesPieces_cons_cons, List.flatMap_append, List.append_assoc, List.append_assoc]
      exact hline

/-- Lines begin with what stands in front of the names, and an opening bracket. -/
theorem exists_of_linesPieces (head : List Segment) (hne : bodies ≠ []) :
    ∃ more, linesPieces head bodies = head ++ ⟨some .punct, ['{']⟩ :: more := by
  obtain ⟨body, others, rfl⟩ := List.exists_cons_of_ne_nil hne
  cases others with
  | nil => exact ⟨_, linesPieces_singleton head body⟩
  | cons second others =>
    rw [linesPieces_cons_cons, linePieces, List.append_assoc]
    exact ⟨_, rfl⟩

/-! ## The tokens of lines -/

/-- The pieces of a line yield the tokens of a line. -/
theorem isLine_linePieces (hhead : Yields source head stem) (hbody : Yields source body run)
    (hsource' : source' = above ++ (linePieces head body).flatMap Segment.text ++ below)
    (here : Location) :
    IsLine source source' stem run (place above.length here (linePieces head body)) := by
  rw [flatMap_linePieces] at hsource'
  have hfront : source' = above ++ head.flatMap Segment.text ++
      ('{' :: (body.flatMap Segment.text ++ ['}']) ++ below) := by simp [hsource']
  have hinside : source' = above ++ head.flatMap Segment.text ++ ['{'] ++
      body.flatMap Segment.text ++ ('}' :: below) := by simp [hsource']
  have hrun := copied_of_yields hbody hinside
    ((here.advanceBy (head.flatMap Segment.text)).advanceBy ['{'])
  rw [List.length_append, List.length_append] at hrun
  rw [linePieces, place_append, place, place_append]
  exact .mk (copied_of_yields hhead hfront here) rfl hrun rfl

/-- The pieces of lines yield the tokens of lines. -/
theorem exists_lines {runs : List (List Token)} (hhead : Yields source head stem)
    (h : List.Forall₂ (Yields source) bodies runs)
    (hsource' : source' = above ++ (linesPieces head bodies).flatMap Segment.text ++ below)
    (here : Location) :
    ∃ lines, place above.length here (linesPieces head bodies) = lines.flatten ∧
      List.Forall₂ (IsLine source source' stem) runs lines := by
  induction h generalizing above here with
  | nil => exact ⟨[], rfl, .nil⟩
  | @cons body run bodies runs hbody hbodies ih =>
    cases hbodies with
    | nil =>
      rw [linesPieces_singleton] at hsource' ⊢
      exact ⟨[_], (List.append_nil _).symm,
        .cons (isLine_linePieces hhead hbody hsource' here) .nil⟩
    | @cons second _ others _ hsecond hothers =>
      rw [linesPieces_cons_cons, List.flatMap_append, List.flatMap_cons] at hsource'
      have hline : source' = above ++ (linePieces head body).flatMap Segment.text ++
          ('\n' :: (linesPieces head (second :: others)).flatMap Segment.text ++ below) := by
        simp [hsource']
      have hbelow : source' = above ++ (linePieces head body).flatMap Segment.text ++ ['\n'] ++
          (linesPieces head (second :: others)).flatMap Segment.text ++ below := by
        simp [hsource']
      obtain ⟨lines, hlines, hall⟩ := ih hbelow
        ((here.advanceBy ((linePieces head body).flatMap Segment.text)).advanceBy ['\n'])
      rw [List.length_append, List.length_append] at hlines
      refine ⟨_ :: lines, ?_, .cons (isLine_linePieces hhead hbody hline here) hall⟩
      rw [linesPieces_cons_cons, place_append, List.flatten_cons, ← hlines]
      rfl

end Microtypes
