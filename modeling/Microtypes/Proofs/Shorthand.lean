import Microtypes.Proofs.Expansion
import Microtypes.Proofs.SoleNames

/-!
# Blocks as shorthand

A block is shorthand for one block for each of its names. In a source it can be replaced by one line
for each name, where the text in front of the names comes again and again: the source can still be
read, and the same is generated for the same names, in the same order (`shorthand_of_readSource`).
-/

namespace Microtypes

open Lexeme (punct ident)

variable {source : String} {front back : List Declaration} {block : Declaration}
  {features : Features}

/-! ## The source with lines -/

/-- Where a block stands among the tokens of a source, between those of other blocks. -/
structure Site (source : String) (front : List Declaration) (block : Declaration)
    (back : List Declaration) where
  before : List Token
  /-- The tokens of the block. -/
  parts : BlockParts
  after : List Token
  tokens : sourceTokens source = .ok (before ++ (parts.tokens ++ after))
  reads_front : readBlocks source.toList before = .ok front
  standFor : parts.StandFor source.toList block
  reads_back : readBlocks source.toList after = .ok back

namespace Site

variable (site : Site source front block back)

/-- Where the first token of the block begins. -/
def start : Nat := site.parts.tokens.head?.elim 0 Token.start

/-- The text of the block up to its opening bracket. -/
def heading : List Char := slice source.toList site.start site.parts.opener.start

/-- The line for one name, which is given by its tokens. -/
def line (run : List Token) : List Char :=
  site.heading ++ '{' :: (runText source.toList run ++ ['}'])

/-- The source with one line for each name in place of the block, and perhaps blanks behind them. -/
def writtenOut (ending : List Char) : String :=
  String.ofList (source.toList.take site.start ++
    (List.intercalate ['\n'] (site.parts.names.map site.line) ++
      (ending ++ source.toList.drop site.parts.closer.stop)))

/-- Whether a source is cut into pieces in front of the block and behind its heading. -/
structure CutAt (above head rest : List Segment) : Prop where
  whole : segments source.toList = .ok (above ++ (head ++ rest))
  text_above : source.toList.take site.start = above.flatMap Segment.text
  before : place 0 .start above = site.before
  heading : site.heading = head.flatMap Segment.text
  stem : Yields source.toList head site.parts.stem
  /-- The opening bracket follows the heading at once. -/
  seam : ∃ c ∈ (rest.flatMap Segment.text).head?, isBlank c = false
  opener : site.parts.opener.start = ((above ++ head).flatMap Segment.text).length
  names : ∃ there, place site.parts.opener.start there rest =
    site.parts.opener :: site.parts.body ++ site.parts.closer :: site.after

/-- Whether some pieces are what stands behind the block. -/
structure CutBelow (below : List Segment) : Prop where
  text : source.toList.drop site.parts.closer.stop = below.flatMap Segment.text
  alone : segments (below.flatMap Segment.text) = .ok below
  after : Yields source.toList below site.after

/-- The block begins with the first token of its heading. -/
theorem exists_first :
    ∃ first more, site.parts.stem = first :: more ∧ site.start = first.start := by
  have hp := proper_of_sourceTokens site.tokens
  have hptype : ∀ t ∈ lexemes site.parts.type, t.Proper := fun t ht => hp t (by
    simp [BlockParts.tokens, BlockParts.stem, lexemes_append, ht])
  obtain ⟨t, others, htype, -⟩ := exists_of_derives hptype site.standFor.derives
  obtain ⟨first, more, hstem⟩ := List.exists_cons_of_ne_nil
    (show site.parts.stem ≠ [] by simp [BlockParts.stem, htype])
  refine ⟨first, more, hstem, ?_⟩
  rw [start, BlockParts.tokens, hstem]
  rfl

/-- The pieces of a source can be parted where the block and its opening bracket begin. -/
theorem exists_cutAt : ∃ above head rest, site.CutAt above head rest := by
  obtain ⟨pieces, hpieces, hplace⟩ := exists_segments site.tokens
  obtain ⟨first, more, hstem, hstart⟩ := site.exists_first
  have htokens : place 0 .start pieces = site.before ++ first :: (more ++
      site.parts.opener :: (site.parts.body ++ site.parts.closer :: site.after)) := by
    rw [← hplace, BlockParts.tokens, hstem]
    simp
  obtain ⟨above, piece, others, there, rfl, -, -, habove, -, hfrom, hfirst, -⟩ := exists_cut htokens
  rw [← List.cons_append, ← hstem] at hfrom
  obtain ⟨head, bracket, rest, there', hothers, hkind, -, hhead, -, hrest, hopener, -⟩ :=
    exists_cut hfrom
  rw [hothers] at hpieces
  rw [Nat.zero_add] at hfirst
  have hsource : source.toList = above.flatMap Segment.text ++
      (head.flatMap Segment.text ++ (bracket :: rest).flatMap Segment.text) := by
    rw [← List.flatMap_append, ← List.flatMap_append, flatten_segments hpieces]
  refine ⟨above, head, bracket :: rest, hpieces, ?_, habove, ?_, ?_, ?_, ?_, there', hrest⟩
  · rw [hstart, hfirst, hsource, List.take_left]
  · rw [heading, hopener, hstart, hfirst, hsource, slice_append, List.take_left]
  · exact ⟨above.flatMap Segment.text, (bracket :: rest).flatMap Segment.text, there,
      by rw [hsource, List.append_assoc], by rw [← hfirst, hhead]⟩
  · have hread := (segments_split (segments_split hpieces).2).2
    obtain ⟨c, hc, hplain⟩ := exists_of_isSome_kind hread bracket List.mem_cons_self
      (by rw [hkind]; rfl)
    obtain ⟨text, htext⟩ := List.head?_eq_some_iff.mp hc
    exact ⟨c, by rw [List.flatMap_cons, htext]; rfl, hplain⟩
  · rw [hopener, hfirst, List.flatMap_append, List.length_append]

variable {site} {above head rest : List Segment}

theorem CutAt.exists_cutBelow (h : site.CutAt above head rest) : ∃ below, site.CutBelow below := by
  obtain ⟨there, hnames⟩ := h.names
  obtain ⟨inner, bracket, below, there', rfl, hkind, -, -, -, hbelow, hcloser, hstop⟩ :=
    exists_cut hnames
  have hread : segments source.toList = .ok (above ++ head ++ inner ++ [bracket] ++ below) := by
    rw [h.whole]
    simp
  have hlength : site.parts.closer.stop =
      ((above ++ head ++ inner ++ [bracket]).flatMap Segment.text).length := by
    rw [hstop, hcloser, h.opener]
    simp [Nat.add_assoc]
  have hsource := (flatten_segments hread).symm
  rw [List.flatMap_append] at hsource
  refine ⟨below, ?_, (segments_split hread).2, _, [], there'.advanceBy bracket.text,
    hsource.trans (List.append_nil _).symm, ?_⟩
  · rw [hlength, hsource, List.drop_left]
  · rw [place, hkind, ← hstop] at hbelow
    rw [← hlength]
    exact (List.cons.inj hbelow).2

variable (site)

theorem infix_of_mem_names {run : List Token} (h : run ∈ site.parts.names) :
    run <:+: site.before ++ (site.parts.tokens ++ site.after) := by
  have hbody : site.parts.body <:+: site.parts.tokens :=
    (List.suffix_cons site.parts.opener _).isInfix.trans (List.infix_append _ _ _)
  refine ((infix_of_punctuated site.standFor.punctuated h).trans hbody).trans ?_
  exact ⟨site.before, site.after, by rw [List.append_assoc]⟩

/-- The texts of the names are read as their tokens alone, and end with the names. -/
theorem exists_bodies : ∃ bodies,
    List.Forall₂ (fun run body => Excerpt source.toList run body ∧ EndsInWord body)
      site.parts.names bodies := by
  have hin := fun run => @infix_of_mem_names _ _ _ _ site run
  have hnames := site.standFor.names
  generalize site.parts.names = runs, block.names = names at hin hnames
  induction hnames with
  | nil => exact ⟨[], .nil⟩
  | @cons run decl runs names hdecl _ ih =>
    obtain ⟨hrun, hruns⟩ := List.forall_mem_cons.mp hin
    obtain ⟨bodies, hbodies⟩ := ih hruns
    obtain @⟨attributes, _, t, -, hname⟩ := hdecl
    obtain ⟨body, hbody⟩ := exists_excerpt site.tokens hrun (by simp)
    have hword : EndsInWord body := by
      refine ⟨hbody.alone, fun last hlast => ?_⟩
      rw [hbody.last hlast List.getLast?_concat, (nameFault?_eq_none_iff.mp hname).1]
    exact ⟨body :: bodies, .cons ⟨hbody, hword⟩ hbodies⟩

end Site

/-- Every block of a source that is read has its place there. -/
theorem nonempty_site (h : readSource source = .ok (front ++ block :: back)) :
    Nonempty (Site source front block back) := by
  obtain ⟨ts, hts, hread⟩ := readBlocks_of_readSource h
  obtain ⟨runs, rest, rfl, hruns, hrest⟩ :=
    exists_runs_of_readBlocks (proper_of_sourceTokens hts) hread
  have hp := proper_of_sourceTokens hts
  have hin := (tiles_of_sourceTokens hts).standsIn
  rw [lexemes_append, List.forall_mem_append] at hp
  rw [List.forall_mem_append] at hin
  have hfront := readBlocks_of_runs hruns (@readBlocks_nil source.toList)
  rw [List.append_nil, List.append_nil] at hfront
  obtain ⟨next, hblock, hnext⟩ := exists_of_readBlocks_cons hrest
  obtain ⟨p, rfl, hstands⟩ := exists_parts_of_readBlock hp.2 hin.2 hblock
  exact ⟨⟨_, p, next, hts, hfront, hstands, hnext⟩⟩

/-! ## Reading the lines -/

/-- Blanks as pieces of their own. -/
def blankPieces (blanks : List Char) : List Segment :=
  blanks.map fun b => ⟨none, [b]⟩

theorem flatMap_blankPieces (blanks : List Char) :
    (blankPieces blanks).flatMap Segment.text = blanks := by
  rw [blankPieces, List.flatMap_map]
  exact List.flatMap_singleton' blanks

theorem place_blankPieces (start : Nat) (here : Location) (blanks : List Char) :
    place start here (blankPieces blanks) = [] := by
  induction blanks generalizing start here with
  | nil => rfl
  | cons b blanks ih => exact ih ..

theorem segments_blankPieces {blanks tail : List Char} {later : List Segment}
    (hblanks : ∀ b ∈ blanks, isBlank b = true) (hlater : segments tail = .ok later) :
    segments (blanks ++ tail) = .ok (blankPieces blanks ++ later) := by
  induction blanks with
  | nil => exact hlater
  | cons b blanks ih =>
    obtain ⟨hb, hothers⟩ := List.forall_mem_cons.mp hblanks
    exact segments_cons none 0 (readPiece_of_isBlank hb) (ih hothers)

namespace Site

variable {site : Site source front block back} {above head rest below : List Segment}
  {bodies : List (List Segment)} {ending : List Char}

theorem toList_writtenOut (h : site.CutAt above head rest) (hbelow : site.CutBelow below)
    (hbodies : List.Forall₂ (fun run body => Excerpt source.toList run body ∧ EndsInWord body)
      site.parts.names bodies) :
    (site.writtenOut ending).toList =
      above.flatMap Segment.text ++ ((linesPieces head bodies).flatMap Segment.text ++
        (ending ++ below.flatMap Segment.text)) := by
  have hlines : site.parts.names.map site.line =
      bodies.map fun body => (linePieces head body).flatMap Segment.text := by
    rw [← List.forall₂_eq_eq_eq, List.forall₂_map_left_iff, List.forall₂_map_right_iff]
    refine hbodies.imp fun run body hbody => ?_
    rw [line, flatMap_linePieces, h.heading, hbody.1.text]
  rw [writtenOut, String.toList_ofList, h.text_above, hbelow.text, hlines, flatMap_linesPieces]

/-- The source with lines is cut into the pieces above the block, those of the lines, and those
below. -/
theorem segments_writtenOut (h : site.CutAt above head rest) (hbelow : site.CutBelow below)
    (hne : bodies ≠ []) (hbodies : ∀ body ∈ bodies, EndsInWord body)
    (hending : ∀ c ∈ ending, isBlank c = true) :
    segments (above.flatMap Segment.text ++ ((linesPieces head bodies).flatMap Segment.text ++
      (ending ++ below.flatMap Segment.text))) =
      .ok (above ++ (linesPieces head bodies ++ (blankPieces ending ++ below))) := by
  have hlines := segments_linesPieces (segments_split h.whole).2 h.seam hbodies
    (segments_blankPieces hending hbelow.alone)
  -- The first heading is cut together with what stands above it.
  obtain ⟨more, hmore⟩ := exists_of_linesPieces head hne
  have htext := flatten_segments hlines
  rw [hmore, List.append_assoc] at hlines htext
  obtain ⟨others, hothers⟩ : ∃ others, others =
    (⟨some .punct, ['{']⟩ :: more : List Segment) ++ (blankPieces ending ++ below) := ⟨_, rfl⟩
  have hcurly : EndsBoundary (others.flatMap Segment.text) := by
    subst hothers
    rintro d ⟨⟩
    rfl
  rw [← hothers] at hlines htext
  have hwhole := h.whole
  rw [← List.append_assoc] at hwhole
  have hall := segments_append_of_seam hwhole hcurly (.plain h.seam) (segments_split hlines).2
  rw [hmore, ← htext, List.append_assoc, ← hothers, List.flatMap_append, ← List.append_assoc,
    ← List.append_assoc, ← List.flatMap_append]
  exact hall

/-- Copies of the tokens around the block stand around the lines. -/
theorem exists_tokens (site : Site source front block back) (hnames : block.names ≠ [])
    (hending : ∀ c ∈ ending, isBlank c = true) : ∃ before lines after,
    sourceTokens (site.writtenOut ending) = .ok (before ++ (lines.flatten ++ after)) ∧
      Copied source.toList (site.writtenOut ending).toList site.before before ∧
      List.Forall₂ (IsLine source.toList (site.writtenOut ending).toList site.parts.stem)
        site.parts.names lines ∧
      Copied source.toList (site.writtenOut ending).toList site.after after := by
  obtain ⟨above, head, rest, hcut⟩ := site.exists_cutAt
  obtain ⟨below, hbelow⟩ := hcut.exists_cutBelow
  obtain ⟨bodies, hbodies⟩ := site.exists_bodies
  have hne : bodies ≠ [] := by
    rintro rfl
    have hlength := site.standFor.names.length_eq
    rw [hbodies.length_eq] at hlength
    exact hnames (List.eq_nil_of_length_eq_zero hlength.symm)
  have hwords : ∀ body ∈ bodies, EndsInWord body := fun body hmem => by
    obtain ⟨run, -, hbody⟩ := exists_of_forall₂ hbodies hmem
    exact hbody.2
  have hruns : List.Forall₂ (Yields source.toList) bodies site.parts.names :=
    (hbodies.imp fun _ _ hbody => hbody.1.yields).flip
  have htext := @toList_writtenOut _ _ _ _ _ _ _ _ _ _ ending hcut hbelow hbodies
  have htokens := sourceTokens_of_segments
    (htext ▸ segments_writtenOut hcut hbelow hne hwords hending)
  rw [place_append, place_append, place_append, place_blankPieces, List.nil_append,
    flatMap_blankPieces, Nat.zero_add] at htokens
  have habove : Yields source.toList above site.before :=
    ⟨[], (head ++ rest).flatMap Segment.text, .start, by
      rw [← flatten_segments hcut.whole, List.flatMap_append, List.nil_append], hcut.before⟩
  have hfront : (site.writtenOut ending).toList = [] ++ above.flatMap Segment.text ++
      ((linesPieces head bodies).flatMap Segment.text ++
        (ending ++ below.flatMap Segment.text)) := by rw [htext, List.nil_append]
  have hmiddle : (site.writtenOut ending).toList = above.flatMap Segment.text ++
      (linesPieces head bodies).flatMap Segment.text ++ (ending ++ below.flatMap Segment.text) := by
    rw [htext, List.append_assoc]
  have hback : (site.writtenOut ending).toList = above.flatMap Segment.text ++
      (linesPieces head bodies).flatMap Segment.text ++ ending ++ below.flatMap Segment.text ++
      [] := by simp [htext]
  obtain ⟨lines, hlines, hall⟩ := exists_lines hcut.stem hruns hmiddle
    (Location.start.advanceBy (above.flatMap Segment.text))
  rw [hlines] at htokens
  have hafter := copied_of_yields hbelow.after hback
  simp only [List.length_append] at hafter
  exact ⟨_, lines, _, htokens, copied_of_yields habove hfront .start, hall, hafter _⟩

/-- The source with lines is read as the blocks around the lines and one block for each line. -/
theorem readSource_writtenOut (site : Site source front block back) (hnames : block.names ≠ [])
    (hending : ∀ c ∈ ending, isBlank c = true) :
    ∃ blocks, readSource (site.writtenOut ending) = .ok blocks ∧
      List.Forall₂ (Declaration.Alike elsewhere)
        (front ++ (block.names.map block.sole ++ back)) blocks := by
  obtain ⟨before, lines, after, htokens, hbefore, hlines, hafter⟩ :=
    site.exists_tokens hnames hending
  obtain ⟨front', hfront, hfrontAlike⟩ := hbefore.reads_blocks site.reads_front
  obtain ⟨back', hback, hbackAlike⟩ := hafter.reads_blocks site.reads_back
  have hproper := proper_of_sourceTokens site.tokens
  have hpstem : ∀ t ∈ lexemes site.parts.stem, t.Proper := fun t ht => hproper t (by
    simp [BlockParts.tokens, lexemes_append, ht])
  have hpruns : ∀ run ∈ site.parts.names, ∀ t ∈ lexemes run, t.Proper := fun run hrun t ht =>
    hproper t (((site.infix_of_mem_names hrun).map Token.toLexeme).subset ht)
  obtain ⟨soles, hsoles, hsolesAlike⟩ :=
    exists_soles site.standFor hpstem hpruns site.standFor.names hlines
  have hall := readBlocks_append hfront (lines.flatten ++ after)
  rw [readBlocks_of_runs hsoles hback] at hall
  exact ⟨_, readSource_of_readBlocks htokens hall,
    List.rel_append hfrontAlike (List.rel_append hsolesAlike hbackAlike)⟩

end Site

/-! ## Expansions that differ in places -/

/-- Whether two results are the same but for the place of a diagnostic. -/
inductive Outcome.SameElsewhere : Outcome → Outcome → Prop
  | generated (wrapper : Generated) : SameElsewhere (.generated wrapper) (.generated wrapper)
  | failed (kind : ErrorKind) (message : String) (location location' : Location)
      (name : Option String) :
      SameElsewhere (.failed ⟨kind, message, location, name⟩)
        (.failed ⟨kind, message, location', name⟩)

/-- Whether two expansions are about the same specifications with the same results, but for
places. -/
structure Expansion.SameElsewhere (e e' : Expansion) : Prop where
  specs : List.Forall₂ (Spec.Alike elsewhere) e.specs e'.specs
  results : List.Forall₂ Outcome.SameElsewhere e.results e'.results

/-- A wrapper does not depend on places. -/
theorem ofSpec_elsewhere {spec spec' : Spec} (h : spec.Alike elsewhere spec') :
    Wrapper.ofSpec spec = .ofSpec spec' := by
  have hpassed : List.Forall₂ (Attribute.Alike elsewhere) (passedOn spec.attributes)
      (passedOn spec'.attributes) := by
    refine List.rel_filter (fun a a' ha => ?_) h.attributes
    simp only [Attribute.isControl, ha.path]
  have htexts : (passedOn spec.attributes).map Attribute.text =
      (passedOn spec'.attributes).map Attribute.text := by
    rw [← List.forall₂_eq_eq_eq, List.forall₂_map_left_iff, List.forall₂_map_right_iff]
    exact hpassed.imp fun _ _ ha => ha.text
  simp only [Wrapper.ofSpec, Wrapper.ofParts, h.name, h.inner.text, h.visibility, htexts]

theorem Outcome.Alike.sameElsewhere {spec spec' : Spec} {outcome outcome' : Outcome}
    (hspec : spec.Alike elsewhere spec') (h : Outcome.Alike elsewhere spec spec' outcome outcome') :
    outcome.SameElsewhere outcome' := by
  cases h with
  | generated group items =>
    rw [ofSpec_elsewhere hspec]
    exact .generated _
  | failed => exact .failed ..

/-- Sources with the same specifications but for places have the same results but for places. -/
theorem ofSource_elsewhere {source' : String} {blocks blocks' : List Declaration} {e : Expansion}
    (hread : readSource source = .ok blocks) (hread' : readSource source' = .ok blocks')
    (h : List.Forall₂ (Spec.Alike elsewhere) (specsOf blocks) (specsOf blocks'))
    (he : Expansion.ofSource source features = .ok e) :
    ∃ e', Expansion.ofSource source' features = .ok e' ∧ e.SameElsewhere e' := by
  obtain ⟨results, hresults, rfl⟩ := results_of_ofSource hread he
  have hanswers := @Likeness.expand_specs _ _ _ features _ _ h
  rw [hresults] at hanswers
  rw [ofSource_of_readSource hread']
  generalize (specsOf blocks').mapM (expandSpec features) = found at hanswers
  cases hanswers with
  | @ok _ results' hall =>
    obtain ⟨answers, answers', halike, -, rfl, -, rfl⟩ := hall
    refine ⟨_, rfl, h, ?_⟩
    rw [List.forall₂_map_left_iff, List.forall₂_map_right_iff]
    exact halike.imp fun _ _ hanswer => hanswer.result.sameElsewhere hanswer.spec

/-- Blocks of one name each have the specifications of the block. -/
theorem specsOf_lines (front back : List Declaration) (block : Declaration) :
    specsOf (front ++ (block.names.map block.sole ++ back)) =
      specsOf (front ++ block :: back) := by
  have happend (l l' : List Declaration) : specsOf (l ++ l') = specsOf l ++ specsOf l' :=
    List.flatMap_append
  rw [happend, happend, happend, specsOf_sole]
  rfl

/-- A block is shorthand for one block for each of its names. Where lines with one name each take
its place, the source is read as these blocks, and the same is generated but for places. -/
theorem shorthand_of_readSource {e : Expansion}
    (h : readSource source = .ok (front ++ block :: back)) (hnames : block.names ≠ [])
    (he : Expansion.ofSource source features = .ok e) :
    Nonempty (Site source front block back) ∧
      ∀ (site : Site source front block back) (ending : List Char),
        (∀ c ∈ ending, isBlank c = true) →
        ∃ blocks e', readSource (site.writtenOut ending) = .ok blocks ∧
          List.Forall₂ (Declaration.Alike elsewhere)
            (front ++ (block.names.map block.sole ++ back)) blocks ∧
          Expansion.ofSource (site.writtenOut ending) features = .ok e' ∧ e.SameElsewhere e' := by
  refine ⟨nonempty_site h, fun site ending hending => ?_⟩
  obtain ⟨blocks, hread, hblocks⟩ := site.readSource_writtenOut hnames hending
  have hspecs := Likeness.specsOf_alike hblocks
  rw [specsOf_lines] at hspecs
  obtain ⟨e', he', hsame⟩ := ofSource_elsewhere h hread hspecs he
  exact ⟨blocks, e', hread, hblocks, he', hsame⟩

/-! ## A block with two names -/

/-- A block with two names, a bracket in a comment and a comma behind the second name. -/
def listedSource : String := "pub A/*\x7b*/\x7bB,C,\x7d"

/-- Its tokens, part by part. -/
def listedParts : BlockParts where
  attributes := []
  visibility := [⟨ident "pub", ⟨1, 1⟩, 0, 3⟩]
  type := [⟨ident "A", ⟨1, 5⟩, 4, 5⟩]
  opener := ⟨punct "\x7b", ⟨1, 11⟩, 10, 11⟩
  names := [[⟨ident "B", ⟨1, 12⟩, 11, 12⟩], [⟨ident "C", ⟨1, 14⟩, 13, 14⟩]]
  body := [⟨ident "B", ⟨1, 12⟩, 11, 12⟩, ⟨punct ",", ⟨1, 13⟩, 12, 13⟩,
    ⟨ident "C", ⟨1, 14⟩, 13, 14⟩, ⟨punct ",", ⟨1, 15⟩, 14, 15⟩]
  closer := ⟨punct "\x7d", ⟨1, 16⟩, 15, 16⟩

/-- The block that is read from them. -/
def listedBlock : Declaration :=
  ⟨[], ⟨"A", ⟨1, 5⟩⟩, "pub", [⟨"B", [], ⟨1, 12⟩⟩, ⟨"C", [], ⟨1, 14⟩⟩]⟩

theorem sourceTokens_listed : sourceTokens listedSource = .ok listedParts.tokens := by
  have hsegments : segments listedSource.toList = .ok
      [⟨some .ident, "pub".toList⟩, ⟨none, [' ']⟩, ⟨some .ident, ['A']⟩,
        ⟨none, "/*\x7b*/".toList⟩, ⟨some .punct, "\x7b".toList⟩, ⟨some .ident, ['B']⟩,
        ⟨some .punct, [',']⟩, ⟨some .ident, ['C']⟩, ⟨some .punct, [',']⟩,
        ⟨some .punct, "\x7d".toList⟩] := by
    refine segments_cons _ 2 rfl (segments_cons _ 0 rfl (segments_cons _ 0 rfl ?_))
    refine segments_cons _ 4 rfl (segments_cons _ 0 rfl (segments_cons _ 0 rfl ?_))
    refine segments_cons _ 0 rfl (segments_cons _ 0 rfl (segments_cons _ 0 rfl ?_))
    exact segments_cons _ 0 rfl segments_nil
  exact sourceTokens_of_segments hsegments

theorem readSource_listed : readSource listedSource = .ok [listedBlock] := by
  have hA : readAttributes listedSource.toList listedParts.tokens = .ok ([], _) :=
    readAttributes_of_other (show TokenKind.ident ≠ .doc by decide) rfl
  have hB : readAttributes listedSource.toList (listedParts.tokens.drop 3) = .ok ([], _) :=
    readAttributes_of_other (show TokenKind.ident ≠ .doc by decide) rfl
  have hC : readAttributes listedSource.toList (listedParts.tokens.drop 5) = .ok ([], _) :=
    readAttributes_of_other (show TokenKind.ident ≠ .doc by decide) rfl
  have hend : readNames listedSource.toList (listedParts.tokens.drop 7) =
      .ok ([], listedParts.tokens.drop 7) := by
    rw [readNames]
    rfl
  have hnames := readNames_cons rfl (readName_of_attributes (by decide) hB) rfl
    (readNames_cons rfl (readName_of_attributes (by decide) hC) rfl hend)
  have hpass : Goal.pass [.type] (listedParts.tokens.drop 1) = .ok (listedParts.tokens.drop 2) :=
    pass_of_step rfl (pass_of_step rfl (pass_of_step rfl (pass_of_step rfl pass_nil)))
  have hblock := readBlock_of_parts hA rfl (readType_of_pass hpass) rfl rfl hnames rfl rfl
  exact readSource_of_readBlocks sourceTokens_listed
    (readBlocks_of_readBlock hblock readBlocks_nil)

theorem standFor_listed : listedParts.StandFor listedSource.toList listedBlock where
  attributes := .nil
  visibility := by
    refine ⟨.plain, trivial, rfl, rfl, fun _ => ?_⟩
    rintro (⟨word, -, others, hothers⟩ | ⟨others, hothers⟩) <;> cases hothers
  derives := by
    have hword : Derives .segment [ident "A"] := .word rfl (by decide)
    have hpath : Derives .path [ident "A"] :=
      @Derives.path false [[ident "A"]] (by simp) (by simpa using hword)
    exact .named hpath (by decide)
  inner := rfl
  opener := rfl
  punctuated := .cons rfl (.cons rfl .nil)
  names := .cons (@DeclaredName.StandsAlone.mk _ [] [] _ .nil (by decide))
    (.cons (@DeclaredName.StandsAlone.mk _ [] [] _ .nil (by decide)) .nil)
  closer := rfl

/-- Where the block stands. -/
def listedSite : Site listedSource [] listedBlock [] where
  before := []
  parts := listedParts
  after := []
  tokens := by rw [sourceTokens_listed, List.append_nil, List.nil_append]
  reads_front := readBlocks_nil
  standFor := standFor_listed
  reads_back := readBlocks_nil

/-- The commas are gone, and each line has the visibility, the type and the comment. -/
theorem shorthand_of_readSource_listed :
    ∃ e, readSource listedSource = .ok [listedBlock] ∧ listedBlock.names ≠ [] ∧
      Expansion.ofSource listedSource .default = .ok e ∧
      listedSite.writtenOut [] = "pub A/*\x7b*/\x7bB\x7d\npub A/*\x7b*/\x7bC\x7d" ∧
      ∃ blocks e', readSource (listedSite.writtenOut []) = .ok blocks ∧
        List.Forall₂ (Declaration.Alike elsewhere)
          ([] ++ (listedBlock.names.map listedBlock.sole ++ [])) blocks ∧
        Expansion.ofSource (listedSite.writtenOut []) .default = .ok e' ∧ e.SameElsewhere e' := by
  have hnames : listedBlock.names ≠ [] := List.cons_ne_nil _ _
  have hbare : ∀ spec ∈ specsOf [listedBlock], spec.attributes = [] := by
    simp [specsOf, Declaration.specs, listedBlock]
  have hnone : ∀ spec ∈ specsOf [listedBlock], ¬ SecretMissesArgument spec.attributes := by
    rintro spec hspec ⟨a, _, ha, -⟩
    rw [hbare spec hspec] at ha
    cases ha
  obtain ⟨results, hresults⟩ := (@exists_forall₂_iff .default _).mpr hnone
  have he := ofSource_of_readSource readSource_listed .default
  rw [mapM_ok_iff.mpr hresults] at he
  exact ⟨_, readSource_listed, hnames, he, rfl,
    (shorthand_of_readSource readSource_listed hnames he).2 listedSite [] (List.forall_mem_nil _)⟩

end Microtypes
