import Microtypes.Proofs.Token.Displacement
import Microtypes.Proofs.Token.Legibility

/-!
# Excerpts

What stands in a source from the first of several tokens to the last one is read by itself as these
tokens (`lexed_excerpt`). No piece depends on the pieces around it, because each is read the same
where the text ends behind it.
-/

namespace Microtypes

variable {source : List Char} {front back pieces : List Segment} {start : Nat} {here : Location}
  {before run after : List Token} {first last t : Token}

/-- The pieces in front of a place and those behind it are read by themselves. -/
theorem segments_split (h : segments source = .ok (front ++ back)) :
    segments (front.flatMap Segment.text) = .ok front ∧
      segments (back.flatMap Segment.text) = .ok back := by
  induction front generalizing source with
  | nil =>
    rw [List.nil_append] at h
    refine ⟨segments_nil, ?_⟩
    rwa [flatten_segments h]
  | cons piece front ih =>
    obtain ⟨c, taken, rest, reading, -, rfl, hmore, hread, hlater⟩ := exists_of_segments_cons h
    obtain ⟨hfront, hback⟩ := ih hlater
    refine ⟨?_, hback⟩
    have hrest : front.flatMap Segment.text ++ back.flatMap Segment.text = rest := by
      rw [← List.flatMap_append]
      exact flatten_segments hlater
    have hlong : readPiece c (taken ++ front.flatMap Segment.text ++
        back.flatMap Segment.text) = .ok reading := by
      rwa [List.append_assoc, hrest]
    have hread' := readPiece_of_endsLine endsLine_nil hlong (by
      rw [List.length_append, hmore]
      exact Nat.le_add_right _ _)
    rw [List.append_nil] at hread'
    have hall := segments_cons reading.kind reading.more hread' (by
      rw [List.drop_left' hmore.symm]
      exact hfront)
    rw [List.take_left' hmore.symm] at hall
    exact hall

/-- The pieces on either side of a token. -/
theorem exists_of_place (h : place start here pieces = before ++ t :: after) :
    ∃ front piece back there, pieces = front ++ piece :: back ∧
      front.filterMap Segment.lexeme? = lexemes before ∧ piece.lexeme? = some t.toLexeme ∧
      t.start = start + (front.flatMap Segment.text).length ∧
      t.stop = t.start + piece.text.length ∧ place t.stop there back = after := by
  induction pieces generalizing start here before with
  | nil =>
    exact absurd h.symm (List.append_ne_nil_of_right_ne_nil before (List.cons_ne_nil t after))
  | cons piece pieces ih =>
    rw [place] at h
    cases hkind : piece.kind with
    | none =>
      rw [hkind] at h
      obtain ⟨front, token, back, there, rfl, hfront, htoken, hstart, hstop, hback⟩ := ih h
      have hnone : piece.lexeme? = none := by rw [Segment.lexeme?, hkind]; rfl
      refine ⟨piece :: front, token, back, there, rfl, ?_, htoken, ?_, hstop, hback⟩
      · rw [List.filterMap_cons_none hnone, hfront]
      · rw [hstart, List.flatMap_cons, List.length_append, Nat.add_assoc]
    | some kind =>
      have hsome : piece.lexeme? = some ⟨kind, String.ofList piece.text⟩ := by
        rw [Segment.lexeme?, hkind]
        rfl
      rw [hkind] at h
      cases before with
      | nil =>
        cases h
        exact ⟨[], piece, pieces, _, rfl, rfl, hsome, rfl, rfl, rfl⟩
      | cons u before =>
        obtain ⟨rfl, hlater⟩ := List.cons.inj h
        obtain ⟨front, token, back, there, rfl, hfront, htoken, hstart, hstop, hback⟩ := ih hlater
        refine ⟨piece :: front, token, back, there, rfl, ?_, htoken, ?_, hstop, hback⟩
        · rw [List.filterMap_cons_some hsome, hfront]
          rfl
        · rw [hstart, List.flatMap_cons, List.length_append, Nat.add_assoc]

/-- The pieces in front of a token stand for the tokens before it, and one piece for the token. -/
theorem exists_cut (h : place start here pieces = before ++ t :: after) :
    ∃ front piece back there, pieces = front ++ piece :: back ∧ piece.kind = some t.kind ∧
      there = here.advanceBy (front.flatMap Segment.text) ∧ place start here front = before ∧
      place t.start there [piece] = [t] ∧ place t.start there (piece :: back) = t :: after ∧
      t.start = start + (front.flatMap Segment.text).length ∧
      t.stop = t.start + piece.text.length := by
  obtain ⟨front, piece, back, -, rfl, hfront, hpiece, hstart, hstop, -⟩ := exists_of_place h
  have hlength : (place start here front).length = before.length := by
    have hlexemes : lexemes (place start here front) = lexemes before := by
      rw [lexemes_place, hfront]
    simpa [lexemes] using congrArg List.length hlexemes
  rw [place_append, ← hstart] at h
  obtain ⟨hbefore, hafter⟩ := List.append_inj h hlength
  cases hkind : piece.kind with
  | none => rw [Segment.lexeme?, hkind] at hpiece; cases hpiece
  | some kind =>
    rw [Segment.lexeme?, hkind] at hpiece
    refine ⟨front, piece, back, _, rfl, hkind.trans (congrArg (Option.map Lexeme.kind) hpiece), rfl,
      hbefore, ?_, hafter, hstart, hstop⟩
    rw [place, hkind] at hafter ⊢
    exact congrArg ([·]) (List.cons.inj hafter).1

/-- What stands in a source from the first to the last token of a run. -/
def runText (source : List Char) (run : List Token) : List Char :=
  slice source (run.head?.elim 0 Token.start) (run.getLast?.elim 0 Token.stop)

theorem runText_of_ends (hfirst : run.head? = some first) (hlast : run.getLast? = some last) :
    runText source run = slice source first.start last.stop := by
  rw [runText, hfirst, hlast]
  rfl

/-- Whether a text that stands in a source, cut into pieces, yields a run of tokens there. -/
def Yields (source : List Char) (pieces : List Segment) (run : List Token) : Prop :=
  ∃ above below there, source = above ++ pieces.flatMap Segment.text ++ below ∧
    place above.length there pieces = run

/-- Whether some pieces are what stands in a source from the first to the last token of a run. -/
structure Excerpt (source : List Char) (run : List Token) (pieces : List Segment) : Prop where
  text : runText source run = pieces.flatMap Segment.text
  /-- They are read from their text alone. -/
  alone : segments (pieces.flatMap Segment.text) = .ok pieces
  yields : Yields source pieces run
  last {piece : Segment} {t : Token} (hpiece : pieces.getLast? = some piece)
    (ht : run.getLast? = some t) : piece.kind = some t.kind

/-- What stands from the first to the last token of a run is an excerpt. -/
theorem exists_excerpt {source : String} {ts : List Token} (h : sourceTokens source = .ok ts)
    (hrun : run <:+: ts) (hne : run ≠ []) : ∃ pieces, Excerpt source.toList run pieces := by
  obtain ⟨pieces, hpieces, rfl⟩ := exists_segments h
  obtain ⟨before, after, hsplit⟩ := hrun
  obtain ⟨init, last, hinit⟩ := List.eq_nil_or_concat run |>.resolve_left hne
  obtain ⟨first, more, rfl⟩ := List.exists_cons_of_ne_nil hne
  rw [List.concat_eq_append] at hinit
  rw [List.append_assoc, List.cons_append] at hsplit
  obtain ⟨front, piece, others, there, rfl, -, -, -, -, hrun, hstart, -⟩ := exists_cut hsplit.symm
  rw [← List.cons_append, hinit, List.append_assoc, List.singleton_append] at hrun
  obtain ⟨inner, final, back, -, hothers, hkind, rfl, hinner, hfinal, -, hstart', hstop'⟩ :=
    exists_cut hrun
  rw [Nat.zero_add] at hstart
  have hsource : source.toList = front.flatMap Segment.text ++
      ((inner ++ [final]).flatMap Segment.text ++ back.flatMap Segment.text) := by
    rw [← flatten_segments hpieces, hothers]
    simp
  have hlast : (first :: more).getLast? = some last := by rw [hinit, List.getLast?_concat]
  have hstop : last.stop = first.start + ((inner ++ [final]).flatMap Segment.text).length := by
    rw [hstop', hstart']
    simp [Nat.add_assoc]
  rw [hothers, List.append_cons] at hpieces
  refine ⟨inner ++ [final], ?_, (segments_split (segments_split hpieces).2).1,
    ⟨_, _, there, by rw [hsource, List.append_assoc], ?_⟩, ?_⟩
  · rw [runText_of_ends rfl hlast, hstop, hstart, hsource, slice_append, List.take_left]
  · rw [← hstart, place_append, hinner, ← hstart', hfinal, hinit]
  · intro piece' t hpiece ht
    rw [List.getLast?_concat] at hpiece
    cases hpiece
    cases hlast.symm.trans ht
    exact hkind

/-- The text from the first to the last token of a run is read as the run. -/
theorem lexed_excerpt {source : String} {ts : List Token} (h : sourceTokens source = .ok ts)
    (hrun : run <:+: ts) (hfirst : run.head? = some first) (hlast : run.getLast? = some last) :
    lexed (slice source.toList first.start last.stop) = .ok (lexemes run) := by
  have hne : run ≠ [] := by
    rintro rfl
    cases hfirst
  obtain ⟨pieces, hexcerpt⟩ := exists_excerpt h hrun hne
  obtain ⟨above, -, there, -, hplace⟩ := hexcerpt.yields
  rw [← runText_of_ends hfirst hlast, hexcerpt.text, lexed, hexcerpt.alone, ← hplace, lexemes_place]
  rfl

end Microtypes
