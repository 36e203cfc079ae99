import Microtypes.Proofs.Text.Location
import Microtypes.Proofs.Token.Tiling

/-!
# A source below another one

Where a source is put below another one, with a line end between them, its tokens are the same
further down: their lines and offsets grow and their columns stay. The tokens of the upper source
stay as they are (`sourceTokens_below`), and an error of the lower one moves down with its place.
-/

namespace Microtypes

variable {lines chars : Nat} {upper lower : List Char} {pieces : List Segment}

/-- The position in the same column of a later line. -/
def Location.down (lines : Nat) (here : Location) : Location :=
  ⟨here.line + lines, here.column⟩

/-- A token moved down, past further characters. -/
def Token.moved (lines chars : Nat) (t : Token) : Token :=
  { t with
    location := t.location.down lines
    start := t.start + chars
    stop := t.stop + chars }

namespace Location

theorem advance_down (here : Location) (c : Char) :
    (here.down lines).advance c = (here.advance c).down lines := by
  unfold advance
  split
  · rw [down, down, Nat.add_right_comm]
  · rfl

theorem advanceBy_down (here : Location) (text : List Char) :
    (here.down lines).advanceBy text = (here.advanceBy text).down lines := by
  induction text generalizing here with
  | nil => rfl
  | cons c text ih => rw [advanceBy_cons, advanceBy_cons, advance_down, ih]

/-- The first position below a text. -/
theorem advanceBy_line_end (upper : List Char) :
    start.advanceBy (upper ++ ['\n']) = start.down (upper.count '\n' + 1) := by
  rw [advanceBy_append, advanceBy_cons, advanceBy_nil, advance, if_pos rfl, line_advanceBy]
  rfl

theorem down_later (a b : Location) :
    (a.later b).down lines = (a.down lines).later (b.down lines) := by
  have hlt : a.down lines < b.down lines ↔ a < b := by
    show a.line + lines < b.line + lines ∨ _ ↔ _
    simp only [down, Nat.add_right_cancel_iff, Nat.add_lt_add_iff_right]
    exact Iff.rfl
  unfold later
  simp only [hlt]
  split <;> rfl

theorem ofEnd_below (upper lower : List Char) :
    ofEnd (upper ++ '\n' :: lower) = (ofEnd lower).down (upper.count '\n' + 1) := by
  have hlast : lastLine (upper ++ '\n' :: lower) = lastLine lower := by
    rw [lastLine, lastLine, List.reverse_append, List.reverse_cons, List.append_assoc,
      List.takeWhile_append]
    split
    · next hall =>
      rw [(List.takeWhile_prefix _).eq_of_length hall]
      simp
    · rfl
  have hcount : (upper ++ '\n' :: lower).count '\n' + 1 =
      lower.count '\n' + 1 + (upper.count '\n' + 1) := by
    rw [List.count_append, List.count_cons_self]
    omega
  rw [ofEnd, ofEnd, hlast, hcount, down]

end Location

/-! ## Tokens -/

theorem place_moved (start : Nat) (here : Location) (pieces : List Segment) :
    place (start + chars) (here.down lines) pieces =
      (place start here pieces).map (Token.moved lines chars) := by
  induction pieces generalizing start here with
  | nil => rfl
  | cons piece pieces ih =>
    have hlater : place (start + chars + piece.text.length) ((here.down lines).advanceBy piece.text)
        pieces = (place (start + piece.text.length) (here.advanceBy piece.text) pieces).map
          (Token.moved lines chars) := by
      rw [Location.advanceBy_down, Nat.add_right_comm, ih]
    rw [place, place, hlater]
    cases piece.kind with
    | none => rfl
    | some kind =>
      rw [List.map_cons, Token.moved, Nat.add_right_comm start chars]

theorem place_append (start : Nat) (here : Location) (front back : List Segment) :
    place start here (front ++ back) = place start here front ++
      place (start + (front.flatMap Segment.text).length)
        (here.advanceBy (front.flatMap Segment.text)) back := by
  induction front generalizing start here with
  | nil => rfl
  | cons piece front ih =>
    rw [List.cons_append, place, place, ih, List.flatMap_cons, List.length_append,
      Location.advanceBy_append, Nat.add_assoc]
    cases piece.kind <;> rfl

/-! ## Sources -/

/-- The line end between two sources is a blank. -/
theorem segments_below (h : segments upper = .ok pieces) (lower : List Char) :
    segments (upper ++ '\n' :: lower) =
      (segments lower).map fun below => pieces ++ ⟨none, ['\n']⟩ :: below := by
  have hfeed : segments ('\n' :: lower) = (segments lower).map (⟨none, ['\n']⟩ :: ·) := by
    rw [segments.eq_def]
    have hread : readPiece '\n' lower = .ok (.skip 0) := rfl
    simp only [hread, Reading.skip, List.drop_zero, List.take_zero]
    cases segments lower <;> rfl
  rw [segments_append h (endsLine_cons lower), hfeed]
  cases segments lower <;> rfl

theorem sourceTokens_of_fault {source : String} {fault : LexicalFault}
    (h : segments source.toList = .error fault) :
    sourceTokens source = .error (fault.stop source.toList) := by
  rw [sourceTokens, tokens, h]
  rfl

theorem toList_below (upper lower : String) :
    (upper ++ "\n" ++ lower).toList = upper.toList ++ '\n' :: lower.toList := by
  simp

/-- Below a source that can be read, the tokens of another one are moved down. -/
theorem sourceTokens_below {upper lower : String} {ts us : List Token}
    (hupper : sourceTokens upper = .ok ts) (hlower : sourceTokens lower = .ok us) :
    sourceTokens (upper ++ "\n" ++ lower) =
      .ok (ts ++ us.map (.moved (upper.toList.count '\n' + 1) (upper.toList.length + 1))) := by
  obtain ⟨pieces, hpieces, rfl⟩ := exists_segments hupper
  obtain ⟨below, hbelow, rfl⟩ := exists_segments hlower
  have hall : segments (upper ++ "\n" ++ lower).toList =
      .ok (pieces ++ ⟨none, ['\n']⟩ :: below) := by
    rw [toList_below, segments_below hpieces, hbelow]
    rfl
  rw [sourceTokens_of_segments hall, place_append, flatten_segments hpieces, place]
  have hplace : Location.advanceBy (.advanceBy .start upper.toList) ['\n'] =
      Location.start.down (upper.toList.count '\n' + 1) := by
    rw [← Location.advanceBy_append, Location.advanceBy_line_end]
  simp only [hplace, Nat.zero_add, List.length_singleton]
  rw [← place_moved, Nat.zero_add]

/-- A fault of the lower source is the same fault further down. -/
theorem sourceTokens_below_error {upper lower : String} {ts : List Token} {problem : Problem}
    (hupper : sourceTokens upper = .ok ts)
    (hlower : sourceTokens lower = .error (.problem problem)) :
    sourceTokens (upper ++ "\n" ++ lower) =
      .error (.problem ⟨problem.cause, problem.location.down (upper.toList.count '\n' + 1)⟩) := by
  obtain ⟨pieces, hpieces, rfl⟩ := exists_segments hupper
  cases hfault : segments lower.toList with
  | ok below =>
    rw [sourceTokens_of_segments hfault] at hlower
    cases hlower
  | error fault =>
    have hall : segments (upper ++ "\n" ++ lower).toList = .error fault := by
      rw [toList_below, segments_below hpieces, hfault]
      rfl
    obtain ⟨before, c, more, hsource, hrest, -⟩ := segments_take_of_error hfault
    have hlocation : fault.location (upper ++ "\n" ++ lower).toList =
        (fault.location lower.toList).down (upper.toList.count '\n' + 1) := by
      have hoffset : ∀ above : List Char, fault.location (above ++ lower.toList) =
          Location.start.advanceBy (above ++ before) := by
        intro above
        have hlength : (above ++ lower.toList).length - fault.rest.length =
            (above ++ before).length := by
          rw [hsource, hrest, ← List.append_assoc, List.length_append, Nat.add_sub_cancel]
        rw [LexicalFault.location, hlength, hsource, ← List.append_assoc, ofOffset_append]
      have hlower' := hoffset []
      rw [List.nil_append, List.nil_append] at hlower'
      rw [hlower', toList_below, List.append_cons, hoffset, Location.advanceBy_append,
        Location.advanceBy_line_end, Location.advanceBy_down]
    rw [sourceTokens_of_fault hfault, LexicalFault.stop] at hlower
    rw [sourceTokens_of_fault hall, LexicalFault.stop, hlocation]
    split at hlower
    · cases hlower
    · cases hlower
      rfl

end Microtypes
