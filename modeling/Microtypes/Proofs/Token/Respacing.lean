import Mathlib.Data.List.TakeWhile
import Microtypes.Proofs.Token.Excerpt
import Microtypes.Proofs.Token.Tiling

/-!
# Blanks and comments between tokens

The tokens of a source do not change, but for their places, where a blank is put in front of one of
them or behind it, or where a comment is replaced by a blank (`lexemes_of_respaced`). All pieces in
front of such a seam are read as before (`segments_append_of_seam`): most rules are firm, the quote
of a lifetime is followed by its name, and a line that ends at the seam is a doc comment that was
trimmed there. The same holds where a curly bracket is put behind a word.
-/

namespace Microtypes

variable {c : Char} {front rest rest' after text gap : List Char} {reading : Reading}
  {source : List Char} {pieces back later : List Segment}

/-! ## Lines -/

/-- Whether a line comment is a doc comment is decided by its line. -/
theorem opensDoc_takeWhile (text : List Char) :
    opensDoc '/' (text.takeWhile (· ≠ '\n')) = opensDoc '/' text := by
  have hprefix (mark : List Char) (hmark : ∀ d ∈ mark, d ≠ '\n') :
      mark.isPrefixOf (text.takeWhile (· ≠ '\n')) = mark.isPrefixOf text := by
    rw [Bool.eq_iff_iff, List.isPrefixOf_iff_prefix, List.isPrefixOf_iff_prefix]
    constructor
    · exact fun h => h.trans (List.takeWhile_prefix _)
    · rintro ⟨others, rfl⟩
      rw [List.takeWhile_append_of_pos (by simpa using hmark)]
      exact List.prefix_append _ _
  rw [opensDoc, opensDoc, hprefix _ (by simp), hprefix _ (by simp)]

/-- A line comment is read from its line. -/
theorem lineCommentRule_takeWhile (c : Char) (text : List Char) :
    lineCommentRule c (text.takeWhile (· ≠ '\n')) = lineCommentRule c text := by
  have hhead : (text.takeWhile (· ≠ '\n')).head? = some '/' ↔ text.head? = some '/' := by
    cases text with
    | nil => rfl
    | cons d text =>
      by_cases hd : d = '\n'
      · simp [hd]
      · simp [hd]
  simp only [lineCommentRule, hhead, List.takeWhile_idem, opensDoc_takeWhile]

theorem lineCommentRule_of_feed (hfeed : '\n' ∈ front) :
    lineCommentRule c (front ++ after) = lineCommentRule c (front ++ rest) := by
  have hline (text : List Char) :
      (front ++ text).takeWhile (· ≠ '\n') = front.takeWhile (· ≠ '\n') := by
    rw [List.takeWhile_append, if_neg]
    intro hlength
    rw [← (List.takeWhile_prefix _).eq_of_length hlength] at hfeed
    simpa using List.all_eq_true.mp List.all_takeWhile _ hfeed
  rw [← lineCommentRule_takeWhile, hline, ← hline rest, lineCommentRule_takeWhile]

/-- What is trimmed off behind a slash is blank. -/
theorem trimEnd_of_more (h : (trimEnd ('/' :: (front ++ rest))).length - 1 = front.length) :
    trimEnd ('/' :: (front ++ rest)) = '/' :: front ∧ ∀ b ∈ rest, isBlank b = true := by
  have hpos : 0 < (trimEnd ('/' :: (front ++ rest))).length := by
    rw [trimEnd_cons (by decide)]
    exact Nat.succ_pos _
  obtain ⟨blanks, hsplit, hblanks⟩ := exists_of_trimEnd ('/' :: (front ++ rest))
  rw [← List.cons_append] at hsplit hpos h
  obtain ⟨hfront, hrest⟩ := List.append_inj hsplit (by rw [List.length_cons]; omega)
  exact ⟨hfront.symm, hrest ▸ hblanks⟩

/-- A doc comment that was trimmed to a text is trimmed to it where other blanks go on behind it. -/
theorem lineCommentRule_of_blanks (hafter : EndsBoundary after)
    (hdoc : opensDoc '/' (front ++ rest) = true) (hfeed : '\n' ∉ front)
    (htrim : trimEnd ('/' :: (front ++ rest).takeWhile (· ≠ '\n')) = '/' :: front)
    (hblank : ∀ b ∈ after.takeWhile (· ≠ '\n'), isBlank b = true) :
    lineCommentRule '/' (front ++ after) = some (.ok (.token .doc (front.length + 1))) := by
  obtain ⟨hhead, hopens⟩ := lineDoc_of_endsBoundary hafter hdoc (by rw [htrim, List.length_cons])
  have hline : (front ++ after).takeWhile (· ≠ '\n') = front ++ after.takeWhile (· ≠ '\n') :=
    List.takeWhile_append_of_pos fun d hd => decide_eq_true fun he => hfeed (he ▸ hd)
  have htrim' : trimEnd ('/' :: (front ++ after).takeWhile (· ≠ '\n')) = '/' :: front := by
    rw [hline, ← List.cons_append, trimEnd_append_blanks hblank, ← htrim, trimEnd_trimEnd]
  rw [lineCommentRule, if_pos ⟨rfl, hhead⟩]
  simp only [if_pos hopens, htrim', List.length_cons]

/-! ## Quotes -/

/-- The quote of a lifetime is followed by its name. -/
theorem lifetime_of_readPiece (h : readPiece '\'' rest = .ok reading)
    (hchar : quotedCharExtent rest = none) : startsIdent rest = true ∧ 0 < reading.more := by
  have hraw : rawStringRule '\'' rest = none := rfl
  have hstring : stringRule '\'' rest = none := rfl
  have hchar' : charRule '\'' rest = none := by rw [charRule, hchar]; rfl
  have hident : identRule '\'' rest = none := identRule_skips rfl
  have hnumber : numberRule '\'' rest = none := numberRule_skips (by decide) rfl
  rw [readPiece_of_ne_slash rfl (by decide)] at h
  simp only [List.findSome?_cons, hraw, hstring, hchar', hident, hnumber, lifetimeRule,
    if_true] at h
  by_cases hstart : startsIdent rest = true
  · rw [if_pos hstart] at h
    cases h
    have hpos := runLength_pos_of_head (fun _ => isIdentRest_of_isIdentStart) hstart
    exact ⟨hstart, by simpa [Reading.token] using hpos⟩
  · rw [if_neg hstart] at h
    cases h

/-- No closing quote comes to stand behind the name of a lifetime. -/
theorem quotedCharExtent_of_lifetime (hafter : EndsBoundary after)
    (hread : readPiece '\'' (front ++ rest) = .ok reading) (hmore : reading.more ≤ front.length)
    (h : quotedCharExtent (front ++ rest) = none) : quotedCharExtent (front ++ after) = none := by
  obtain ⟨hstart, hpos⟩ := lifetime_of_readPiece hread h
  obtain ⟨e, name, rfl⟩ := List.exists_cons_of_length_pos (Nat.lt_of_lt_of_le hpos hmore)
  have hne {d : Char} (hd : isIdentStart d = false) : e ≠ d := by
    rintro rfl
    rw [List.cons_append, startsIdent] at hstart
    cases hd.symm.trans hstart
  have hescape : e ≠ '\\' := hne rfl
  have hextent (text : List Char) : quotedCharExtent (e :: text) =
      if text.head? = some '\'' then some 2 else none := by
    unfold quotedCharExtent
    split
    · next he => exact absurd (List.cons.inj he).1 hescape
    · next he =>
      obtain ⟨rfl, rfl⟩ := List.cons.inj he
      rw [if_neg (not_or.mpr ⟨hne rfl, hne rfl⟩)]
      rfl
    · next hplain =>
      rw [if_neg]
      intro hquote
      obtain ⟨others, rfl⟩ := List.head?_eq_some_iff.mp hquote
      exact hplain e others rfl
  rw [List.cons_append, hextent] at h ⊢
  rw [if_neg]
  intro hquote
  have hquote' : (name ++ rest).head? = some '\'' :=
    head_of_append (hafter.ne (by decide)) hquote
  rw [if_pos hquote'] at h
  cases h

/-! ## Seams -/

/-- Whether some pieces end where the text `after` may follow in place of those behind them. -/
inductive Seam (pieces back : List Segment) (after : List Char) : Prop
  /-- The pieces behind begin with no blank. -/
  | plain (h : ∃ c ∈ (back.flatMap Segment.text).head?, isBlank c = false)
  /-- A token lies in front, and a blank is put in behind it. -/
  | blank {b : Char} (hlast : ∀ piece ∈ pieces.getLast?, piece.kind.isSome)
      (hb : isBlank b = true) (hafter : after = b :: back.flatMap Segment.text)
  | word (hlast : ∀ piece ∈ pieces.getLast?, piece.kind = some .ident)

theorem forall_getLast_tail {α : Type} {p : α → Prop} {a : α} {l : List α}
    (h : ∀ last ∈ (a :: l).getLast?, p last) : ∀ last ∈ l.getLast?, p last := by
  intro last hmem
  cases l with
  | nil => cases hmem
  | cons b l => exact h last hmem

theorem Seam.tail {piece : Segment} (h : Seam (piece :: pieces) back after) :
    Seam pieces back after := by
  cases h with
  | plain h => exact .plain h
  | blank hlast hb hafter => exact .blank (forall_getLast_tail hlast) hb hafter
  | word hlast => exact .word (forall_getLast_tail hlast)

theorem readPiece_of_isBlank (h : isBlank c = true) : readPiece c rest = .ok (.skip 0) := by
  simp [readPiece, lexicalRules, blankRule, h]

/-- A token begins with no blank. -/
theorem exists_of_isSome_kind (h : segments source = .ok pieces) :
    ∀ piece ∈ pieces, piece.kind.isSome → ∃ c ∈ piece.text.head?, isBlank c = false := by
  induction pieces generalizing source with
  | nil => simp
  | cons piece pieces ih =>
    obtain ⟨c, taken, rest, reading, -, rfl, -, hread, hlater⟩ := exists_of_segments_cons h
    refine List.forall_mem_cons.mpr ⟨fun hkind => ⟨c, rfl, ?_⟩, ih hlater⟩
    cases hblank : isBlank c with
    | false => rfl
    | true =>
      rw [readPiece_of_isBlank hblank] at hread
      cases hread
      cases hkind

/-- Where nothing but blanks stands behind a piece, no token does. -/
theorem eq_nil_of_blanks (h : segments source = .ok (pieces ++ back))
    (hlast : ∀ piece ∈ pieces.getLast?, piece.kind.isSome)
    (hblanks : ∀ b ∈ pieces.flatMap Segment.text, isBlank b = true) : pieces = [] := by
  rcases List.eq_nil_or_concat pieces with hnil | ⟨front, last, rfl⟩
  · exact hnil
  · -- The last piece would be a token, which begins with no blank.
    rw [List.concat_eq_append] at h hblanks hlast
    have hkind := hlast last (by rw [List.getLast?_concat]; rfl)
    obtain ⟨c, hc, hplain⟩ := exists_of_isSome_kind h last (by simp) hkind
    obtain ⟨more, hmore⟩ := List.head?_eq_some_iff.mp hc
    have hblank := hblanks c (List.mem_flatMap.mpr ⟨last, by simp, by simp [hmore]⟩)
    cases hplain.symm.trans hblank

/-- Where nothing but blanks stands from a piece that is no word to the end of its line, the piece
is a token and the seam is behind it. -/
theorem Seam.of_blanks {piece : Segment} (h : Seam (piece :: pieces) back after)
    (hlater : segments source = .ok (pieces ++ back)) (hword : piece.kind ≠ some .ident)
    (hblanks : ∀ b ∈ pieces.flatMap Segment.text ++
      (back.flatMap Segment.text).takeWhile (· ≠ '\n'), isBlank b = true) :
    pieces = [] ∧ piece.kind.isSome ∧ ∀ b ∈ after.takeWhile (· ≠ '\n'), isBlank b = true := by
  obtain ⟨hpieces, hline⟩ := List.forall_mem_append.mp hblanks
  cases h with
  | plain h =>
    obtain ⟨c, hc, hplain⟩ := h
    obtain ⟨more, hmore⟩ := List.head?_eq_some_iff.mp hc
    have hfeed : c ≠ '\n' := by
      rintro rfl
      cases hplain
    have hblank := hline c (by simp [hmore, hfeed])
    cases hplain.symm.trans hblank
  | @blank b hlast hb hafter =>
    obtain rfl := eq_nil_of_blanks hlater (forall_getLast_tail hlast) hpieces
    subst hafter
    refine ⟨rfl, hlast piece rfl, ?_⟩
    intro d hd
    by_cases hfeed : b = '\n'
    · simp [hfeed] at hd
    · rw [List.takeWhile_cons_of_pos (by simpa using hfeed), List.mem_cons] at hd
      rcases hd with rfl | hd
      · exact hb
      · exact hline d hd
  | word hlast =>
    have hsome : ∀ last ∈ pieces.getLast?, last.kind.isSome := fun last hmem => by
      rw [forall_getLast_tail hlast last hmem]
      rfl
    obtain rfl := eq_nil_of_blanks hlater hsome hpieces
    exact absurd (hlast piece rfl) hword

/-- A line comment ends in front of a seam, unless it is a doc comment that was trimmed there. -/
theorem lineCommentRule_of_seam (hafter : EndsBoundary after)
    (hseam : Seam (⟨reading.kind, c :: front⟩ :: pieces) back after)
    (hlater : segments (pieces.flatMap Segment.text ++ back.flatMap Segment.text) =
      .ok (pieces ++ back))
    (h : lineCommentRule c
      (front ++ (pieces.flatMap Segment.text ++ back.flatMap Segment.text)) = some (.ok reading))
    (hmore : reading.more = front.length) :
    lineCommentRule c (front ++ (pieces.flatMap Segment.text ++ after)) = some (.ok reading) := by
  obtain ⟨behind, hbehind⟩ : ∃ behind, behind = pieces.flatMap Segment.text := ⟨_, rfl⟩
  obtain ⟨others, hothers⟩ : ∃ others, others = back.flatMap Segment.text := ⟨_, rfl⟩
  have hof_blanks := hseam.of_blanks hlater
  rw [← hbehind, ← hothers] at h hof_blanks
  rw [← hbehind]
  by_cases hfeed : '\n' ∈ front ++ behind
  · rw [← List.append_assoc] at h ⊢
    rwa [lineCommentRule_of_feed hfeed]
  · have hline : (front ++ (behind ++ others)).takeWhile (· ≠ '\n') =
        front ++ (behind ++ others.takeWhile (· ≠ '\n')) := by
      rw [← List.append_assoc, List.takeWhile_append_of_pos, List.append_assoc]
      exact fun d hd => decide_eq_true fun he => hfeed (he ▸ hd)
    unfold lineCommentRule at h
    split at h
    · next hstart =>
      obtain ⟨rfl, -⟩ := hstart
      simp only [hline] at h
      split at h
      · next hdoc =>
        cases h
        simp only [Reading.token] at hmore hof_blanks ⊢
        -- What is trimmed off is all that stands between the comment and the end of the line.
        obtain ⟨htrim, hblanks⟩ := trimEnd_of_more hmore
        obtain ⟨rfl, -, hblank⟩ := hof_blanks (by decide) hblanks
        obtain rfl : behind = [] := hbehind
        have hfeed' : '\n' ∉ front := by rwa [List.append_nil] at hfeed
        have hsame := lineCommentRule_of_blanks hafter hdoc hfeed'
          (by rw [hline]; exact htrim) hblank
        rw [List.nil_append, hsame, htrim]
        rfl
      · cases h
        simp only [Reading.skip] at hmore hof_blanks
        rw [List.length_append] at hmore
        have hnil := List.eq_nil_of_length_eq_zero (by omega :
          (behind ++ others.takeWhile (· ≠ '\n')).length = 0)
        obtain ⟨-, hkind, -⟩ := hof_blanks (by decide) (by rw [hnil]; exact List.forall_mem_nil _)
        cases hkind
    · cases h

/-- A `b` in front of a quote that begins no literal is a word of its own. -/
theorem more_of_readPiece_b {inside : List Char} (h : readPiece 'b' ('\'' :: inside) = .ok reading)
    (hchar : quotedCharExtent inside = none) : reading.more = 0 := by
  have hraw : rawStringRule 'b' ('\'' :: inside) = none := rfl
  have hstring : stringRule 'b' ('\'' :: inside) = none := rfl
  have hchar' : charRule 'b' ('\'' :: inside) = none := by rw [charRule, hchar]; rfl
  have hident : identRule 'b' ('\'' :: inside) = some (.ok (.token .ident 1)) := rfl
  rw [readPiece_of_ne_slash rfl (by decide)] at h
  simp only [List.findSome?_cons, hraw, hstring, hchar', hident] at h
  cases h
  rfl

/-- A quote that begins no literal does not come to begin one in front of a blank. -/
theorem charRule_of_seam (hafter : EndsBoundary after)
    (hlater : segments (pieces.flatMap Segment.text ++ rest) = .ok (pieces ++ back))
    (hread : readPiece c (front ++ (pieces.flatMap Segment.text ++ rest)) = .ok reading)
    (hmore : reading.more = front.length)
    (h : charRule c (front ++ (pieces.flatMap Segment.text ++ rest)) = none) :
    charRule c (front ++ (pieces.flatMap Segment.text ++ after)) = none := by
  rw [← List.append_assoc] at hread h ⊢
  unfold charRule
  split
  · rw [quotedCharExtent_of_lifetime hafter hread (by rw [List.length_append]; omega)
      (Option.map_eq_none_iff.mp h)]
    rfl
  · next inside hquote =>
    cases hfront : front ++ pieces.flatMap Segment.text with
    | nil =>
      rw [hfront, List.nil_append] at hquote
      exact absurd (by rw [hquote]; rfl) (hafter.ne (d := '\'') (by decide))
    | cons d behind =>
      rw [hfront, List.cons_append] at hquote
      obtain ⟨rfl, rfl⟩ := List.cons.inj hquote
      rw [hfront, List.cons_append] at hread h
      have hchar := Option.map_eq_none_iff.mp h
      -- The quote is the first character of the next piece.
      rw [more_of_readPiece_b hread hchar] at hmore
      obtain rfl := List.eq_nil_of_length_eq_zero hmore.symm
      rw [List.nil_append] at hfront
      rw [hfront, List.cons_append] at hlater
      cases pieces with
      | nil => cases hfront
      | cons piece pieces =>
        obtain ⟨e, taken, others, reading', hsplit, rfl, hmore', hread', -⟩ :=
          exists_of_segments_cons hlater
        obtain ⟨rfl, hothers⟩ := List.cons.inj hsplit
        obtain rfl : taken ++ pieces.flatMap Segment.text = behind := (List.cons.inj hfront).2
        rw [← hothers] at hread'
        rw [quotedCharExtent_of_lifetime hafter hread'
          (by rw [hmore', List.length_append]; exact Nat.le_add_right _ _) hchar]
        rfl
  · rfl

/-- The pieces in front of a seam are read as before. -/
theorem segments_append_of_seam (h : segments source = .ok (pieces ++ back))
    (hafter : EndsBoundary after) (hseam : Seam pieces back after)
    (hbehind : segments after = .ok later) :
    segments (pieces.flatMap Segment.text ++ after) = .ok (pieces ++ later) := by
  induction pieces generalizing source with
  | nil => exact hbehind
  | cons piece pieces ih =>
    obtain ⟨c, front, rest, reading, -, rfl, hmore, hread, hlater⟩ := exists_of_segments_cons h
    obtain rfl : pieces.flatMap Segment.text ++ back.flatMap Segment.text = rest := by
      rw [← List.flatMap_append]
      exact flatten_segments hlater
    have hle : reading.more ≤ (front ++ pieces.flatMap Segment.text).length := by
      rw [List.length_append, hmore]
      exact Nat.le_add_right _ _
    have hline := fun h => lineCommentRule_of_seam (c := c) hafter hseam hlater h hmore
    have hchar := charRule_of_seam hafter hlater hread hmore
    rw [← List.append_assoc, ← List.append_assoc] at hline hchar
    rw [← List.append_assoc] at hread
    have hread' := readPiece_of_endsBoundary hafter hread hle hline hchar
    rw [List.append_assoc] at hread'
    have hall := segments_cons reading.kind reading.more hread' (by
      rw [List.drop_left' hmore.symm]
      exact ih hlater hseam.tail)
    rwa [List.take_left' hmore.symm, ← List.append_assoc, ← List.cons_append] at hall

/-! ## Gaps -/

theorem readPiece_of_lineComment {body : List Char} (hdoc : opensDoc '/' ('/' :: body) = false)
    (hfeed : '\n' ∉ body) (hend : EndsLine after) :
    readPiece '/' ('/' :: body ++ after) = .ok (.skip ('/' :: body).length) := by
  have hline : ('/' :: body ++ after).takeWhile (· ≠ '\n') = '/' :: body := by
    rw [takeWhile_append_endsLine hend, List.takeWhile_eq_self_iff]
    intro d hd
    refine decide_eq_true fun he => ?_
    rcases List.mem_cons.mp (he ▸ hd) with hslash | hmem
    · cases hslash
    · exact hfeed hmem
  have hdoc' : opensDoc '/' ('/' :: body ++ after) = false := by
    rw [← opensDoc_takeWhile, hline, hdoc]
  have hrule : lineCommentRule '/' ('/' :: body ++ after) =
      some (.ok (.skip ('/' :: body).length)) := by
    rw [lineCommentRule, if_pos ⟨rfl, rfl⟩]
    simp only [hdoc', hline]
    rfl
  simp only [readPiece, lexicalRules, List.findSome?_cons, blankRule_skips (c := '/') rfl, hrule,
    Option.getD_some]

theorem readPiece_of_blockComment {body : List Char}
    (hdoc : opensDoc '*' ('*' :: body) = false ∨ ['*', '*', '/'] <+: '*' :: body)
    (hclose : commentExtent 0 ('/' :: '*' :: body) = some ('/' :: '*' :: body).length) :
    readPiece '/' ('*' :: body ++ after) = .ok (.skip ('*' :: body).length) := by
  have hfour := four_le_commentExtent rfl hclose
  rw [List.length_cons] at hfour
  have hclose' := (commentExtent_take_append hclose).2 after
  rw [List.take_length, List.cons_append] at hclose'
  have hopens : (opensDoc '*' ('*' :: body ++ after) &&
      !(['*', '*', '/'].isPrefixOf ('*' :: body ++ after))) = false := by
    rw [opensDoc_append_of_le (by omega), isPrefixOf_append_of_le
      (by rw [List.length_cons, List.length_cons, List.length_cons, List.length_nil]; omega)]
    rcases hdoc with hdoc | hempty
    · rw [hdoc, Bool.false_and]
    · rw [List.isPrefixOf_iff_prefix.mpr hempty, Bool.not_true, Bool.and_false]
  have hrule : blockCommentRule '/' ('*' :: body ++ after) =
      some (.ok (.skip ('*' :: body).length)) := by
    rw [blockCommentRule, if_pos ⟨rfl, rfl⟩, hclose']
    simp only [hopens, List.length_cons, Nat.add_sub_cancel]
    rfl
  have hline : lineCommentRule '/' ('*' :: body ++ after) = none :=
    lineCommentRule_skips fun _ => by simp
  simp only [readPiece, lexicalRules, List.findSome?_cons, blankRule_skips (c := '/') rfl, hline,
    hrule, Option.getD_some]

/-- What may lie between tokens is read as no token. -/
theorem readPiece_of_skipped (h : Skipped after (c :: text)) :
    readPiece c (text ++ after) = .ok (.skip text.length) := by
  generalize hpiece : c :: text = piece at h
  cases h with
  | blank hblank =>
    obtain ⟨rfl, rfl⟩ := List.cons.inj hpiece
    exact readPiece_of_isBlank hblank
  | lineComment hdoc hfeed hend =>
    obtain ⟨rfl, rfl⟩ := List.cons.inj hpiece
    exact readPiece_of_lineComment hdoc hfeed hend
  | blockComment hdoc hclose =>
    obtain ⟨rfl, rfl⟩ := List.cons.inj hpiece
    exact readPiece_of_blockComment hdoc hclose

/-- A piece that may lie between tokens is a piece of its own. -/
theorem exists_of_skipped (hskipped : Skipped after text)
    (h : segments (text ++ after) = .ok pieces) :
    ∃ later, pieces = ⟨none, text⟩ :: later ∧ segments after = .ok later := by
  obtain ⟨c, body, rfl⟩ : ∃ c body, text = c :: body := by cases hskipped <;> exact ⟨_, _, rfl⟩
  cases pieces with
  | nil => cases flatten_segments h
  | cons piece pieces =>
    obtain ⟨d, taken, rest, reading, hsplit, rfl, hmore, hread, hlater⟩ := exists_of_segments_cons h
    obtain ⟨rfl, hrest⟩ := List.cons.inj hsplit
    obtain rfl : reading = .skip body.length := by
      rw [← hrest] at hread
      exact (Except.ok.inj (hread.symm.trans (readPiece_of_skipped hskipped)))
    obtain ⟨rfl, rfl⟩ := List.append_inj hrest hmore
    exact ⟨pieces, rfl, hlater⟩

/-- What holds no token is read as pieces that are no tokens. -/
theorem exists_of_gap (hgap : Gap after gap) (h : segments (gap ++ after) = .ok pieces) :
    ∃ skipped later, pieces = skipped ++ later ∧ skipped.flatMap Segment.text = gap ∧
      skipped.filterMap Segment.lexeme? = [] ∧ segments after = .ok later := by
  induction hgap generalizing pieces with
  | nil => exact ⟨[], pieces, rfl, rfl, rfl, h⟩
  | cons hpiece _ ih =>
    rw [List.append_assoc] at h
    obtain ⟨others, rfl, hothers⟩ := exists_of_skipped hpiece h
    obtain ⟨skipped, later, rfl, htext, hnone, hlater⟩ := ih hothers
    exact ⟨⟨none, _⟩ :: skipped, later, rfl, by rw [List.flatMap_cons, htext], hnone, hlater⟩

/-! ## Sources -/

/-- Whether a text comes from a source with these tokens by a blank: in front of a token, behind it,
or in place of a comment. -/
inductive Respaced (source : List Char) (ts : List Token) : List Char → Prop
  | before {t : Token} {b : Char} (ht : t ∈ ts) (hb : isBlank b = true) :
      Respaced source ts (source.take t.start ++ b :: source.drop t.start)
  | behind {t : Token} {b : Char} (ht : t ∈ ts) (hb : isBlank b = true) :
      Respaced source ts (source.take t.stop ++ b :: source.drop t.stop)
  /-- Only blanks and other comments lie between the comment and the token in front of it. -/
  | comment {offset : Nat} {gap body after : List Char}
      (hoffset : offset = 0 ∨ ∃ t ∈ ts, t.stop = offset)
      (hsplit : source.drop offset = gap ++ ('/' :: body ++ after))
      (hgap : Gap ('/' :: body ++ after) gap) (hcomment : Skipped after ('/' :: body)) :
      Respaced source ts (source.take offset ++ (gap ++ ' ' :: after))

/-- The pieces up to an offset where a token ends or the source begins. -/
theorem exists_of_stop {offset : Nat} (h : segments source = .ok pieces)
    (hoffset : offset = 0 ∨ ∃ t ∈ place 0 .start pieces, t.stop = offset) :
    ∃ front back, pieces = front ++ back ∧ offset = (front.flatMap Segment.text).length ∧
      ∀ piece ∈ front.getLast?, piece.kind.isSome := by
  rcases hoffset with rfl | ⟨t, ht, rfl⟩
  · exact ⟨[], pieces, rfl, rfl, by simp⟩
  · obtain ⟨before, behind, hsplit⟩ := List.append_of_mem ht
    obtain ⟨front, piece, back, -, rfl, -, hpiece, hstart, hstop, -⟩ := exists_of_place hsplit
    refine ⟨front ++ [piece], back, by simp, ?_, ?_⟩
    · rw [hstop, hstart]
      simp
    · intro last hlast
      rw [List.getLast?_concat] at hlast
      obtain rfl := Option.some.inj hlast
      cases hkind : piece.kind with
      | none => rw [Segment.lexeme?, hkind] at hpiece; cases hpiece
      | some kind => rfl

theorem take_drop_of_pieces (h : segments source = .ok (pieces ++ back)) :
    source.take (pieces.flatMap Segment.text).length = pieces.flatMap Segment.text ∧
      source.drop (pieces.flatMap Segment.text).length = back.flatMap Segment.text := by
  rw [← flatten_segments h, List.flatMap_append]
  exact ⟨List.take_left, List.drop_left⟩

/-- A blank that is put in at a seam is a piece of its own. -/
theorem segments_insert_blank {b : Char} (hb : isBlank b = true)
    (h : segments source = .ok (pieces ++ back)) (hlater : segments after = .ok later)
    (hseam : Seam pieces back (b :: after)) :
    segments (pieces.flatMap Segment.text ++ b :: after) =
      .ok (pieces ++ ⟨none, [b]⟩ :: later) := by
  have hafter : EndsBoundary (b :: after) := by
    rintro c ⟨⟩
    exact isBoundary_of_isBlank hb
  exact segments_append_of_seam h hafter hseam
    (segments_cons none 0 (readPiece_of_isBlank hb) hlater)

theorem exists_of_respaced (h : segments source = .ok pieces)
    (hspaced : Respaced source (place 0 .start pieces) text) :
    ∃ pieces', segments text = .ok pieces' ∧
      pieces'.filterMap Segment.lexeme? = pieces.filterMap Segment.lexeme? := by
  cases hspaced with
  | @before t b ht hb =>
    obtain ⟨before, behind, hplace⟩ := List.append_of_mem ht
    obtain ⟨front, piece, back, -, rfl, -, hpiece, hstart, -, -⟩ := exists_of_place hplace
    rw [Nat.zero_add] at hstart
    obtain ⟨htake, hdrop⟩ := take_drop_of_pieces h
    have hback := (segments_split h).2
    have hkind : piece.kind.isSome := by
      cases hkind : piece.kind with
      | none => rw [Segment.lexeme?, hkind] at hpiece; cases hpiece
      | some kind => rfl
    obtain ⟨c, hc, hplain⟩ := exists_of_isSome_kind hback piece List.mem_cons_self hkind
    have hseam : Seam front (piece :: back) (b :: (piece :: back).flatMap Segment.text) := by
      refine .plain ⟨c, ?_, hplain⟩
      obtain ⟨more, hmore⟩ := List.head?_eq_some_iff.mp hc
      rw [List.flatMap_cons, hmore]
      rfl
    rw [hstart, htake, hdrop]
    exact ⟨_, segments_insert_blank hb h hback hseam, by simp [Segment.lexeme?]⟩
  | @behind t b ht hb =>
    obtain ⟨front, back, rfl, hstop, hlast⟩ := exists_of_stop h (.inr ⟨t, ht, rfl⟩)
    obtain ⟨htake, hdrop⟩ := take_drop_of_pieces h
    rw [hstop, htake, hdrop]
    exact ⟨_, segments_insert_blank hb h (segments_split h).2 (.blank hlast hb rfl),
      by simp [Segment.lexeme?]⟩
  | @comment offset gap body after hoffset hsplit hgap hcomment =>
    obtain ⟨front, back, rfl, rfl, -⟩ := exists_of_stop h hoffset
    obtain ⟨htake, hdrop⟩ := take_drop_of_pieces h
    have hback := (segments_split h).2
    rw [← hdrop, hsplit] at hback
    obtain ⟨skipped, others, rfl, rfl, hnone, hothers⟩ := exists_of_gap hgap hback
    obtain ⟨later, rfl, hlater⟩ := exists_of_skipped hcomment hothers
    have hseam : Seam (front ++ skipped) (⟨none, '/' :: body⟩ :: later) (' ' :: after) :=
      .plain ⟨'/', rfl, rfl⟩
    rw [← List.append_assoc] at h
    have hall := segments_insert_blank rfl h hlater hseam
    rw [List.flatMap_append, List.append_assoc] at hall
    rw [htake]
    exact ⟨_, hall, by simp [Segment.lexeme?]⟩

/-- Where a blank is put in at an end of a token, or takes the place of a comment, a source is read
as the same tokens. -/
theorem lexemes_of_respaced {source : String} {ts : List Token}
    (h : sourceTokens source = .ok ts) (hspaced : Respaced source.toList ts text) :
    ∃ ts', sourceTokens (String.ofList text) = .ok ts' ∧ lexemes ts' = lexemes ts := by
  obtain ⟨pieces, hpieces, rfl⟩ := exists_segments h
  obtain ⟨pieces', hpieces', hsame⟩ := exists_of_respaced hpieces hspaced
  have hread : segments (String.ofList text).toList = .ok pieces' := by
    rwa [String.toList_ofList]
  exact ⟨_, sourceTokens_of_segments hread, by rw [lexemes_place, lexemes_place, hsame]⟩

theorem lexemes_of_respaced_comment :
    ∃ ts, sourceTokens "'a/* b */b" = .ok ts ∧
      Respaced "'a/* b */b".toList ts "'a b".toList ∧
      ∃ ts', sourceTokens (String.ofList "'a b".toList) = .ok ts' ∧ lexemes ts' = lexemes ts := by
  have hsegments : segments "'a/* b */b".toList = .ok
      [⟨some .lifetime, "'a".toList⟩, ⟨none, "/* b */".toList⟩, ⟨some .ident, ['b']⟩] :=
    segments_cons _ 1 rfl (segments_cons _ 6 rfl (segments_cons _ 0 rfl segments_nil))
  have hts := sourceTokens_of_segments hsegments
  have hcomment : Skipped "b".toList "/* b */".toList := .blockComment (.inl rfl) rfl
  have hspaced : Respaced "'a/* b */b".toList (place 0 .start
      [⟨some .lifetime, "'a".toList⟩, ⟨none, "/* b */".toList⟩, ⟨some .ident, ['b']⟩])
      "'a b".toList :=
    @Respaced.comment _ _ 2 [] _ _ (.inr ⟨_, List.mem_cons_self, rfl⟩) rfl .nil hcomment
  exact ⟨_, hts, hspaced, lexemes_of_respaced hts hspaced⟩

end Microtypes
