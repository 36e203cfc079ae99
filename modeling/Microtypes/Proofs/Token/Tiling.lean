import Microtypes.Grammar.Attribute
import Microtypes.Proofs.Token.Steadiness

/-!
# Tokens tile the source

The tokens of a source follow one another through it, each with its place and its text, and what
lies between them is blank or an ordinary comment (`Tiles`). Where a source cannot be read, the text
before the place of the error can, and the offending piece begins there (`LexicalCause.BeginsAt`).
-/

namespace Microtypes

variable {c : Char} {before rest piece : List Char} {reading : Reading}

/-! ## What lies between tokens -/

/-- Whether a piece in front of the text `after` is no token: a blank, or a complete comment that is
no doc comment. -/
inductive Skipped (after : List Char) : List Char → Prop
  | blank {c : Char} (h : isBlank c = true) : Skipped after [c]
  /-- A line comment goes on to the end of its line. -/
  | lineComment {body : List Char} (hdoc : opensDoc '/' ('/' :: body) = false)
      (hfeed : '\n' ∉ body) (hend : EndsLine after) : Skipped after ('/' :: '/' :: body)
  | blockComment {body : List Char}
      (hdoc : opensDoc '*' ('*' :: body) = false ∨ ['*', '*', '/'] <+: '*' :: body)
      (hclose : commentExtent 0 ('/' :: '*' :: body) = some ('/' :: '*' :: body).length) :
      Skipped after ('/' :: '*' :: body)

/-- Whether a text in front of `after` holds no token. -/
inductive Gap (after : List Char) : List Char → Prop
  | nil : Gap after []
  | cons {piece gap : List Char} (hpiece : Skipped (gap ++ after) piece) (hgap : Gap after gap) :
      Gap after (piece ++ gap)

theorem skipped_of_lineCommentRule {front : List Char}
    (h : lineCommentRule c (front ++ rest) = some (.ok reading)) (hkind : reading.kind = none)
    (hmore : reading.more = front.length) : Skipped rest (c :: front) := by
  have hself := steady_lineCommentRule.reads endsLine_nil h (Nat.le_of_eq hmore)
  rw [List.append_nil] at hself
  unfold lineCommentRule at h hself
  split at hself
  · next hstart =>
    obtain ⟨rfl, hhead⟩ := hstart
    obtain ⟨body, rfl⟩ := List.head?_eq_some_iff.mp hhead
    simp only at hself
    split at hself
    · cases hself
      cases hkind
    · next hdoc =>
      cases hself
      have hline := (List.takeWhile_prefix _).eq_of_length hmore
      have hfeed : '\n' ∉ '/' :: body := by
        intro hmem
        rw [← hline] at hmem
        simpa using List.all_eq_true.mp List.all_takeWhile _ hmem
      refine .lineComment (Bool.eq_false_iff.mpr hdoc) (fun hmem => hfeed (.tail _ hmem)) ?_
      intro d hd
      obtain ⟨others, rfl⟩ := List.head?_eq_some_iff.mp hd
      rw [if_pos ⟨rfl, rfl⟩] at h
      simp only at h
      split at h
      · cases h
      · have hall : ∀ e ∈ '/' :: body, decide (e ≠ '\n') = true := by
          intro e he
          exact decide_eq_true fun heq => hfeed (heq ▸ he)
        rw [List.takeWhile_append_of_pos hall, hline] at h
        -- A character that is no line end would make the line longer.
        by_cases hd : d = '\n'
        · exact hd
        · simp [hd, Reading.skip] at h
  · cases hself

theorem skipped_of_blockCommentRule {front : List Char}
    (h : blockCommentRule c (front ++ rest) = some (.ok reading)) (hkind : reading.kind = none)
    (hmore : reading.more = front.length) : Skipped rest (c :: front) := by
  have hself := firm_blockCommentRule.steady.reads endsLine_nil h (Nat.le_of_eq hmore)
  rw [List.append_nil] at hself
  unfold blockCommentRule at hself
  split at hself
  · next hstart =>
    obtain ⟨rfl, hhead⟩ := hstart
    obtain ⟨body, rfl⟩ := List.head?_eq_some_iff.mp hhead
    split at hself
    · cases hself
    · next length hclose =>
      split at hself
      · cases hself
        cases hkind
      · next hdoc =>
        cases hself
        have hpos := commentExtent_pos hclose
        refine .blockComment ?_ ?_
        · rw [← List.isPrefixOf_iff_prefix]
          cases hopens : opensDoc '*' ('*' :: body) with
          | false => exact .inl rfl
          | true => exact .inr (by simpa [hopens] using hdoc)
        · rw [hclose]
          simp only [Reading.skip, List.length_cons] at hmore ⊢
          congr 1
          omega
  · cases hself

theorem isSome_kind_of_rawStringReading {before hashes : Nat} {afterR : List Char}
    (h : rawStringReading before hashes afterR = .ok reading) : reading.kind.isSome := by
  unfold rawStringReading at h
  split at h <;> cases h
  rfl

theorem isSome_kind_of_stringReading {before : Nat} {inside : List Char}
    (h : stringReading before inside = .ok reading) : reading.kind.isSome := by
  unfold stringReading at h
  split at h <;> cases h
  rfl

/-- The rules behind those of blanks and comments read tokens. -/
theorem isSome_kind_of_tokenRule {rule : LexicalRule}
    (hrule : rule ∈ [rawStringRule, stringRule, charRule, identRule, numberRule, lifetimeRule,
      punctRule])
    (h : rule c rest = some (.ok reading)) : reading.kind.isSome := by
  simp only [List.mem_cons, List.not_mem_nil, or_false] at hrule
  rcases hrule with rfl | rfl | rfl | rfl | rfl | rfl | rfl
  · unfold rawStringRule at h
    split at h
    · obtain ⟨hashes, -, hread⟩ := Option.map_eq_some_iff.mp h
      exact isSome_kind_of_rawStringReading hread
    · obtain ⟨hashes, -, hread⟩ := Option.map_eq_some_iff.mp h
      exact isSome_kind_of_rawStringReading hread
    · cases h
  · unfold stringRule at h
    split at h
    · exact isSome_kind_of_stringReading (Option.some.inj h)
    · exact isSome_kind_of_stringReading (Option.some.inj h)
    · cases h
  · unfold charRule at h
    split at h
    · obtain ⟨length, -, hread⟩ := Option.map_eq_some_iff.mp h
      cases hread
      rfl
    · obtain ⟨length, -, hread⟩ := Option.map_eq_some_iff.mp h
      cases hread
      rfl
    · cases h
  · obtain ⟨length, -, hread⟩ := Option.map_eq_some_iff.mp h
    cases hread
    rfl
  · unfold numberRule at h
    split at h
    · cases h
    · obtain ⟨length, -, hread⟩ := Option.map_eq_some_iff.mp h
      cases hread
      rfl
  · unfold lifetimeRule at h
    split at h
    · split at h <;> cases h
      rfl
    · cases h
  · unfold punctRule at h
    split at h
    · cases h
      rfl
    · split at h <;> cases h
      rfl

/-- A piece that is no token is a blank or an ordinary comment. -/
theorem skipped_of_readPiece {front : List Char} (h : readPiece c (front ++ rest) = .ok reading)
    (hkind : reading.kind = none) (hmore : reading.more = front.length) :
    Skipped rest (c :: front) := by
  obtain ⟨rule, hrule, hread⟩ := List.exists_of_findSome?_eq_some (readPiece_eq_ok_iff.mp h)
  rw [lexicalRules, List.mem_cons, List.mem_cons, List.mem_cons] at hrule
  rcases hrule with rfl | rfl | rfl | hrule
  · unfold blankRule at hread
    split at hread
    · next hblank =>
      cases hread
      obtain rfl := List.length_eq_zero_iff.mp hmore.symm
      exact .blank hblank
    · cases hread
  · exact skipped_of_lineCommentRule hread hkind hmore
  · exact skipped_of_blockCommentRule hread hkind hmore
  · have hsome := isSome_kind_of_tokenRule hrule hread
    rw [hkind] at hsome
    cases hsome

/-! ## What a source stops at -/

/-- Whether what cannot be read for the cause begins a text. -/
inductive LexicalCause.BeginsAt : LexicalCause → List Char → Prop
  | comment {body : List Char} (h : commentExtent 0 ('/' :: '*' :: body) = none) :
      BeginsAt .unterminatedComment ('/' :: '*' :: body)
  | rawString (byte : Bool) (hashes : Nat) {inside : List Char}
      (h : rawStringExtent hashes inside = none) :
      BeginsAt .unterminatedRawString
        (byteMark byte ++ 'r' :: (List.replicate hashes '#' ++ '"' :: inside))
  | string (byte : Bool) {inside : List Char} (h : stringExtent inside = none) :
      BeginsAt .unterminatedString (byteMark byte ++ '"' :: inside)
  /-- A single quote that begins neither a character nor a lifetime. -/
  | quote {inside : List Char} (hchar : quotedCharExtent inside = none)
      (hname : startsIdent inside = false) : BeginsAt .strayQuote ('\'' :: inside)
  /-- A character that begins nothing. -/
  | unknown {c : Char} {others : List Char} (hblank : isBlank c = false)
      (hident : isIdentStart c = false) (hdigit : c.isDigit = false)
      (hforeign : isForeignDigit c = false) (hquote : c ≠ '\'' ∧ c ≠ '"')
      (hpunct : c ∉ singlePuncts) : BeginsAt (.unexpected c) (c :: others)

theorem beginsAt_of_rawStringReading {before hashes : Nat} {afterR : List Char}
    {cause : LexicalCause} (byte : Bool) (hhashes : rawStringHashes? afterR = some hashes)
    (h : rawStringReading before hashes afterR = .error cause) :
    cause.BeginsAt (byteMark byte ++ 'r' :: afterR) := by
  obtain ⟨inside, rfl⟩ := eq_of_rawStringHashes hhashes
  have hdrop : (List.replicate hashes '#' ++ '"' :: inside).drop (hashes + 1) = inside := by
    rw [← List.drop_drop, List.drop_left' List.length_replicate]
    rfl
  unfold rawStringReading at h
  rw [hdrop] at h
  split at h
  · next hextent =>
    cases h
    exact .rawString byte hashes hextent
  · cases h

theorem beginsAt_of_stringReading {before : Nat} {inside : List Char} {cause : LexicalCause}
    (byte : Bool) (h : stringReading before inside = .error cause) :
    cause.BeginsAt (byteMark byte ++ '"' :: inside) := by
  unfold stringReading at h
  split at h
  · next hextent =>
    cases h
    exact .string byte hextent
  · cases h

/-- A character that no rule applies to begins nothing. -/
theorem beginsAt_of_no_rule (h : ∀ rule ∈ lexicalRules, rule c rest = none) :
    (LexicalCause.unexpected c).BeginsAt (c :: rest) := by
  simp only [lexicalRules, List.forall_mem_cons] at h
  obtain ⟨hblank, -, -, -, hstring, -, hident, hnumber, hlifetime, hpunct, -⟩ := h
  have hforeign : isForeignDigit c = false := by
    cases hc : isForeignDigit c with
    | false => rfl
    | true => simp [numberRule, hc] at hnumber
  refine .unknown ?_ ?_ ?_ hforeign ⟨?_, ?_⟩ ?_
  · cases hc : isBlank c with
    | false => rfl
    | true => simp [blankRule, hc] at hblank
  · cases hc : isIdentStart c with
    | false => rfl
    | true =>
      rw [identRule, Option.map_eq_none_iff] at hident
      unfold identExtent at hident
      split at hident
      · split at hident <;> cases hident
      · simp [startsIdent, hc] at hident
  · cases hc : c.isDigit with
    | false => rfl
    | true =>
      rw [numberRule, if_neg (by simp [hforeign]), Option.map_eq_none_iff, numberExtent,
        if_pos (by simpa using hc)] at hnumber
      simp only at hnumber
      split at hnumber
      · split at hnumber <;> cases hnumber
      · cases hnumber
  · rintro rfl
    rw [lifetimeRule, if_pos rfl] at hlifetime
    split at hlifetime <;> cases hlifetime
  · rintro rfl
    cases hstring
  · intro hmem
    unfold punctRule at hpunct
    split at hpunct
    · cases hpunct
    · rw [if_pos (by simpa using hmem)] at hpunct
      cases hpunct

theorem beginsAt_of_blockCommentRule {cause : LexicalCause}
    (h : blockCommentRule c rest = some (.error cause)) : cause.BeginsAt (c :: rest) := by
  unfold blockCommentRule at h
  split at h
  · next hstart =>
    obtain ⟨rfl, hhead⟩ := hstart
    obtain ⟨body, rfl⟩ := List.head?_eq_some_iff.mp hhead
    split at h
    · next hclose =>
      cases h
      exact .comment hclose
    · split at h <;> cases h
  · cases h

theorem beginsAt_of_rawStringRule {cause : LexicalCause}
    (h : rawStringRule c rest = some (.error cause)) : cause.BeginsAt (c :: rest) := by
  unfold rawStringRule at h
  split at h
  · obtain ⟨hashes, hhashes, hraw⟩ := Option.map_eq_some_iff.mp h
    exact beginsAt_of_rawStringReading false hhashes hraw
  · obtain ⟨hashes, hhashes, hraw⟩ := Option.map_eq_some_iff.mp h
    exact beginsAt_of_rawStringReading true hhashes hraw
  · cases h

theorem beginsAt_of_stringRule {cause : LexicalCause}
    (h : stringRule c rest = some (.error cause)) : cause.BeginsAt (c :: rest) := by
  unfold stringRule at h
  split at h
  · exact beginsAt_of_stringReading false (Option.some.inj h)
  · exact beginsAt_of_stringReading true (Option.some.inj h)
  · cases h

theorem foreign_of_numberRule {cause : LexicalCause}
    (h : numberRule c rest = some (.error cause)) :
    cause = .foreignDigit c ∧ isForeignDigit c = true := by
  unfold numberRule at h
  split at h
  · next hforeign =>
    cases h
    exact ⟨rfl, hforeign⟩
  · obtain ⟨length, -, hnumber⟩ := Option.map_eq_some_iff.mp h
    cases hnumber

theorem stray_of_lifetimeRule {cause : LexicalCause}
    (h : lifetimeRule c rest = some (.error cause)) :
    c = '\'' ∧ cause = .strayQuote ∧ startsIdent rest = false := by
  unfold lifetimeRule at h
  split at h
  · next hquote =>
    split at h
    · cases h
    · next hname =>
      cases h
      exact ⟨hquote, rfl, Bool.eq_false_iff.mpr hname⟩
  · cases h

/-- Blanks, lines of comment, characters, identifiers and punctuation are read wherever their rule
applies. -/
theorem ne_error_of_readable {rule : LexicalRule} {cause : LexicalCause}
    (hrule : rule ∈ [blankRule, lineCommentRule, charRule, identRule, punctRule]) :
    rule c rest ≠ some (.error cause) := by
  intro h
  simp only [List.mem_cons, List.not_mem_nil, or_false] at hrule
  rcases hrule with rfl | rfl | rfl | rfl | rfl
  · unfold blankRule at h
    split at h <;> cases h
  · unfold lineCommentRule at h
    split at h
    · simp only at h
      split at h <;> cases h
    · cases h
  · unfold charRule at h
    split at h
    · obtain ⟨length, -, hchar⟩ := Option.map_eq_some_iff.mp h
      cases hchar
    · obtain ⟨length, -, hchar⟩ := Option.map_eq_some_iff.mp h
      cases hchar
    · cases h
  · obtain ⟨length, -, hident⟩ := Option.map_eq_some_iff.mp h
    cases hident
  · unfold punctRule at h
    split at h
    · cases h
    · split at h <;> cases h

/-- What cannot be read begins where the reading stops, or a digit of another script does. -/
theorem beginsAt_of_readPiece {cause : LexicalCause} (h : readPiece c rest = .error cause) :
    cause.BeginsAt (c :: rest) ∨ cause = .foreignDigit c ∧ isForeignDigit c = true := by
  unfold readPiece at h
  cases hfind : lexicalRules.findSome? fun rule => rule c rest with
  | none =>
    rw [hfind] at h
    cases h
    exact .inl (beginsAt_of_no_rule (List.findSome?_eq_none_iff.mp hfind))
  | some result =>
    rw [hfind] at h
    obtain rfl : result = .error cause := h
    obtain ⟨rule, hrule, hread⟩ := List.exists_of_findSome?_eq_some hfind
    simp only [lexicalRules, List.mem_cons, List.not_mem_nil, or_false] at hrule
    rcases hrule with rfl | rfl | rfl | rfl | rfl | rfl | rfl | rfl | rfl | rfl
    · exact absurd hread (ne_error_of_readable (by simp))
    · exact absurd hread (ne_error_of_readable (by simp))
    · exact .inl (beginsAt_of_blockCommentRule hread)
    · exact .inl (beginsAt_of_rawStringRule hread)
    · exact .inl (beginsAt_of_stringRule hread)
    · exact absurd hread (ne_error_of_readable (by simp))
    · exact absurd hread (ne_error_of_readable (by simp))
    · exact .inr (foreign_of_numberRule hread)
    · obtain ⟨rfl, rfl, hname⟩ := stray_of_lifetimeRule hread
      refine .inl (.quote ?_ hname)
      -- A character literal would have been read by an earlier rule.
      cases hchar : quotedCharExtent rest with
      | none => rfl
      | some length =>
        have hearly := readPiece_eq_ok_iff.mp (readPiece_singleQuote hchar)
        rw [hfind] at hearly
        cases hearly
    · exact absurd hread (ne_error_of_readable (by simp))

/-! ## Tiles -/

theorem ofOffset_append (before rest : List Char) :
    Location.ofOffset (before ++ rest) before.length = Location.start.advanceBy before := by
  rw [Location.ofOffset, List.take_left, List.length_append]
  simp

theorem slice_append (before rest : List Char) (length : Nat) :
    slice (before ++ rest) before.length (before.length + length) = rest.take length := by
  rw [slice, List.drop_left, Nat.add_sub_cancel_left]

/-- Whether a token stands in a source at its place. -/
structure Token.StandsIn (t : Token) (source : List Char) : Prop where
  nonempty : t.start < t.stop
  within : t.stop ≤ source.length
  text : t.text = String.ofList (slice source t.start t.stop)
  location : t.location = .ofOffset source t.start

/-- Whether the tokens fill a source from the offset on, with gaps in front of, between and behind
them. -/
inductive Tiles (source : List Char) : Nat → List Token → Prop
  | nil {offset : Nat} (hgap : Gap [] (source.drop offset)) : Tiles source offset []
  | cons {offset : Nat} {t : Token} {ts : List Token} (hstart : offset ≤ t.start)
      (hgap : Gap (source.drop t.start) (slice source offset t.start)) (ht : t.StandsIn source)
      (hts : Tiles source t.stop ts) : Tiles source offset (t :: ts)

/-- What is skipped belongs to the gap in front of the tokens. -/
theorem Tiles.of_skipped {ts : List Token} (hpiece : Skipped rest piece)
    (h : Tiles (before ++ piece ++ rest) (before ++ piece).length ts) :
    Tiles (before ++ piece ++ rest) before.length ts := by
  cases h with
  | nil hgap =>
    rw [List.drop_left] at hgap
    refine .nil ?_
    rw [List.append_assoc, List.drop_left]
    exact .cons (by rwa [List.append_nil]) hgap
  | @cons _ t ts hstart hgap ht hts =>
    obtain ⟨length, hlength⟩ := Nat.exists_eq_add_of_le hstart
    have hgap' : slice (before ++ piece ++ rest) before.length t.start =
        piece ++ rest.take length := by
      rw [hlength, List.length_append, Nat.add_assoc, List.append_assoc, slice_append,
        List.take_length_add_append]
    have hrest : (before ++ piece ++ rest).drop t.start = rest.drop length := by
      rw [hlength, List.drop_length_add_append]
    rw [hlength, slice_append, ← hlength, hrest] at hgap
    refine .cons ?_ ?_ ht hts
    · rw [List.length_append] at hstart
      omega
    · rw [hgap', hrest]
      exact .cons (by rwa [List.take_append_drop]) hgap

/-- The tokens among the pieces behind a text fill the source from there on. -/
theorem tiles_place {pieces : List Segment} (h : segments rest = .ok pieces)
    (before : List Char) :
    Tiles (before ++ rest) before.length
      (place before.length (Location.start.advanceBy before) pieces) := by
  fun_induction segments rest generalizing before pieces with
  | case1 =>
    cases h
    refine .nil ?_
    rw [List.drop_left]
    exact .nil
  | case2 => cases h
  | case3 => cases h
  | case4 c rest reading hread later hlater ih =>
    cases h
    have hmore := more_le_of_readPiece hread
    obtain ⟨front, hfront⟩ : ∃ front, front = rest.take reading.more := ⟨_, rfl⟩
    have hlength : reading.more = front.length := by
      rw [hfront, List.length_take, Nat.min_eq_left hmore]
    have hrest : rest = front ++ rest.drop reading.more := by
      rw [hfront, List.take_append_drop]
    have hsource : before ++ c :: rest = before ++ (c :: front) ++ rest.drop reading.more := by
      rw [List.append_assoc, List.cons_append, ← hrest]
    have hlater' := ih hlater (before ++ c :: front)
    rw [Location.advanceBy_append, List.length_append] at hlater'
    rw [hsource, place, ← hfront]
    cases hkind : reading.kind with
    | none =>
      refine .of_skipped (skipped_of_readPiece (hrest ▸ hread) hkind hlength) ?_
      rw [List.length_append]
      exact hlater'
    | some kind =>
      refine .cons (Nat.le_refl _) ?_ ⟨?_, ?_, ?_, ?_⟩ hlater'
      · rw [slice, Nat.sub_self]
        exact .nil
      · simp
      · simp only [List.length_append]
        omega
      · rw [List.append_assoc, slice_append, List.take_left]
      · rw [List.append_assoc, ofOffset_append]

theorem exists_segments {source : String} {ts : List Token} (h : sourceTokens source = .ok ts) :
    ∃ pieces, segments source.toList = .ok pieces ∧ ts = place 0 .start pieces := by
  cases hsegments : segments source.toList with
  | error fault =>
    rw [sourceTokens, tokens, hsegments] at h
    cases h
  | ok pieces =>
    rw [sourceTokens_of_segments hsegments] at h
    cases h
    exact ⟨pieces, rfl, rfl⟩

theorem tiles_of_sourceTokens {source : String} {ts : List Token}
    (h : sourceTokens source = .ok ts) : Tiles source.toList 0 ts := by
  obtain ⟨pieces, hpieces, rfl⟩ := exists_segments h
  exact tiles_place hpieces []

theorem Tiles.standsIn {source : List Char} {offset : Nat} {ts : List Token}
    (h : Tiles source offset ts) : ∀ t ∈ ts, t.StandsIn source := by
  induction h with
  | nil => simp
  | cons _ _ ht _ ih => exact List.forall_mem_cons.mpr ⟨ht, ih⟩

theorem Tiles.le_start {source : List Char} {offset : Nat} {ts : List Token}
    (h : Tiles source offset ts) : ∀ t ∈ ts, offset ≤ t.start := by
  induction h with
  | nil => simp
  | cons hstart _ ht _ ih =>
    refine List.forall_mem_cons.mpr ⟨hstart, fun u hu => ?_⟩
    have := ih u hu
    have := ht.nonempty
    omega

/-- Each token begins behind those in front of it. -/
theorem Tiles.pairwise {source : List Char} {offset : Nat} {ts : List Token}
    (h : Tiles source offset ts) : ts.Pairwise fun t u => t.stop ≤ u.start := by
  induction h with
  | nil => exact .nil
  | cons _ _ _ hts ih => exact .cons hts.le_start ih

/-- How a source is read: it is filled by tokens, or the text before some place is, and what begins
there cannot be read. -/
inductive Tokenized (source : List Char) : Except Stop (List Token) → Prop
  | tiled {ts : List Token} (h : Tiles source 0 ts) : Tokenized source (.ok ts)
  | stopped {cause : LexicalCause} {p : Nat} (hp : p < source.length)
      (hbefore : ∃ ts, sourceTokens (String.ofList (source.take p)) = .ok ts)
      (hcause : cause.BeginsAt (source.drop p)) :
      Tokenized source (.error (.of (.lexical cause) (.ofOffset source p)))
  /-- A digit of another script is not reported. -/
  | aborted {c : Char} {p : Nat} (hp : source[p]? = some c) (hforeign : isForeignDigit c = true)
      (hbefore : ∃ ts, sourceTokens (String.ofList (source.take p)) = .ok ts) :
      Tokenized source (.error (.abort .foreignDigit))

/-- The tokens of a source tile it, and a lexical error is at the first piece that is none. -/
theorem tokenized_sourceTokens (source : String) :
    Tokenized source.toList (sourceTokens source) := by
  cases hsegments : segments source.toList with
  | ok pieces =>
    rw [sourceTokens_of_segments hsegments]
    exact .tiled (tiles_place hsegments [])
  | error fault =>
    obtain ⟨before, c, more, hsource, hrest, hread, pieces, hpieces⟩ :=
      segments_take_of_error hsegments
    have hstop : sourceTokens source = .error (fault.stop source.toList) := by
      rw [sourceTokens, tokens, hsegments]
      rfl
    have hoffset : source.toList.length - fault.rest.length = before.length := by
      rw [hsource, hrest, List.length_append, Nat.add_sub_cancel]
    have hbefore : ∃ ts,
        sourceTokens (String.ofList (source.toList.take before.length)) = .ok ts := by
      rw [hsource, List.take_left]
      exact ⟨_, sourceTokens_of_segments (by rwa [String.toList_ofList])⟩
    have hlt : before.length < source.toList.length := by
      rw [hsource]
      simp
    rw [hstop]
    rcases beginsAt_of_readPiece hread with hbegins | ⟨hcause, hforeign⟩
    · have hreported : fault.stop source.toList =
          .of (.lexical fault.cause) (.ofOffset source.toList before.length) := by
        rw [LexicalFault.stop, LexicalFault.location, hoffset]
        split
        · next hcause =>
          rw [hcause] at hbegins
          cases hbegins
        · rfl
      rw [hreported]
      refine .stopped hlt hbefore ?_
      rwa [hsource, List.drop_left]
    · have habort : fault.stop source.toList = .abort .foreignDigit := by
        rw [LexicalFault.stop, hcause]
      rw [habort]
      refine .aborted ?_ hforeign hbefore
      rw [hsource]
      simp

end Microtypes
