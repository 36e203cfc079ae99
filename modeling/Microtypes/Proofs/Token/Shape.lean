import Microtypes.Grammar.Source
import Microtypes.Proofs.Token.Extent

/-!
# The shapes of tokens

`Lexeme.Shaped` says what a token of each kind is written as, without the text around it. Every
token of a source has such a shape (`shaped_of_tokens`).
-/

namespace Microtypes

/-- The mark in front of byte literals. -/
def byteMark (byte : Bool) : List Char :=
  if byte then ['b'] else []

/-- What a literal is written as. -/
inductive LiteralText : List Char → Prop
  | number {text : List Char} (h : numberExtent text = some text.length) : LiteralText text
  | string (byte : Bool) {inside : List Char} (h : stringExtent inside = some inside.length) :
      LiteralText (byteMark byte ++ '"' :: inside)
  | rawString (byte : Bool) (hashes : Nat) {inside : List Char}
      (h : rawStringExtent hashes inside = some inside.length) :
      LiteralText (byteMark byte ++ 'r' :: (List.replicate hashes '#' ++ '"' :: inside))
  | quotedChar (byte : Bool) {inside : List Char}
      (h : quotedCharExtent inside = some inside.length) :
      LiteralText (byteMark byte ++ '\'' :: inside)

/-- What a doc comment is written as. -/
inductive DocText : List Char → Prop
  /-- A line comment, which ends before the blanks at its end. -/
  | line {body : List Char} (hdoc : opensDoc '/' ('/' :: body) = true) (hfeed : '\n' ∉ body)
      (htrim : trimEnd ('/' :: '/' :: body) = '/' :: '/' :: body) :
      DocText ('/' :: '/' :: body)
  | block {body : List Char} (hdoc : opensDoc '*' ('*' :: body) = true)
      (hempty : ['*', '*', '/'].isPrefixOf ('*' :: body) = false)
      (hclose : commentExtent 0 ('/' :: '*' :: body) = some ('/' :: '*' :: body).length) :
      DocText ('/' :: '*' :: body)

/-- What punctuation is written as. -/
inductive PunctText : List Char → Prop
  | single {c : Char} (h : c ∈ singlePuncts) : PunctText [c]
  | paired {c d : Char} (h : (c, d) ∈ pairedPuncts) : PunctText [c, d]

/-- What a lifetime is written as. -/
def LifetimeText (text : List Char) : Prop :=
  ∃ name, text = '\'' :: name ∧ startsIdent name = true ∧ ∀ c ∈ name, isIdentRest c = true

/-- What a token of each kind is written as. -/
def ShapedAs : TokenKind → List Char → Prop
  | .ident, text => identExtent text = some text.length
  | .lifetime, text => LifetimeText text
  | .literal, text => LiteralText text
  | .punct, text => PunctText text
  | .doc, text => DocText text

/-- Whether a lexeme is written as its kind of token is. -/
def Lexeme.Shaped (t : Lexeme) : Prop :=
  ShapedAs t.kind t.text.toList

/-- Whether a reading at the front of a text takes what a token of its kind is written as. -/
def Reading.TakesShape (reading : Reading) (c : Char) (rest : List Char) : Prop :=
  ∀ kind ∈ reading.kind, ShapedAs kind (c :: rest.take reading.more)

theorem takesShape_skip (more : Nat) (c : Char) (rest : List Char) :
    (Reading.skip more).TakesShape c rest := by
  intro kind hkind
  cases hkind

/-- A token takes its length from the front of the text. -/
theorem takesShape_token {kind : TokenKind} {length : Nat} {c : Char} {rest : List Char}
    (hpos : 0 < length) (h : ShapedAs kind ((c :: rest).take length)) :
    (Reading.token kind length).TakesShape c rest := by
  rintro kind' ⟨⟩
  obtain ⟨m, rfl⟩ : ∃ m, length = m + 1 := ⟨length - 1, by omega⟩
  exact h

/-! ## Trimming -/

theorem trimEnd_isPrefix (text : List Char) : trimEnd text <+: text := by
  have hsuffix : text.reverse.dropWhile isBlank <:+ text.reverse := List.dropWhile_suffix _
  rw [trimEnd, ← List.reverse_suffix, List.reverse_reverse]
  exact hsuffix

theorem trimEnd_cons {c : Char} (hc : isBlank c = false) (text : List Char) :
    trimEnd (c :: text) = c :: trimEnd text := by
  rw [trimEnd, trimEnd, List.reverse_cons, List.dropWhile_append]
  split
  · next hempty =>
    rw [List.isEmpty_iff.mp hempty]
    simp [hc]
  · simp

theorem trimEnd_trimEnd (text : List Char) : trimEnd (trimEnd text) = trimEnd text := by
  have hdrop : ∀ t : List Char, (t.dropWhile isBlank).dropWhile isBlank = t.dropWhile isBlank := by
    intro t
    induction t with
    | nil => rfl
    | cons c rest ih =>
      by_cases hc : isBlank c = true
      · simp [hc, ih]
      · simp [hc]
  rw [trimEnd, trimEnd, List.reverse_reverse, hdrop]

/-! ## What each rule takes -/

/-- A doc comment has a third mark after its first two characters. -/
theorem exists_of_opensDoc {mark : Char} {rest : List Char} (h : opensDoc mark rest = true) :
    ∃ others, rest = mark :: mark :: others ∧ others.head? ≠ some mark := by
  simp only [opensDoc, Bool.and_eq_true, Bool.not_eq_true', List.isPrefixOf_iff_prefix] at h
  obtain ⟨⟨others, rfl⟩, hthird⟩ := h
  refine ⟨others, rfl, ?_⟩
  cases others with
  | nil => simp
  | cons c others =>
    rintro ⟨⟩
    simp [List.isPrefixOf] at hthird

theorem opensDoc_cons {mark : Char} {others : List Char} (h : others.head? ≠ some mark) :
    opensDoc mark (mark :: mark :: others) = true := by
  cases others with
  | nil => simp [opensDoc, List.isPrefixOf]
  | cons c rest =>
    have hc : mark ≠ c := fun e => h (by rw [e]; rfl)
    simp [opensDoc, List.isPrefixOf, hc]

theorem head_ne_of_isPrefix {short long : List Char} {c : Char} (h : short <+: long)
    (hc : long.head? ≠ some c) : short.head? ≠ some c := by
  obtain ⟨rest, rfl⟩ := h
  cases short with
  | nil => simp
  | cons d others => exact hc

theorem takesShape_of_lineCommentRule {c : Char} {rest : List Char} {reading : Reading}
    (h : lineCommentRule c rest = some (.ok reading)) : reading.TakesShape c rest := by
  unfold lineCommentRule at h
  split at h
  · next hstart =>
    obtain ⟨rfl, -⟩ := hstart
    simp only at h
    split at h
    · next hdoc =>
      cases h
      obtain ⟨others, rfl, hthird⟩ := exists_of_opensDoc hdoc
      have hline : trimEnd ('/' :: ('/' :: '/' :: others).takeWhile (· ≠ '\n')) =
          '/' :: '/' :: '/' :: trimEnd (others.takeWhile (· ≠ '\n')) := by
        rw [List.takeWhile_cons_of_pos (by decide), List.takeWhile_cons_of_pos (by decide),
          trimEnd_cons (by decide), trimEnd_cons (by decide), trimEnd_cons (by decide)]
      have hprefix : trimEnd (others.takeWhile (· ≠ '\n')) <+: others :=
        (trimEnd_isPrefix _).trans (List.takeWhile_prefix _)
      rw [hline]
      refine takesShape_token (by simp) ?_
      have htake : ('/' :: '/' :: '/' :: others).take
          ('/' :: '/' :: '/' :: trimEnd (others.takeWhile (· ≠ '\n'))).length =
            '/' :: '/' :: '/' :: trimEnd (others.takeWhile (· ≠ '\n')) := by
        simp only [List.length_cons, List.take_succ_cons]
        rw [← List.prefix_iff_eq_take.mp hprefix]
      rw [htake]
      refine DocText.line (opensDoc_cons (head_ne_of_isPrefix hprefix hthird)) ?_ ?_
      · intro hfeed
        rcases List.mem_cons.mp hfeed with hfeed | hfeed
        · cases hfeed
        · have hmem := (trimEnd_isPrefix _).subset hfeed
          have := List.all_eq_true.mp List.all_takeWhile _ hmem
          simp at this
      · rw [trimEnd_cons (by decide), trimEnd_cons (by decide), trimEnd_cons (by decide),
          trimEnd_trimEnd]
    · cases h
      exact takesShape_skip _ _ _
  · cases h

theorem takesShape_of_blockCommentRule {c : Char} {rest : List Char} {reading : Reading}
    (h : blockCommentRule c rest = some (.ok reading)) : reading.TakesShape c rest := by
  unfold blockCommentRule at h
  split at h
  · next hstart =>
    obtain ⟨rfl, -⟩ := hstart
    split at h
    · cases h
    · next length hclose =>
      split at h
      · next hdoc =>
        cases h
        simp only [Bool.and_eq_true, Bool.not_eq_true'] at hdoc
        obtain ⟨others, rfl, hthird⟩ := exists_of_opensDoc hdoc.1
        obtain ⟨hle, htake⟩ := commentExtent_take_append hclose
        obtain ⟨k, hk, rfl⟩ := Option.map_eq_some_iff.mp hclose
        have hkpos := commentExtent_pos hk
        obtain ⟨m, rfl⟩ : ∃ m, k = m + 1 := ⟨k - 1, by omega⟩
        refine takesShape_token (by omega) ?_
        have htake := htake []
        rw [List.append_nil] at htake
        simp only [List.take_succ_cons] at htake ⊢
        have hslash : others.head? ≠ some '/' := by
          intro e
          cases others with
          | nil => cases e
          | cons c rest =>
            cases e
            simp [List.isPrefixOf] at hdoc
        have hslash' := head_ne_of_isPrefix (List.take_prefix m others) hslash
        have hthird' := head_ne_of_isPrefix (List.take_prefix m others) hthird
        refine DocText.block (opensDoc_cons hthird') ?_ ?_
        · cases hm : others.take m with
          | nil => rfl
          | cons c rest =>
            have hc : '/' ≠ c := fun e => hslash' (by rw [hm, ← e]; rfl)
            simp [List.isPrefixOf, hc]
        · rw [htake]
          simp only [List.length_cons, List.length_take] at hle ⊢
          congr 1
          omega
      · cases h
        exact takesShape_skip _ _ _
  · cases h

/-- A literal takes its opening and then some of what is inside. -/
theorem takesShape_of_opening {opening inside : List Char} {n : Nat} {c : Char} {rest : List Char}
    (hsplit : c :: rest = opening ++ inside) (hne : opening ≠ [])
    (h : LiteralText (opening ++ inside.take n)) :
    (Reading.token .literal (opening.length + n)).TakesShape c rest := by
  have hpos := List.length_pos_iff.mpr hne
  refine takesShape_token (by omega) ?_
  rw [hsplit, List.take_length_add_append]
  exact h

theorem takesShape_of_rawStringReading (byte : Bool) {c : Char} {rest afterR : List Char}
    {hashes : Nat} {reading : Reading} (hsplit : c :: rest = byteMark byte ++ 'r' :: afterR)
    (hhashes : rawStringHashes? afterR = some hashes)
    (h : rawStringReading ((byteMark byte).length + 1) hashes afterR = .ok reading) :
    reading.TakesShape c rest := by
  obtain ⟨inside, rfl⟩ := eq_of_rawStringHashes hhashes
  have hinside : (List.replicate hashes '#' ++ '"' :: inside).drop (hashes + 1) = inside := by
    rw [← List.drop_drop, List.drop_left' (List.length_replicate ..)]
    rfl
  rw [rawStringReading, hinside] at h
  cases hextent : rawStringExtent hashes inside with
  | none => rw [hextent] at h; cases h
  | some n =>
    rw [hextent] at h
    cases h
    have htext := LiteralText.rawString byte hashes
      (extent_take (rawStringExtent_take_append hextent))
    have hopening : byteMark byte ++ 'r' :: (List.replicate hashes '#' ++ '"' :: inside) =
        (byteMark byte ++ 'r' :: (List.replicate hashes '#' ++ ['"'])) ++ inside := by simp
    have hlength : (byteMark byte).length + 1 + hashes + 1 =
        (byteMark byte ++ 'r' :: (List.replicate hashes '#' ++ ['"'])).length := by
      simp only [List.length_append, List.length_cons, List.length_replicate, List.length_nil]
      omega
    rw [hlength]
    refine takesShape_of_opening (hsplit.trans hopening) (by simp) ?_
    simpa using htext

theorem takesShape_of_rawStringRule {c : Char} {rest : List Char} {reading : Reading}
    (h : rawStringRule c rest = some (.ok reading)) : reading.TakesShape c rest := by
  unfold rawStringRule at h
  split at h
  · obtain ⟨hashes, hhashes, hread⟩ := Option.map_eq_some_iff.mp h
    exact takesShape_of_rawStringReading false rfl hhashes hread
  · obtain ⟨hashes, hhashes, hread⟩ := Option.map_eq_some_iff.mp h
    exact takesShape_of_rawStringReading true rfl hhashes hread
  · cases h

theorem takesShape_of_stringReading (byte : Bool) {c : Char} {rest inside : List Char}
    {reading : Reading} (hsplit : c :: rest = byteMark byte ++ '"' :: inside)
    (h : stringReading ((byteMark byte).length + 1) inside = .ok reading) :
    reading.TakesShape c rest := by
  unfold stringReading at h
  cases hextent : stringExtent inside with
  | none => rw [hextent] at h; cases h
  | some n =>
    rw [hextent] at h
    cases h
    have htext := LiteralText.string byte (extent_take (stringExtent_take_append hextent))
    have hlength : (byteMark byte).length + 1 = (byteMark byte ++ ['"']).length := by simp
    rw [hlength]
    exact takesShape_of_opening (by simpa using hsplit) (by simp) (by simpa using htext)

theorem takesShape_of_stringRule {c : Char} {rest : List Char} {reading : Reading}
    (h : stringRule c rest = some (.ok reading)) : reading.TakesShape c rest := by
  unfold stringRule at h
  split at h
  · exact takesShape_of_stringReading false rfl (Option.some.inj h)
  · exact takesShape_of_stringReading true rfl (Option.some.inj h)
  · cases h

theorem takesShape_of_quotedChar (byte : Bool) {c : Char} {rest inside : List Char} {n : Nat}
    (hsplit : c :: rest = byteMark byte ++ '\'' :: inside)
    (h : quotedCharExtent inside = some n) :
    (Reading.token .literal ((byteMark byte).length + 1 + n)).TakesShape c rest := by
  have htext := LiteralText.quotedChar byte (extent_take (quotedCharExtent_take_append h))
  have hlength : (byteMark byte).length + 1 = (byteMark byte ++ ['\'']).length := by simp
  rw [hlength]
  exact takesShape_of_opening (by simpa using hsplit) (by simp) (by simpa using htext)

theorem takesShape_of_charRule {c : Char} {rest : List Char} {reading : Reading}
    (h : charRule c rest = some (.ok reading)) : reading.TakesShape c rest := by
  unfold charRule at h
  split at h
  · obtain ⟨n, hextent, he⟩ := Option.map_eq_some_iff.mp h
    cases he
    exact takesShape_of_quotedChar false rfl hextent
  · obtain ⟨n, hextent, he⟩ := Option.map_eq_some_iff.mp h
    cases he
    exact takesShape_of_quotedChar true rfl hextent
  · cases h

theorem takesShape_of_identRule {c : Char} {rest : List Char} {reading : Reading}
    (h : identRule c rest = some (.ok reading)) : reading.TakesShape c rest := by
  obtain ⟨n, hn, he⟩ := Option.map_eq_some_iff.mp h
  cases he
  obtain ⟨hpos, hle, htake⟩ := identExtent_take_append hn [] (by simp)
  refine takesShape_token hpos ?_
  rw [List.append_nil] at htake
  rw [ShapedAs, htake, List.length_take, Nat.min_eq_left hle]

theorem takesShape_of_numberRule {c : Char} {rest : List Char} {reading : Reading}
    (h : numberRule c rest = some (.ok reading)) : reading.TakesShape c rest := by
  unfold numberRule at h
  split at h
  · cases h
  · obtain ⟨n, hn, he⟩ := Option.map_eq_some_iff.mp h
    cases he
    obtain ⟨hpos, hle, htake⟩ := numberExtent_take_append hn [] (by simp)
    refine takesShape_token hpos (.number ?_)
    rw [List.append_nil] at htake
    rw [htake, List.length_take, Nat.min_eq_left hle]

theorem takesShape_of_lifetimeRule {c : Char} {rest : List Char} {reading : Reading}
    (h : lifetimeRule c rest = some (.ok reading)) : reading.TakesShape c rest := by
  unfold lifetimeRule at h
  split at h
  · next hquote =>
    split at h
    · next hstart =>
      cases h
      subst hquote
      refine takesShape_token (by omega) ?_
      rw [Nat.add_comm, List.take_succ_cons]
      refine ⟨_, rfl, ?_, all_take_runLength _ _⟩
      have hpos : 0 < runLength isIdentRest rest :=
        runLength_pos_of_head (fun _ => isIdentRest_of_isIdentStart) hstart
      have hhead := head_any_take_append hstart hpos []
      rwa [List.append_nil] at hhead
    · cases h
  · cases h

theorem takesShape_of_punctRule {c : Char} {rest : List Char} {reading : Reading}
    (h : punctRule c rest = some (.ok reading)) : reading.TakesShape c rest := by
  unfold punctRule at h
  split at h
  · next hpair =>
    cases h
    cases rest with
    | nil => cases hpair
    | cons d others =>
      refine takesShape_token (by omega) (.paired ?_)
      simpa using hpair
  · split at h
    · next hsingle =>
      cases h
      refine takesShape_token (by omega) (.single ?_)
      simpa using hsingle
    · cases h

/-- A piece that is a token is written as its kind of token is. -/
theorem takesShape_of_readPiece {c : Char} {rest : List Char} {reading : Reading}
    (h : readPiece c rest = .ok reading) : reading.TakesShape c rest := by
  unfold readPiece at h
  cases hf : lexicalRules.findSome? fun rule => rule c rest with
  | none => rw [hf] at h; cases h
  | some result =>
    rw [hf] at h
    obtain rfl : result = .ok reading := h
    obtain ⟨rule, hrule, hread⟩ := List.exists_of_findSome?_eq_some hf
    simp only [lexicalRules, List.mem_cons, List.not_mem_nil, or_false] at hrule
    rcases hrule with rfl | rfl | rfl | rfl | rfl | rfl | rfl | rfl | rfl | rfl
    · unfold blankRule at hread
      split at hread
      · cases hread
        exact takesShape_skip _ _ _
      · cases hread
    · exact takesShape_of_lineCommentRule hread
    · exact takesShape_of_blockCommentRule hread
    · exact takesShape_of_rawStringRule hread
    · exact takesShape_of_stringRule hread
    · exact takesShape_of_charRule hread
    · exact takesShape_of_identRule hread
    · exact takesShape_of_numberRule hread
    · exact takesShape_of_lifetimeRule hread
    · exact takesShape_of_punctRule hread

/-! ## From a source to its lexemes -/

/-- The lexeme that a piece of source is, if it is a token. -/
def Segment.lexeme? (piece : Segment) : Option Lexeme :=
  piece.kind.map fun kind => ⟨kind, String.ofList piece.text⟩

/-- The lexemes of the tokens do not depend on where the pieces begin. -/
theorem lexemes_place (start : Nat) (here : Location) (pieces : List Segment) :
    lexemes (place start here pieces) = pieces.filterMap Segment.lexeme? := by
  induction pieces generalizing start here with
  | nil => rfl
  | cons piece pieces ih =>
    simp only [place, List.filterMap_cons, Segment.lexeme?]
    cases piece.kind with
    | none => exact ih ..
    | some kind => simpa [lexemes] using ih ..

theorem segments_nil : segments [] = .ok [] := by
  rw [segments.eq_def]

theorem segments_cons {c : Char} {rest : List Char} {later : List Segment}
    (kind : Option TokenKind) (more : Nat) (h : readPiece c rest = .ok ⟨kind, more⟩)
    (hlater : segments (rest.drop more) = .ok later) :
    segments (c :: rest) = .ok (⟨kind, c :: rest.take more⟩ :: later) := by
  rw [segments.eq_def]
  simp only [h, hlater]

theorem sourceTokens_of_segments {source : String} {pieces : List Segment}
    (h : segments source.toList = .ok pieces) :
    sourceTokens source = .ok (place 0 .start pieces) := by
  rw [sourceTokens, tokens, h]
  rfl

/-- Every piece of a source is what some rule took there. -/
theorem exists_of_mem_segments {source : List Char} {pieces : List Segment}
    (h : segments source = .ok pieces) {piece : Segment} (hp : piece ∈ pieces) :
    ∃ c rest reading, readPiece c rest = .ok reading ∧
      piece = ⟨reading.kind, c :: rest.take reading.more⟩ := by
  fun_induction segments source generalizing pieces with
  | case1 => cases h; cases hp
  | case2 => cases h
  | case3 => cases h
  | case4 c rest reading hread later hlater ih =>
    cases h
    rcases List.mem_cons.mp hp with rfl | hp
    · exact ⟨c, rest, reading, hread, rfl⟩
    · exact ih hlater hp

/-- The lexemes of a source text, or where and why it cannot be read. -/
theorem lexemes_of_tokens {source : List Char} {ts : List Token} (h : tokens source = .ok ts) :
    ∃ pieces, segments source = .ok pieces ∧ lexemes ts = pieces.filterMap Segment.lexeme? := by
  obtain ⟨pieces, hs, rfl⟩ := map_eq_ok_iff.mp h
  exact ⟨pieces, hs, lexemes_place ..⟩

/-- Every token of a source is written as its kind of token is. -/
theorem shaped_of_tokens {source : List Char} {ts : List Token} (h : tokens source = .ok ts)
    {t : Lexeme} (ht : t ∈ lexemes ts) : t.Shaped := by
  obtain ⟨pieces, hs, hlex⟩ := lexemes_of_tokens h
  rw [hlex] at ht
  obtain ⟨piece, hpiece, hkind⟩ := List.mem_filterMap.mp ht
  obtain ⟨c, rest, reading, hread, rfl⟩ := exists_of_mem_segments hs hpiece
  obtain ⟨kind, hk, rfl⟩ := Option.map_eq_some_iff.mp hkind
  have hshape := takesShape_of_readPiece hread kind hk
  rw [Lexeme.Shaped, String.toList_ofList]
  exact hshape

theorem tokens_of_sourceTokens {source : String} {ts : List Token}
    (h : sourceTokens source = .ok ts) : tokens source.toList = .ok ts :=
  mapError_eq_ok_iff.mp h

/-! ## Words and marks -/

/-- The punctuation `text`. -/
def Lexeme.punct (text : String) : Lexeme := ⟨.punct, text⟩

/-- The identifier or keyword `text`. -/
def Lexeme.ident (text : String) : Lexeme := ⟨.ident, text⟩

/-- Whether a lexeme keeps words and punctuation apart: an identifier begins like one, and
punctuation does not. -/
structure Lexeme.Proper (t : Lexeme) : Prop where
  /-- An identifier begins with a letter or an underscore. -/
  ident : t.kind = .ident → startsIdent t.text.toList = true
  punct : t.kind = .punct → startsIdent t.text.toList = false

theorem startsIdent_of_identExtent {text : List Char} {n : Nat} (h : identExtent text = some n) :
    startsIdent text = true := by
  unfold identExtent at h
  split at h
  · rfl
  · split at h
    · assumption
    · cases h

/-- What is decided for each element of a list holds for all of them. -/
theorem forall_mem_of_all {α : Type} {p : α → Prop} [DecidablePred p] {l : List α}
    (h : (l.all fun a => decide (p a)) = true) : ∀ a ∈ l, p a :=
  fun a ha => of_decide_eq_true (List.all_eq_true.mp h a ha)

theorem startsIdent_of_punctText {text : List Char} (h : PunctText text) :
    startsIdent text = false := by
  cases h with
  | @single c h =>
    have hall : ∀ c ∈ singlePuncts, startsIdent [c] = false := forall_mem_of_all (by decide)
    exact hall c h
  | @paired c d h =>
    have hall : ∀ p ∈ pairedPuncts, startsIdent [p.1, p.2] = false := by decide
    exact hall (c, d) h

theorem Lexeme.Shaped.proper {t : Lexeme} (h : t.Shaped) : t.Proper where
  ident hk := by
    rw [Lexeme.Shaped, hk] at h
    exact startsIdent_of_identExtent h
  punct hk := by
    rw [Lexeme.Shaped, hk] at h
    exact startsIdent_of_punctText h

/-- The tokens of a source keep words and punctuation apart. -/
theorem proper_of_sourceTokens {source : String} {ts : List Token}
    (h : sourceTokens source = .ok ts) : ∀ t ∈ lexemes ts, t.Proper :=
  fun _ ht => (shaped_of_tokens (tokens_of_sourceTokens h) ht).proper

namespace Lexeme.Proper

variable {t : Lexeme} {text : String}

/-- Where a mark is looked for, a proper lexeme is that punctuation. -/
theorem eq_punct (h : t.Proper) (hw : t.isWord text = true)
    (hs : startsIdent text.toList = false) : t = .punct text := by
  obtain ⟨kind, s⟩ := t
  simp only [isWord, Bool.and_eq_true, Bool.or_eq_true, beq_iff_eq] at hw
  obtain ⟨hk | hk, rfl⟩ := hw
  · subst hk
    rfl
  · have := h.ident hk
    rw [hs] at this
    cases this

/-- Where a word is looked for, a proper lexeme is that identifier. -/
theorem eq_ident (h : t.Proper) (hw : t.isWord text = true)
    (hs : startsIdent text.toList = true) : t = .ident text := by
  obtain ⟨kind, s⟩ := t
  simp only [isWord, Bool.and_eq_true, Bool.or_eq_true, beq_iff_eq] at hw
  obtain ⟨hk | hk, rfl⟩ := hw
  · have := h.punct hk
    rw [hs] at this
    cases this
  · subst hk
    rfl

end Lexeme.Proper

end Microtypes
