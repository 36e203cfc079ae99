import Mathlib.Data.List.Chain
import Microtypes.Proofs.Token.Separation
import Microtypes.Token.Spelling

/-!
# Which spellings can be read back

The spelling of a list of tokens is read back as the same list unless two neighbours run together in
it (`lexed_spelling_iff`). There are two ways to do so: a mark completes an operator with the one
right behind it, or a line doc comment takes in what stands behind it on its line.
-/

namespace Microtypes

/-- The lexemes of a text, or where and why it cannot be read. -/
def lexed (text : List Char) : Except LexicalFault (List Lexeme) :=
  (segments text).map fun pieces => pieces.filterMap Segment.lexeme?

/-- The marks that read as another one where the second stands right behind the first. -/
def fusingMarks : List (String × String) :=
  [(":", "::"), ("-", ">"), ("=", ">")]

/-- Whether two neighbours run together in their spelling. -/
def merges (left right : Lexeme) : Bool :=
  (left.kind == .doc && ['/', '/'].isPrefixOf left.text.toList) ||
    (left.kind == .punct && right.kind == .punct && fusingMarks.contains (left.text, right.text))

/-- Whether no neighbours in a list run together. -/
def Legible (ts : List Lexeme) : Prop :=
  ts.IsChain fun left right => merges left right = false

variable {t left right : Lexeme} {ts rest : List Lexeme} {text after : List Char}

/-! ## Reading piece by piece -/

theorem lexed_nil : lexed [] = .ok [] := by
  rw [lexed, segments_nil]
  rfl

theorem lexed_cons {c : Char} {others : List Char} {reading : Reading}
    (h : readPiece c others = .ok reading) :
    lexed (c :: others) = (lexed (others.drop reading.more)).map fun later =>
      (Segment.lexeme? ⟨reading.kind, c :: others.take reading.more⟩).toList ++ later := by
  rw [lexed, segments.eq_def]
  simp only [h, lexed]
  cases segments (others.drop reading.more) with
  | error fault => rfl
  | ok pieces =>
    simp only [Except.map, List.filterMap_cons]
    cases Segment.lexeme? ⟨reading.kind, c :: others.take reading.more⟩ <;> rfl

theorem lexed_space (others : List Char) : lexed (' ' :: others) = lexed others := by
  have hread : readPiece ' ' others = .ok ⟨none, 0⟩ := rfl
  rw [lexed_cons hread, List.drop_zero]
  cases lexed others <;> rfl

/-- The first token of a text is the one that its first piece is. -/
theorem head_of_lexed {c : Char} {others : List Char} {kind : TokenKind} {more : Nat}
    (hread : readPiece c others = .ok ⟨some kind, more⟩) (h : lexed (c :: others) = .ok ts) :
    ts.head? = some ⟨kind, String.ofList (c :: others.take more)⟩ := by
  rw [lexed_cons hread] at h
  cases hlater : lexed (others.drop more) with
  | error fault => simp only [hlater] at h; cases h
  | ok later =>
    simp only [hlater] at h
    cases h
    rfl

/-! ## Tokens that are set apart -/

theorem ne_nil_of_shaped {kind : TokenKind} (h : ShapedAs kind text) : text ≠ [] := by
  rintro rfl
  cases kind with
  | ident => cases h
  | lifetime =>
    obtain ⟨name, he, -⟩ := h
    cases he
  | literal =>
    generalize htext : [] = text at h
    cases h with
    | number h => subst htext; cases h
    | string byte h => cases byte <;> cases htext
    | rawString byte hashes h => cases byte <;> cases htext
    | quotedChar byte h => cases byte <;> cases htext
  | punct => cases h
  | doc => cases h

theorem setApart_nil (kind : TokenKind) (text : List Char) : SetApart kind text [] := by
  cases kind with
  | punct => intro c d _ hd; cases hd
  | doc => intro _; rfl
  | ident => intro d hd; cases hd
  | lifetime => intro d hd; cases hd
  | literal => intro d hd; cases hd

/-- The first character of a token, which is no blank, and the others. -/
theorem exists_cons_of_shaped (h : t.Shaped) :
    ∃ c more, t.text.toList = c :: more ∧ isBlank c = false := by
  have hne := ne_nil_of_shaped h
  rw [Lexeme.Shaped] at h
  cases htext : t.text.toList with
  | nil => exact absurd htext hne
  | cons c more =>
    rw [htext] at h
    refine ⟨c, more, rfl, Bool.eq_false_iff.mpr fun hblank => ?_⟩
    have hskip : readPiece c (more ++ []) = .ok ⟨none, 0⟩ := by
      rw [readPiece, lexicalRules, List.findSome?_cons, blankRule, if_pos hblank]
      rfl
    rw [readPiece_of_shaped h (setApart_nil _ _)] at hskip
    cases hskip

theorem lexed_append (h : t.Shaped) (hafter : SetApart t.kind t.text.toList after) :
    lexed (t.text.toList ++ after) = (lexed after).map (t :: ·) := by
  obtain ⟨c, more, htext, -⟩ := exists_cons_of_shaped h
  rw [Lexeme.Shaped, htext] at h
  rw [htext] at hafter
  rw [htext, List.cons_append, lexed_cons (readPiece_of_shaped h hafter)]
  simp only [List.drop_left, List.take_left, Segment.lexeme?, Option.map_some, Option.toList_some,
    List.singleton_append, ← htext, String.ofList_toList]

/-! ## What the spelling puts behind a token -/

/-- The text behind the first of two neighbours in their spelling. -/
def spellingAfter (left right : Lexeme) (rest : List Lexeme) : List Char :=
  (if spaced left right then [' '] else []) ++ (spelling (right :: rest)).toList

theorem spelling_cons_cons (left right : Lexeme) (rest : List Lexeme) :
    (spelling (left :: right :: rest)).toList =
      left.text.toList ++ spellingAfter left right rest := by
  rw [spelling, spellingAfter, String.toList_append, String.toList_append, List.append_assoc]
  split <;> rfl

theorem lexed_spellingAfter (left right : Lexeme) (rest : List Lexeme) :
    lexed (spellingAfter left right rest) = lexed (spelling (right :: rest)).toList := by
  rw [spellingAfter]
  split
  · exact lexed_space _
  · rfl

theorem spelling_cons_eq (right : Lexeme) (rest : List Lexeme) :
    ∃ more, (spelling (right :: rest)).toList = right.text.toList ++ more := by
  cases rest with
  | nil => exact ⟨[], by rw [spelling, List.append_nil]⟩
  | cons next rest => exact ⟨_, spelling_cons_cons right next rest⟩

/-- Behind a token stands a space or, where the spelling puts none, the next token. -/
theorem spellingAfter_cases (hright : right.Shaped) (left : Lexeme) (rest : List Lexeme) :
    ∃ e more, right.text.toList.head? = some e ∧ isBlank e = false ∧
      (spaced left right = true ∧ spellingAfter left right rest = ' ' :: e :: more ∨
        spaced left right = false ∧ spellingAfter left right rest = e :: more) := by
  obtain ⟨e, others, htext, hblank⟩ := exists_cons_of_shaped hright
  obtain ⟨more, hmore⟩ := spelling_cons_eq right rest
  rw [htext] at hmore
  refine ⟨e, others ++ more, by rw [htext]; rfl, hblank, ?_⟩
  rw [spellingAfter, hmore]
  cases spaced left right with
  | true => exact Or.inl ⟨rfl, rfl⟩
  | false => exact Or.inr ⟨rfl, rfl⟩

/-- Two tokens touch behind an opening mark, before a closing one, and in a call. -/
theorem touches_cases (h : spaced left right = false) :
    (left.kind = .punct ∧ left.text ∈ unspacedAfter) ∨
      (right.kind = .punct ∧ right.text ∈ unspacedBefore) ∨
      (left.kind = .ident ∧ right.text = "(") := by
  simp only [spaced, Bool.and_eq_false_iff, Bool.not_eq_false', Bool.and_eq_true, beq_iff_eq,
    List.contains_iff_mem] at h
  rcases h with (h | h) | h
  · exact Or.inl h
  · exact Or.inr (Or.inl h)
  · exact Or.inr (Or.inr ⟨h.1.2, h.1.1⟩)

/-- The first character of a mark that no space comes before. -/
theorem head_mem_separators {text : String} {e : Char} (h : text ∈ unspacedBefore)
    (he : text.toList.head? = some e) : e ∈ separators := by
  have hall : ∀ text ∈ unspacedBefore, text.toList.head?.all (· ∈ separators) = true :=
    forall_mem_of_all (by decide)
  have hhead := hall text h
  rw [he] at hhead
  exact of_decide_eq_true hhead

/-- Behind a token that is no punctuation stands a separator. -/
theorem spellingAfter_separated (hright : right.Shaped) (hleft : left.kind ≠ .punct) :
    ∀ d ∈ (spellingAfter left right rest).head?, d ∈ separators := by
  obtain ⟨e, more, hhead, -, ⟨-, hafter⟩ | ⟨htouch, hafter⟩⟩ :=
    spellingAfter_cases hright left rest
  · rw [hafter]
    rintro d ⟨⟩
    decide
  · rw [hafter]
    rintro d ⟨⟩
    rcases touches_cases htouch with ⟨hk, -⟩ | ⟨-, hmem⟩ | ⟨-, hcall⟩
    · exact absurd hk hleft
    · exact head_mem_separators hmem hhead
    · rw [hcall] at hhead
      cases hhead
      decide

/-! ## Neighbours that do not run together -/

/-- Before a mark that no space comes before, an operator is completed in the listed ways only. -/
theorem fusing_of_paired {text : String} {c e : Char} (h : text ∈ unspacedBefore)
    (he : text.toList.head? = some e) (hpair : (c, e) ∈ pairedPuncts) :
    (String.ofList [c], text) ∈ fusingMarks := by
  have hall : ∀ text ∈ unspacedBefore, ∀ p ∈ pairedPuncts, text.toList.head? = some p.2 →
      (String.ofList [p.1], text) ∈ fusingMarks := by decide
  exact hall text h (c, e) hpair he

/-- An opening mark completes no operator and opens no comment. -/
theorem opening_plain {text : String} {c : Char} (h : text ∈ unspacedAfter)
    (htext : text.toList = [c]) : (∀ e, (c, e) ∉ pairedPuncts) ∧ c ≠ '/' := by
  have hall : ∀ text ∈ unspacedAfter, text.toList.length = 1 →
      text.toList.head? ∉ pairedPuncts.map (some ·.1) ∧ text.toList.head? ≠ some '/' :=
    forall_mem_of_all (by decide)
  obtain ⟨hpairs, hslash⟩ := hall text h (by rw [htext]; rfl)
  rw [htext] at hpairs hslash
  exact ⟨fun e he => hpairs (List.mem_map_of_mem he), fun hc => hslash (congrArg some hc)⟩

theorem setApart_punct (hright : right.Shaped) (hk : left.kind = .punct)
    (h : merges left right = false) :
    SetApart .punct left.text.toList (spellingAfter left right rest) := by
  intro c d htext hd
  obtain ⟨e, more, hhead, hblank, ⟨-, hafter⟩ | ⟨htouch, hafter⟩⟩ :=
    spellingAfter_cases hright left rest
  · rw [hafter] at hd
    cases hd
    have hall : ∀ p ∈ pairedPuncts, p.2 ≠ ' ' := by decide
    exact ⟨fun hpair => hall (c, ' ') hpair rfl, fun _ => by decide⟩
  · rw [hafter] at hd
    cases hd
    rcases touches_cases htouch with ⟨-, hmem⟩ | ⟨hkind, hmem⟩ | ⟨hident, -⟩
    · obtain ⟨hpairs, hslash⟩ := opening_plain hmem htext
      exact ⟨hpairs d, fun hc => absurd hc hslash⟩
    · constructor
      · intro hpair
        have hfuse := fusing_of_paired hmem hhead hpair
        rw [← htext, String.ofList_toList] at hfuse
        have hno := (Bool.or_eq_false_iff.mp h).2
        rw [hk, hkind, List.contains_iff_mem.mpr hfuse] at hno
        cases hno
      · have hall : ∀ d ∈ separators, d ≠ '/' ∧ d ≠ '*' := forall_mem_of_all (by decide)
        exact fun _ => hall d (head_mem_separators hmem hhead)
    · rw [hk] at hident
      cases hident

theorem setApart_of_merges (hright : right.Shaped) (h : merges left right = false) :
    SetApart left.kind left.text.toList (spellingAfter left right rest) := by
  cases hk : left.kind with
  | punct => exact setApart_punct hright hk h
  | doc =>
    rintro ⟨body, hbody⟩
    rw [merges, hk, hbody] at h
    cases h
  | ident => exact spellingAfter_separated hright (by rw [hk]; decide)
  | lifetime => exact spellingAfter_separated hright (by rw [hk]; decide)
  | literal => exact spellingAfter_separated hright (by rw [hk]; decide)

/-! ## Neighbours that run together -/

/-- A mark is not read back where it completes an operator. -/
theorem head_ne_of_fusing (hleft : left.kind = .punct) (hright : right.kind = .punct)
    (hfuse : (left.text, right.text) ∈ fusingMarks)
    (h : lexed (spelling (left :: right :: rest)).toList = .ok ts) : ts.head? ≠ some left := by
  have hall : ∀ p ∈ fusingMarks, p.2 ∈ unspacedBefore ∧ ∃ c d others,
      p.1.toList = [c] ∧ p.2.toList = d :: others ∧ (c, d) ∈ pairedPuncts := by
    simp [fusingMarks, unspacedBefore, pairedPuncts]
  obtain ⟨hmem, c, d, others, hc, hd, hpair⟩ := hall _ hfuse
  have htouch : spaced left right = false := by
    simp [spaced, hright, hmem]
  obtain ⟨more, hmore⟩ := spelling_cons_eq right rest
  rw [hd] at hmore
  rw [spelling_cons_cons, spellingAfter, htouch, hmore, hc] at h
  have hhead := head_of_lexed (readPiece_paired hpair (others ++ more)) h
  rw [hhead]
  rintro ⟨⟩
  rw [String.toList_ofList] at hc
  cases hc

theorem trimEnd_append_cons {e : Char} (he : isBlank e = false) (front more : List Char) :
    trimEnd (front ++ e :: more) = front ++ e :: trimEnd more := by
  have hreverse : (front ++ e :: more).reverse = more.reverse ++ (e :: front.reverse) := by simp
  rw [trimEnd, trimEnd, hreverse, List.dropWhile_append]
  split
  · next hempty =>
    rw [List.isEmpty_iff.mp hempty]
    simp [he]
  · simp

/-- Behind a token on the same line stands a character that is no blank. -/
theorem exists_of_spellingAfter (hright : right.Shaped) (left : Lexeme) (rest : List Lexeme) :
    ∃ gap e more, spellingAfter left right rest = gap ++ e :: more ∧ isBlank e = false ∧
      ∀ d ∈ gap, d = ' ' := by
  obtain ⟨e, more, -, hblank, ⟨-, hafter⟩ | ⟨-, hafter⟩⟩ := spellingAfter_cases hright left rest
  · exact ⟨[' '], e, more, hafter, hblank, fun d hd => List.mem_singleton.mp hd⟩
  · exact ⟨[], e, more, hafter, hblank, fun d hd => absurd hd List.not_mem_nil⟩

/-- A line doc comment takes in more than itself. -/
theorem head_ne_of_lineDoc {body : List Char} (hleft : left.Shaped) (hk : left.kind = .doc)
    (hbody : left.text.toList = '/' :: '/' :: body) (hright : right.Shaped)
    (h : lexed (spelling (left :: right :: rest)).toList = .ok ts) : ts.head? ≠ some left := by
  rw [Lexeme.Shaped, hk, hbody] at hleft
  cases hleft with
  | line hdoc hfeed htrim =>
    obtain ⟨others, he, hthird⟩ := exists_of_opensDoc hdoc
    have hbody' : body = '/' :: others := (List.cons.inj he).2
    have hopens : opensDoc '/' ('/' :: (body ++ spellingAfter left right rest)) = true := by
      rw [hbody']
      refine opensDoc_cons fun hslash => ?_
      cases others with
      | nil =>
        have hsep := spellingAfter_separated hright (by rw [hk]; decide) '/' hslash
        exact absurd hsep (by decide)
      | cons d others => exact hthird hslash
    obtain ⟨gap, e, more, hafter, hblank, hgap⟩ := exists_of_spellingAfter hright left rest
    have hall : ∀ d ∈ '/' :: (body ++ gap ++ [e]), decide (d ≠ '\n') = true := by
      intro d hd
      refine decide_eq_true ?_
      rintro rfl
      rcases List.mem_cons.mp hd with hd | hd
      · cases hd
      · rcases List.mem_append.mp hd with hd | hd
        · rcases List.mem_append.mp hd with hd | hd
          · exact hfeed hd
          · cases hgap _ hd
        · rw [← List.mem_singleton.mp hd] at hblank
          cases hblank
    have hline : ('/' :: (body ++ spellingAfter left right rest)).takeWhile (· ≠ '\n') =
        '/' :: (body ++ gap) ++ e :: more.takeWhile (· ≠ '\n') := by
      have hsplit : '/' :: (body ++ spellingAfter left right rest) =
          '/' :: (body ++ gap ++ [e]) ++ more := by simp [hafter]
      rw [hsplit, List.takeWhile_append_of_pos hall]
      simp
    rw [spelling_cons_cons, hbody] at h
    have hhead := head_of_lexed (readPiece_lineDoc hopens) h
    rw [hhead]
    intro hsame
    have htext := congrArg (fun t => t.text.toList.length) (Option.some.inj hsame)
    rw [hline, ← List.cons_append, trimEnd_append_cons hblank] at htext
    simp only [hbody, String.toList_ofList, hafter, List.length_cons, List.length_take,
      List.length_append] at htext
    omega

/-! ## Reading a spelling back -/

/-- A token that runs together with the next one is not read back. -/
theorem head_ne_of_merges (hleft : left.Shaped) (hright : right.Shaped)
    (hmerge : merges left right = true)
    (h : lexed (spelling (left :: right :: rest)).toList = .ok ts) : ts.head? ≠ some left := by
  simp only [merges, Bool.or_eq_true, Bool.and_eq_true, beq_iff_eq, List.contains_iff_mem,
    List.isPrefixOf_iff_prefix] at hmerge
  rcases hmerge with ⟨hk, body, hbody⟩ | ⟨⟨hleft, hright⟩, hfuse⟩
  · exact head_ne_of_lineDoc hleft hk hbody.symm hright h
  · exact head_ne_of_fusing hleft hright hfuse h

/-- A spelling is read back as the tokens it was made from if and only if no two of them run
together. -/
theorem lexed_spelling_iff (h : ∀ t ∈ ts, t.Shaped) :
    lexed (spelling ts).toList = .ok ts ↔ Legible ts := by
  induction ts with
  | nil => exact ⟨fun _ => List.isChain_nil, fun _ => lexed_nil⟩
  | cons left ts ih =>
    have hleft := h left List.mem_cons_self
    cases ts with
    | nil =>
      refine ⟨fun _ => List.isChain_singleton left, fun _ => ?_⟩
      rw [spelling, ← List.append_nil left.text.toList, lexed_append hleft (setApart_nil _ _),
        lexed_nil]
      rfl
    | cons right rest =>
      have hright := h right (List.mem_cons_of_mem _ List.mem_cons_self)
      have ih := ih fun t ht => h t (List.mem_cons_of_mem _ ht)
      rw [Legible, List.isChain_cons_cons]
      cases hmerge : merges left right with
      | true =>
        refine ⟨fun hread => absurd rfl (head_ne_of_merges hleft hright hmerge hread), ?_⟩
        rintro ⟨hno, -⟩
        cases hno
      | false =>
        rw [spelling_cons_cons, lexed_append hleft (setApart_of_merges hright hmerge),
          lexed_spellingAfter]
        refine ⟨fun hread => ⟨rfl, ih.mp ?_⟩, fun hlegible => ?_⟩
        · cases hlater : lexed (spelling (right :: rest)).toList with
          | error fault => rw [hlater] at hread; cases hread
          | ok later => rw [hlater] at hread; cases hread; rfl
        · rw [ih.mpr hlegible.2]
          rfl

end Microtypes
