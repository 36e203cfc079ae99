import Microtypes.Proofs.Rust.Ingredients

/-!
# What a spelling keeps

The tokens of a source are read back from their spelling unless certain neighbours stand among them,
or a line doc comment that is not the last one (`readsBack_spelling_iff`). Operators that Rust
writes with two characters, and that are two tokens here, stay whole in the text of a type only
where the spelling puts no space between these two characters anyway (`keepsOperator_iff`).
-/

namespace Microtypes

open Lexeme (punct ident)

variable {source : String} {left right t : Lexeme} {ts before after : List Lexeme}

/-! ## Neighbours that run together -/

/-- Whether no tokens stand beside each other that run together when they are written out, and no
line doc comment stands in front of another token. -/
structure Untangled (ts : List Lexeme) : Prop where
  colons : ¬ [punct ":", punct "::"] <:+: ts
  thinArrow : ¬ [punct "-", punct ">"] <:+: ts
  thickArrow : ¬ [punct "=", punct ">"] <:+: ts
  lineDocs : ∀ t ∈ ts.dropLast, t.kind = .doc → ¬ "///".toList <+: t.text.toList

theorem legible_iff :
    Legible ts ↔ ∀ left right, [left, right] <:+: ts → merges left right = false := by
  constructor
  · intro h left right hinfix
    have hpair : [left, right].IsChain fun left right => merges left right = false := h.infix hinfix
    exact (List.isChain_cons_cons.mp hpair).1
  · intro h
    exact (List.isChain_isInfix ts).imp h

/-- All tokens but the last one have another token behind them. -/
theorem mem_dropLast_iff : t ∈ ts.dropLast ↔ ∃ right, [t, right] <:+: ts := by
  constructor
  · intro ht
    rcases List.eq_nil_or_concat' ts with rfl | ⟨others, last, rfl⟩
    · cases ht
    · rw [List.dropLast_concat] at ht
      obtain ⟨before, after, rfl⟩ := List.append_of_mem ht
      cases after with
      | nil => exact ⟨last, before, [], by simp⟩
      | cons right after => exact ⟨right, before, after ++ [last], by simp⟩
  · rintro ⟨right, before, after, rfl⟩
    simp [List.dropLast_append_of_ne_nil]

/-- A line doc comment begins with three slashes. -/
theorem slashes_isPrefix_iff (h : t.Shaped) (hk : t.kind = .doc) :
    "///".toList <+: t.text.toList ↔ ['/', '/'] <+: t.text.toList := by
  constructor
  · intro hthree
    exact List.IsPrefix.trans (by decide) hthree
  · rintro ⟨body, hbody⟩
    rw [Lexeme.Shaped, hk, ← hbody] at h
    rw [← hbody]
    cases h with
    | line hdoc =>
      obtain ⟨others, heq, -⟩ := exists_of_opensDoc hdoc
      obtain rfl : body = '/' :: others := (List.cons.inj heq).2
      exact ⟨others, rfl⟩

/-- A line doc comment runs together with every token behind it. -/
theorem merges_of_lineDoc (hk : left.kind = .doc) (h : ['/', '/'] <+: left.text.toList)
    (right : Lexeme) : merges left right = true := by
  rw [merges, hk, List.isPrefixOf_iff_prefix.mpr h]
  rfl

/-- The tokens of a source are legible exactly where none of them run together. -/
theorem legible_iff_untangled (hshaped : ∀ t ∈ ts, t.Shaped) : Legible ts ↔ Untangled ts := by
  rw [legible_iff]
  constructor
  · intro h
    have hapart : ∀ p ∈ fusingMarks, ¬ [punct p.1, punct p.2] <:+: ts := by
      intro p hp hinfix
      have hmerge := h _ _ hinfix
      rw [merges, Bool.or_eq_false_iff] at hmerge
      simp only [punct, beq_self_eq_true, Bool.true_and] at hmerge
      rw [List.contains_iff_mem.mpr hp] at hmerge
      exact Bool.noConfusion hmerge.2
    refine ⟨hapart (":", "::") (by decide), hapart ("-", ">") (by decide),
      hapart ("=", ">") (by decide), ?_⟩
    intro t ht hk hthree
    obtain ⟨right, hinfix⟩ := mem_dropLast_iff.mp ht
    have htwo := (slashes_isPrefix_iff (hshaped t (List.mem_of_mem_dropLast ht)) hk).mp hthree
    have hmerge := merges_of_lineDoc hk htwo right
    rw [h t right hinfix] at hmerge
    cases hmerge
  · intro h left right hinfix
    rw [← Bool.not_eq_true]
    intro hmerge
    have hleft : left ∈ ts := hinfix.subset List.mem_cons_self
    by_cases hdoc : left.isLineDoc = true
    · rw [Lexeme.isLineDoc, Bool.and_eq_true, beq_iff_eq, List.isPrefixOf_iff_prefix] at hdoc
      obtain ⟨hk, htwo⟩ := hdoc
      have hthree := (slashes_isPrefix_iff (hshaped left hleft) hk).mpr htwo
      exact h.lineDocs left (mem_dropLast_iff.mpr ⟨right, hinfix⟩) hk hthree
    · rcases merges_cases hmerge (Bool.eq_false_iff.mpr hdoc) with
        ⟨rfl, rfl⟩ | ⟨rfl, rfl⟩ | ⟨rfl, rfl⟩
      · exact h.colons hinfix
      · exact h.thinArrow hinfix
      · exact h.thickArrow hinfix

/-- The tokens of a source are read back from their spelling if and only if none of them run
together in it. -/
theorem readsBack_spelling_iff {tokens : List Token} (h : sourceTokens source = .ok tokens) :
    ReadsBack (spelling (lexemes tokens)) (lexemes tokens) ↔ Untangled (lexemes tokens) := by
  have hshaped : ∀ t ∈ lexemes tokens, t.Shaped := by
    intro t ht
    exact shaped_of_tokens (tokens_of_sourceTokens h) ht
  rw [readsBack_iff, lexed_spelling_iff hshaped, legible_iff_untangled hshaped]

/-- A line doc comment at the end is read back, and so are a path separator and a colon that do not
touch. -/
theorem readsBack_spelling_iff_doc :
    ∃ tokens, sourceTokens ":: a : /// d" = .ok tokens ∧
      spelling (lexemes tokens) = "::a : /// d" ∧ ReadsBack "::a : /// d" (lexemes tokens) := by
  have hsegments : segments ":: a : /// d".toList = .ok
      [⟨some .punct, "::".toList⟩, ⟨none, [' ']⟩, ⟨some .ident, ['a']⟩, ⟨none, [' ']⟩,
        ⟨some .punct, [':']⟩, ⟨none, [' ']⟩, ⟨some .doc, "/// d".toList⟩] := by
    refine segments_cons _ 1 rfl (segments_cons _ 0 rfl (segments_cons _ 0 rfl ?_))
    refine segments_cons _ 0 rfl (segments_cons _ 0 rfl (segments_cons _ 0 rfl ?_))
    exact segments_cons _ 4 rfl segments_nil
  have htokens := sourceTokens_of_segments hsegments
  have huntangled : Untangled [punct "::", ident "a", punct ":", ⟨.doc, "/// d"⟩] := by
    constructor
    · decide
    · decide
    · decide
    · simp [punct, ident]
  exact ⟨_, htokens, rfl, (readsBack_spelling_iff htokens).mpr huntangled⟩

/-! ## Operators of two characters -/

/-- The operators that Rust writes with two characters and that are two tokens here. -/
def compoundOperators : List String :=
  ["==", "!=", "<=", ">=", "&&", "||", "<<", ">>", "..", "+=", "-=", "*=", "/=", "%=", "^=", "|=",
    "&="]

/-- Those whose first character has no space behind it, or whose second one has none in front. -/
def keptOperators : List String :=
  ["!=", "<=", "&&", "<<", ">>", "&="]

/-- What is written for tokens is what is written for those up to some place and for those from
there on, with or without a space in between. -/
theorem spelling_append (before after : List Lexeme) (left right : Lexeme) :
    spelling (before ++ left :: right :: after) = spelling (before ++ [left]) ++
      (if spaced left right then " " else "") ++ spelling (right :: after) := by
  induction before with
  | nil => simp only [List.nil_append, spelling]
  | cons first before ih =>
    cases before with
    | nil => simp only [List.nil_append, List.cons_append, spelling, String.append_assoc]
    | cons second before =>
      simp only [List.cons_append, spelling] at ih ⊢
      rw [ih]
      simp only [String.append_assoc]

/-- Two tokens are written without a space between them exactly where they are not set apart. -/
theorem spelling_touches_iff (before after : List Lexeme) (left right : Lexeme) :
    spelling (before ++ left :: right :: after) =
      spelling (before ++ [left]) ++ spelling (right :: after) ↔ spaced left right = false := by
  rw [spelling_append]
  constructor
  · intro h
    by_cases hspace : spaced left right = true
    · rw [if_pos hspace] at h
      have hlength := congrArg String.length h
      simp only [String.length_append] at hlength
      have hone : " ".length = 1 := rfl
      omega
    · exact Bool.eq_false_iff.mpr hspace
  · intro h
    rw [h]
    simp

/-- The two tokens of an operator are its two characters, one each. -/
theorem eq_punct_of_operator (hleft : left.Shaped) (hright : right.Shaped)
    (hl : left.kind = .punct) (hr : right.kind = .punct) {operator : String}
    (hlength : operator.toList.length = 2) (h : left.text ++ right.text = operator) :
    left = punct (String.ofList (operator.toList.take 1)) ∧
      right = punct (String.ofList (operator.toList.drop 1)) := by
  have hchars : left.text.toList ++ right.text.toList = operator.toList := by
    rw [← String.toList_append, h]
  have hlpos := List.length_pos_iff.mpr (ne_nil_of_shaped hleft)
  have hrpos := List.length_pos_iff.mpr (ne_nil_of_shaped hright)
  have hlone : left.text.toList.length = 1 := by
    rw [← hchars, List.length_append] at hlength
    omega
  rw [← hchars, List.take_left' hlone, List.drop_left' hlone, String.ofList_toList,
    String.ofList_toList]
  constructor
  · rw [punct, ← hl]
  · rw [punct, ← hr]

/-- An operator is written without a space inside exactly if it is one of `keptOperators`. -/
theorem spaced_operator_iff (hleft : left.Shaped) (hright : right.Shaped)
    (hl : left.kind = .punct) (hr : right.kind = .punct)
    (h : left.text ++ right.text ∈ compoundOperators) :
    spaced left right = false ↔ left.text ++ right.text ∈ keptOperators := by
  have hall : ∀ operator ∈ compoundOperators, operator.toList.length = 2 ∧
      (spaced (punct (String.ofList (operator.toList.take 1)))
        (punct (String.ofList (operator.toList.drop 1))) = false ↔ operator ∈ keptOperators) := by
    decide +kernel
  obtain ⟨hlength, hiff⟩ := hall _ h
  obtain ⟨hleft', hright'⟩ := eq_punct_of_operator hleft hright hl hr hlength rfl
  rw [← hleft', ← hright'] at hiff
  exact hiff

/-- In the text of a type of a source, an operator whose two characters touch in the source stays
whole if and only if it is one of `keptOperators`. -/
theorem keepsOperator_iff {all ahead rest : List Token} {type : WrittenType}
    (hall : sourceTokens source = .ok all) (hahead : ahead <:+ all)
    (h : readType ahead = .ok (type, rest)) :
    ∃ run, ahead = run ++ rest ∧ ∀ before left right after, run = before ++ left :: right :: after →
      left.kind = .punct → right.kind = .punct → left.stop = right.start →
      left.text ++ right.text ∈ compoundOperators →
      (type.text = spelling (lexemes (before ++ [left])) ++ spelling (lexemes (right :: after)) ↔
        left.text ++ right.text ∈ keptOperators) := by
  have hshaped := shaped_of_within hall hahead.isInfix
  have hproper : ∀ t ∈ lexemes ahead, t.Proper := fun t ht => (hshaped t ht).proper
  obtain ⟨run, rfl, -⟩ := run_of_readType hproper h
  obtain ⟨ts, hsplit, -, htext⟩ := derives_of_readType hproper h
  obtain rfl : lexemes run = ts := lexemes_run hsplit
  refine ⟨run, rfl, ?_⟩
  rintro before left right after rfl hl hr - hoperator
  have hmem : ∀ t ∈ [left, right],
      t.toLexeme ∈ lexemes (before ++ left :: right :: after ++ rest) := by
    intro t ht
    have hrun : t ∈ before ++ left :: right :: after ++ rest := by
      rw [List.mem_append, List.mem_append]
      exact .inl (.inr ((List.prefix_append [left, right] after).subset ht))
    exact List.mem_map_of_mem hrun
  have hleft := hshaped left.toLexeme (hmem left List.mem_cons_self)
  have hright := hshaped right.toLexeme (hmem right (List.mem_cons_of_mem _ List.mem_cons_self))
  have hparts : lexemes (before ++ left :: right :: after) =
      lexemes before ++ left.toLexeme :: right.toLexeme :: lexemes after := by simp [lexemes]
  have hfront : lexemes (before ++ [left]) = lexemes before ++ [left.toLexeme] := by simp [lexemes]
  rw [htext, hparts, hfront, ← spaced_operator_iff hleft hright hl hr hoperator]
  exact spelling_touches_iff _ _ _ _

/-- An array of bytes is read as a type, whatever its length is. -/
theorem readType_byteArray {all : List Token} (hall : sourceTokens source = .ok all)
    (hlength : IsValue ts)
    (hlexemes : lexemes all = punct "[" :: ident "u8" :: punct ";" :: ts ++ [punct "]"]) :
    ∃ type, readType all = .ok (type, []) ∧ type.text = spelling (lexemes all) := by
  have helement : Derives .type [ident "u8"] := by
    have hword : Derives .segment [ident "u8"] := .word rfl (by decide)
    have hpath : Derives .path [ident "u8"] :=
      @Derives.path false [[ident "u8"]] (by simp) (by simpa using hword)
    exact .named hpath (by decide)
  have hderives : Derives .type (lexemes all) := by
    rw [hlexemes]
    exact .array helement hlength
  obtain ⟨type, hread, htext⟩ := readWholeType_of_derives (proper_of_sourceTokens hall) hderives
  exact ⟨type, readType_of_readWholeType hread, htext⟩

/-- A shift stays whole. -/
theorem keepsOperator_iff_shift :
    ∃ all type before left right after, sourceTokens "[u8; 1 << 2]" = .ok all ∧ all <:+ all ∧
      readType all = .ok (type, []) ∧ all = before ++ left :: right :: after ∧
      left.kind = .punct ∧ right.kind = .punct ∧ left.stop = right.start ∧
      left.text ++ right.text ∈ compoundOperators ∧
      type.text = spelling (lexemes (before ++ [left])) ++ spelling (lexemes (right :: after)) := by
  have hsegments : segments "[u8; 1 << 2]".toList = .ok
      [⟨some .punct, ['[']⟩, ⟨some .ident, "u8".toList⟩, ⟨some .punct, [';']⟩, ⟨none, [' ']⟩,
        ⟨some .literal, ['1']⟩, ⟨none, [' ']⟩, ⟨some .punct, ['<']⟩, ⟨some .punct, ['<']⟩,
        ⟨none, [' ']⟩, ⟨some .literal, ['2']⟩, ⟨some .punct, [']']⟩] := by
    refine segments_cons _ 0 rfl (segments_cons _ 1 rfl (segments_cons _ 0 rfl ?_))
    refine segments_cons _ 0 rfl (segments_cons _ 0 rfl (segments_cons _ 0 rfl ?_))
    refine segments_cons _ 0 rfl (segments_cons _ 0 rfl (segments_cons _ 0 rfl ?_))
    exact segments_cons _ 0 rfl (segments_cons _ 0 rfl segments_nil)
  have hall := sourceTokens_of_segments hsegments
  have hlength : IsValue [⟨.literal, "1"⟩, punct "<", punct "<", ⟨.literal, "2"⟩] :=
    ⟨.plain rfl rfl (.plain rfl rfl (.plain rfl rfl (.plain rfl rfl .nil))), by simp⟩
  obtain ⟨type, hread, -⟩ := readType_byteArray hall hlength rfl
  obtain ⟨run, hrun, hkeeps⟩ := keepsOperator_iff hall List.suffix_rfl hread
  rw [List.append_nil] at hrun
  subst hrun
  have hoperator : "<" ++ "<" ∈ compoundOperators := by decide
  have htext := hkeeps [⟨punct "[", ⟨1, 1⟩, 0, 1⟩, ⟨ident "u8", ⟨1, 2⟩, 1, 3⟩,
    ⟨punct ";", ⟨1, 4⟩, 3, 4⟩, ⟨⟨.literal, "1"⟩, ⟨1, 6⟩, 5, 6⟩] ⟨punct "<", ⟨1, 8⟩, 7, 8⟩
    ⟨punct "<", ⟨1, 9⟩, 8, 9⟩ [⟨⟨.literal, "2"⟩, ⟨1, 11⟩, 10, 11⟩, ⟨punct "]", ⟨1, 12⟩, 11, 12⟩]
    rfl rfl rfl rfl hoperator
  exact ⟨_, type, _, _, _, _, hall, List.suffix_rfl, hread, rfl, rfl, rfl, rfl, hoperator,
    htext.mpr (by decide)⟩

/-- A comparison in the length of an array is torn apart: `==` is written as two signs with a space
between them. -/
theorem keepsOperator_fails_equality :
    ∃ all type before left right after, sourceTokens "[u8; (1 == 1) as usize]" = .ok all ∧
      readType all = .ok (type, []) ∧ type.text = "[u8; (1 = = 1) as usize]" ∧
      all = before ++ left :: right :: after ∧ left.kind = .punct ∧ right.kind = .punct ∧
      left.stop = right.start ∧ left.text ++ right.text = "==" ∧
      type.text ≠ spelling (lexemes (before ++ [left])) ++ spelling (lexemes (right :: after)) := by
  have hsegments : segments "[u8; (1 == 1) as usize]".toList = .ok
      [⟨some .punct, ['[']⟩, ⟨some .ident, "u8".toList⟩, ⟨some .punct, [';']⟩, ⟨none, [' ']⟩,
        ⟨some .punct, ['(']⟩, ⟨some .literal, ['1']⟩, ⟨none, [' ']⟩, ⟨some .punct, ['=']⟩,
        ⟨some .punct, ['=']⟩, ⟨none, [' ']⟩, ⟨some .literal, ['1']⟩, ⟨some .punct, [')']⟩,
        ⟨none, [' ']⟩, ⟨some .ident, "as".toList⟩, ⟨none, [' ']⟩, ⟨some .ident, "usize".toList⟩,
        ⟨some .punct, [']']⟩] := by
    refine segments_cons _ 0 rfl (segments_cons _ 1 rfl (segments_cons _ 0 rfl ?_))
    refine segments_cons _ 0 rfl (segments_cons _ 0 rfl (segments_cons _ 0 rfl ?_))
    refine segments_cons _ 0 rfl (segments_cons _ 0 rfl (segments_cons _ 0 rfl ?_))
    refine segments_cons _ 0 rfl (segments_cons _ 0 rfl (segments_cons _ 0 rfl ?_))
    refine segments_cons _ 0 rfl (segments_cons _ 1 rfl (segments_cons _ 0 rfl ?_))
    exact segments_cons _ 4 rfl (segments_cons _ 0 rfl segments_nil)
  have hall := sourceTokens_of_segments hsegments
  have hlength : IsValue [punct "(", ⟨.literal, "1"⟩, punct "=", punct "=", ⟨.literal, "1"⟩,
      punct ")", ident "as", ident "usize"] := by
    have hinside : Balanced [⟨.literal, "1"⟩, punct "=", punct "=", ⟨.literal, "1"⟩] :=
      .plain rfl rfl (.plain rfl rfl (.plain rfl rfl (.plain rfl rfl .nil)))
    exact ⟨.group .round hinside (.plain rfl rfl (.plain rfl rfl .nil)), by simp⟩
  obtain ⟨type, hread, htext⟩ := readType_byteArray hall hlength rfl
  refine ⟨_, type, [⟨punct "[", ⟨1, 1⟩, 0, 1⟩, ⟨ident "u8", ⟨1, 2⟩, 1, 3⟩,
    ⟨punct ";", ⟨1, 4⟩, 3, 4⟩, ⟨punct "(", ⟨1, 6⟩, 5, 6⟩, ⟨⟨.literal, "1"⟩, ⟨1, 7⟩, 6, 7⟩],
    ⟨punct "=", ⟨1, 9⟩, 8, 9⟩, ⟨punct "=", ⟨1, 10⟩, 9, 10⟩, _, hall, hread, htext, rfl, rfl, rfl,
    rfl, rfl, ?_⟩
  rw [htext]
  decide

end Microtypes
