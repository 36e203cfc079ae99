import Microtypes.Proofs.Grammar.Nesting
import Microtypes.Proofs.Token.Legibility

/-!
# Spellings inside of other text

The spelling of a list of tokens need not be read back as the same list: marks may run together in
it. But unless there is a line doc comment in it, it is always read, and as tokens that open and
close the same brackets (`embeds_spelling`). What stands behind it is read by itself.
-/

namespace Microtypes

open Lexeme (punct ident)

variable {t left right : Lexeme} {ts us rest : List Lexeme} {text after more : List Char}

/-! ## Texts that are read by themselves -/

/-- Whether a text is read as the given tokens, and what is behind it by itself. -/
def LexedBefore (text : List Char) (ts : List Lexeme) (after : List Char) : Prop :=
  lexed (text ++ after) = (lexed after).map (ts ++ ·)

theorem lexedBefore_nil (after : List Char) : LexedBefore [] [] after := by
  rw [LexedBefore, List.nil_append]
  cases lexed after <;> rfl

theorem LexedBefore.append {text' : List Char} (h : LexedBefore text ts (text' ++ after))
    (h' : LexedBefore text' us after) : LexedBefore (text ++ text') (ts ++ us) after := by
  rw [LexedBefore, List.append_assoc, h, h']
  cases lexed after with
  | error fault => rfl
  | ok later => exact congrArg Except.ok (List.append_assoc ts us later).symm

theorem LexedBefore.space (h : LexedBefore text ts after) : LexedBefore (' ' :: text) ts after := by
  rw [LexedBefore, List.cons_append, lexed_space]
  exact h

theorem lexedBefore_piece {c : Char} {kind : TokenKind}
    (h : readPiece c (more ++ after) = .ok ⟨some kind, more.length⟩) :
    LexedBefore (c :: more) [⟨kind, String.ofList (c :: more)⟩] after := by
  rw [LexedBefore, List.cons_append, lexed_cons h, List.drop_left, List.take_left]
  rfl

/-- A token that is set apart is read by itself. -/
theorem lexedBefore_token (h : t.Shaped) (hafter : SetApart t.kind t.text.toList after) :
    LexedBefore t.text.toList [t] after :=
  lexed_append h hafter

/-- A text that is read as it stands, at the end of a source. -/
theorem LexedBefore.lexed (h : LexedBefore text ts []) : lexed text = .ok ts := by
  rw [LexedBefore, List.append_nil, lexed_nil] at h
  rw [h]
  exact congrArg Except.ok (List.append_nil ts)

/-! ## Tokens in front of other text -/

/-- Whether the text begins with a mark that may be put behind a type. A colon has a space behind
it. -/
def parted : List Char → Bool
  | [] => true
  | ':' :: rest => rest.head? == some ' '
  | c :: _ => [' ', ',', ';', '>', ')', '('].contains c

/-- The marks that may be put behind a type. -/
def partingMarks : List Char := [' ', ',', ';', '>', ')', '(', ':']

/-- Whether a token stays what it is in front of such a mark. -/
structure Lexeme.Final (t : Lexeme) : Prop where
  noDoc : t.kind ≠ .doc
  noMark : t ∉ [punct ":", punct "::", punct "-", punct "="]

/-- Whether a token is a line doc comment. -/
def Lexeme.isLineDoc (t : Lexeme) : Bool :=
  t.kind == .doc && ['/', '/'].isPrefixOf t.text.toList

theorem head_of_parted {d : Char} (h : parted after = true) (hd : after.head? = some d) :
    d ∈ partingMarks := by
  cases after with
  | nil => cases hd
  | cons c after =>
    cases hd
    unfold parted at h
    split at h
    · cases ‹_ :: _ = []›
    · next heq =>
      cases heq
      decide
    · next heq =>
      cases heq
      have hmem := List.contains_iff_mem.mp h
      exact List.mem_append_left [':'] hmem

theorem Lexeme.Final.setApart (h : t.Final) (hafter : parted after = true) :
    SetApart t.kind t.text.toList after := by
  have hseparated : ∀ d ∈ after.head?, d ∈ separators := by
    intro d hd
    have hall : ∀ d ∈ partingMarks, d ∈ separators := forall_mem_of_all (by decide)
    exact hall d (head_of_parted hafter hd)
  cases hk : t.kind with
  | ident => exact hseparated
  | lifetime => exact hseparated
  | literal => exact hseparated
  | doc => exact absurd hk h.noDoc
  | punct =>
    intro c d htext hd
    have hmem := head_of_parted hafter hd
    constructor
    · intro hpair
      have hmarks : ∀ p ∈ pairedPuncts, punct (String.ofList [p.1]) ∈
          [punct ":", punct "::", punct "-", punct "="] := by decide
      apply h.noMark
      have ht : t = punct (String.ofList [c]) := by
        rw [← htext, String.ofList_toList, punct, ← hk]
      rw [ht]
      exact hmarks (c, d) hpair
    · have hall : ∀ d ∈ partingMarks, d ≠ '/' ∧ d ≠ '*' := forall_mem_of_all (by decide)
      exact fun _ => hall d hmem

/-! ## Spellings in front of other text -/

/-- More text does not matter to a token that already has text behind it. -/
theorem SetApart.append_right {kind : TokenKind} (h : SetApart kind text after) (hne : after ≠ [])
    (more : List Char) : SetApart kind text (after ++ more) := by
  have hhead : (after ++ more).head? = after.head? := by
    obtain ⟨c, after, rfl⟩ := List.exists_cons_of_ne_nil hne
    rfl
  cases kind with
  | punct => intro c d htext hd; exact h c d htext (hhead ▸ hd)
  | doc => intro hline; exact absurd (h hline) hne
  | ident => intro d hd; exact h d (hhead ▸ hd)
  | lifetime => intro d hd; exact h d (hhead ▸ hd)
  | literal => intro d hd; exact h d (hhead ▸ hd)

theorem spellingAfter_ne_nil (hright : right.Shaped) (left : Lexeme) (rest : List Lexeme) :
    spellingAfter left right rest ≠ [] := by
  obtain ⟨e, others, -, -, ⟨-, h⟩ | ⟨-, h⟩⟩ := spellingAfter_cases hright left rest
  · rw [h]
    exact List.cons_ne_nil _ _
  · rw [h]
    exact List.cons_ne_nil _ _

/-- Whether a text in front of another one is read as tokens that open and close the same brackets
as the given ones, and the other text by itself. -/
def Embeds (text : List Char) (ts : List Lexeme) (after : List Char) : Prop :=
  ∃ us, (∀ outer, nest outer us = nest outer ts) ∧ LexedBefore text us after

theorem LexedBefore.embeds (h : LexedBefore text ts after) : Embeds text ts after :=
  ⟨ts, fun _ => rfl, h⟩

theorem nest_cons (outer : List Delimiter) (t : Lexeme) (ts : List Lexeme) :
    nest outer (t :: ts) = (nest outer [t]).bind (nest · ts) := by
  rw [← nest_append, List.singleton_append]

/-- A token in front of what is embedded. -/
theorem Embeds.cons (h : Embeds more ts after) (ht : LexedBefore text [t] (more ++ after)) :
    Embeds (text ++ more) (t :: ts) after := by
  obtain ⟨us, hnest, hlexed⟩ := h
  refine ⟨t :: us, fun outer => ?_, ht.append hlexed⟩
  rw [nest_cons, nest_cons outer t ts]
  cases nest outer [t] with
  | none => rfl
  | some outer => exact hnest outer

/-- Tokens that are no brackets may be read instead of others. -/
theorem Embeds.congr (h : Embeds text ts after) (hts : ∀ outer, nest outer ts = nest outer us) :
    Embeds text us after := by
  obtain ⟨vs, hnest, hlexed⟩ := h
  exact ⟨vs, fun outer => (hnest outer).trans (hts outer), hlexed⟩

theorem nest_punct {mark : String}
    (h : mark ∈ [":", "::", "-", ">", "=", "->", "=>"]) (outer : List Delimiter)
    (ts : List Lexeme) : nest outer (punct mark :: ts) = nest outer ts := by
  have hall : ∀ mark ∈ [":", "::", "-", ">", "=", "->", "=>"],
      (punct mark).opens? = none ∧ (punct mark).closes? = none := by decide +kernel
  exact nest_plain (hall mark h).1 (hall mark h).2

/-- An operator of two characters is read whatever follows. -/
theorem lexedBefore_paired {c d : Char} (h : (c, d) ∈ pairedPuncts) (after : List Char) :
    LexedBefore [c, d] [punct (String.ofList [c, d])] after := by
  have hshaped : (punct (String.ofList [c, d])).Shaped := by
    rw [Lexeme.Shaped, punct, String.toList_ofList]
    exact .paired h
  have hread := @lexedBefore_token _ after hshaped (by
    intro e f htext
    rw [punct, String.toList_ofList] at htext
    cases htext)
  rwa [punct, String.toList_ofList] at hread

/-- The two ways of running together without a line doc comment. -/
theorem merges_cases (h : merges left right = true) (hdoc : left.isLineDoc = false) :
    (left = punct ":" ∧ right = punct "::") ∨ (left = punct "-" ∧ right = punct ">") ∨
      (left = punct "=" ∧ right = punct ">") := by
  obtain ⟨kind, s⟩ := left
  obtain ⟨kind', s'⟩ := right
  rw [merges, ← Lexeme.isLineDoc, hdoc, Bool.false_or, Bool.and_eq_true, Bool.and_eq_true,
    beq_iff_eq, beq_iff_eq, List.contains_iff_mem] at h
  obtain ⟨⟨rfl, rfl⟩, hfuse⟩ := h
  simpa [fusingMarks, punct] using hfuse

/-- What begins with a colon is a colon or a path separator. -/
theorem eq_of_head_colon (h : t.Shaped) (hhead : t.text.toList.head? = some ':') :
    t = punct ":" ∨ t = punct "::" := by
  obtain ⟨c, others, htext, -⟩ := exists_cons_of_shaped h
  obtain rfl : c = ':' := by
    rw [htext] at hhead
    exact Option.some.inj hhead
  have hread : readPiece ':' (others ++ []) = .ok ⟨some t.kind, others.length⟩ := by
    rw [Lexeme.Shaped, htext] at h
    exact readPiece_of_shaped h (setApart_nil _ _)
  rw [List.append_nil] at hread
  have ht {u : Lexeme} (hk : u.kind = t.kind) (hu : u.text.toList = ':' :: others) : t = u := by
    obtain ⟨kind, s⟩ := t
    obtain ⟨kind', s'⟩ := u
    obtain rfl : kind' = kind := hk
    obtain rfl : s = s' := String.toList_inj.mp (htext.trans hu.symm)
    rfl
  by_cases hsecond : others.head? = some ':'
  · obtain ⟨more, rfl⟩ : ∃ more, others = ':' :: more := by
      cases others with
      | nil => cases hsecond
      | cons d more =>
        cases hsecond
        exact ⟨more, rfl⟩
    rw [readPiece_paired (by decide)] at hread
    obtain ⟨hk, hlength⟩ : TokenKind.punct = t.kind ∧ 1 = more.length + 1 := by
      simpa using hread
    obtain rfl : more = [] := List.eq_nil_of_length_eq_zero (by omega)
    exact Or.inr (ht hk rfl)
  · have hsingle : readPiece ':' others = .ok ⟨some .punct, 0⟩ := by
      refine readPiece_single (by decide) fun d hd => ⟨?_, fun hc => absurd hc (by decide)⟩
      intro hpair
      have hcolon : ∀ p ∈ pairedPuncts, p.1 = ':' → p.2 = ':' := by decide
      obtain rfl : d = ':' := hcolon (':', d) hpair rfl
      exact hsecond hd
    rw [hsingle] at hread
    obtain ⟨hk, hlength⟩ : TokenKind.punct = t.kind ∧ 0 = others.length := by
      simpa using hread
    obtain rfl : others = [] := List.eq_nil_of_length_eq_zero hlength.symm
    exact Or.inl (ht hk rfl)

/-- Whether the last of some tokens stays what it is in front of a mark. -/
def EndsFinal (ts : List Lexeme) : Prop :=
  ∀ t ∈ ts.getLast?, t.Final

theorem EndsFinal.suffix (h : EndsFinal ts) (hus : us <:+ ts) : EndsFinal us := by
  obtain ⟨before, rfl⟩ := hus
  intro t ht
  cases us with
  | nil => cases ht
  | cons u us =>
    apply h t
    rwa [List.getLast?_append_of_ne_nil _ (List.cons_ne_nil u us)]

/-- What is embedded behind a token may have a space in front of it. -/
theorem Embeds.spellingAfter (h : Embeds (spelling (right :: rest)).toList ts after)
    (left : Lexeme) : Embeds (spellingAfter left right rest) ts after := by
  obtain ⟨us, hnest, hlexed⟩ := h
  refine ⟨us, hnest, ?_⟩
  rw [Microtypes.spellingAfter]
  split
  · exact hlexed.space
  · exact hlexed

theorem spellingAfter_of_touch (h : spaced left right = false) (rest : List Lexeme) :
    Microtypes.spellingAfter left right rest = (spelling (right :: rest)).toList := by
  rw [Microtypes.spellingAfter, h]
  rfl

theorem spaced_separator (right : Lexeme) : spaced (punct "::") right = false := by
  simp [spaced, punct, unspacedAfter]

/-- A colon in front of what does not begin with one. -/
theorem Embeds.colon (h : Embeds text ts after) (hhead : (text ++ after).head? ≠ some ':') :
    Embeds (':' :: text) ts after := by
  have hcolon : LexedBefore [':'] [punct ":"] (text ++ after) := by
    have hapart : SetApart .punct [':'] (text ++ after) := by
      intro c d hc hd
      cases hc
      refine ⟨fun hpair => ?_, fun hc => absurd hc (by decide)⟩
      have hall : ∀ p ∈ pairedPuncts, p.1 = ':' → p.2 = ':' := by decide
      obtain rfl : d = ':' := hall (':', d) hpair rfl
      exact hhead hd
    exact lexedBefore_token (t := punct ":") (.single (by decide)) hapart
  exact (h.cons hcolon).congr fun outer => nest_punct (by decide) outer ts

/-- An operator of two characters in front of what is embedded. -/
theorem Embeds.paired {c d : Char} (h : Embeds text ts after) (hpair : (c, d) ∈ pairedPuncts) :
    Embeds (c :: d :: text) (punct (String.ofList [c, d]) :: ts) after :=
  h.cons (lexedBefore_paired hpair (text ++ after))

/-- A mark that completes an operator, in front of what is embedded. -/
theorem Embeds.arrow {c : Char} {first : String} (h : Embeds text ts after)
    (hpair : (c, '>') ∈ pairedPuncts) (hfirst : first ∈ ["-", "="]) :
    Embeds (c :: '>' :: text) (punct first :: punct ">" :: ts) after := by
  have harrow : ∀ p ∈ pairedPuncts, String.ofList [p.1, p.2] ∈
      [":", "::", "-", ">", "=", "->", "=>"] := by decide +kernel
  have hall : ∀ mark ∈ ["-", "="], mark ∈ [":", "::", "-", ">", "=", "->", "=>"] := by decide
  refine (h.paired hpair).congr fun outer => ?_
  rw [nest_punct (harrow (c, '>') hpair), nest_punct (hall first hfirst), nest_punct (by decide)]

/-- What the spelling puts behind a mark that is not touched by what follows. -/
theorem embeds_behind (ts : List Lexeme) (left : Lexeme)
    (h : ts ≠ [] → Embeds (spelling ts).toList ts after) :
    ∃ text, (spelling (left :: ts)).toList = left.text.toList ++ text ∧ Embeds text ts after := by
  cases ts with
  | nil => exact ⟨[], (List.append_nil _).symm, (lexedBefore_nil after).embeds⟩
  | cons right rest =>
    exact ⟨_, spelling_cons_cons left right rest, (h (List.cons_ne_nil _ _)).spellingAfter left⟩

theorem head_of_shaped_append (h : t.Shaped) (after : List Char) :
    (t.text.toList ++ after).head? = t.text.toList.head? := by
  obtain ⟨c, others, htext, -⟩ := exists_cons_of_shaped h
  rw [htext]
  rfl

/-- One more token in front of a spelling. Where a colon runs into a path separator, the second half
of that mark is a colon in front of the rest. -/
theorem embeds_spelling_cons (hleft : left.Shaped) (hright : right.Shaped)
    (hdoc : left.isLineDoc = false) (hfinal : EndsFinal (left :: right :: rest))
    (hbehind : Embeds (spelling (right :: rest)).toList (right :: rest) after)
    (hrest : rest ≠ [] → Embeds (spelling rest).toList rest after ∧
      Embeds (':' :: (spelling rest).toList) rest after) :
    Embeds (spelling (left :: right :: rest)).toList (left :: right :: rest) after := by
  have hlater := embeds_behind rest (punct ">") fun hne => (hrest hne).1
  cases hmerge : merges left right with
  | false =>
    rw [spelling_cons_cons]
    have hapart := (setApart_of_merges hright hmerge).append_right
      (spellingAfter_ne_nil hright left rest) after
    exact (hbehind.spellingAfter left).cons (lexedBefore_token hleft hapart)
  | true =>
    rcases merges_cases hmerge hdoc with ⟨rfl, rfl⟩ | ⟨rfl, rfl⟩ | ⟨rfl, rfl⟩
    · cases rest with
      | nil => exact absurd (by decide) (hfinal (punct "::") rfl).noMark
      | cons next rest =>
        have hcolon := (hrest (List.cons_ne_nil next rest)).2
        rw [spelling_cons_cons, spellingAfter_of_touch (by decide), spelling_cons_cons,
          spellingAfter_of_touch (spaced_separator next)]
        refine (hcolon.paired (by decide)).congr fun outer => ?_
        rw [nest_punct (by decide), nest_punct (by decide), nest_punct (by decide)]
    · obtain ⟨text, htext, hembeds⟩ := hlater
      rw [spelling_cons_cons, spellingAfter_of_touch (by decide), htext]
      exact hembeds.arrow (by decide) (by decide)
    · obtain ⟨text, htext, hembeds⟩ := hlater
      rw [spelling_cons_cons, spellingAfter_of_touch (by decide), htext]
      exact hembeds.arrow (by decide) (by decide)

/-- A colon in front of a spelling of two tokens or more. It runs into the first one where that one
begins with a colon too. -/
theorem embeds_colon_spelling (hleft : left.Shaped)
    (hfirst : Embeds (spelling (left :: right :: rest)).toList (left :: right :: rest) after)
    (hbehind : Embeds (spelling (right :: rest)).toList (right :: rest) after)
    (hcolon : Embeds (':' :: (spelling (right :: rest)).toList) (right :: rest) after) :
    Embeds (':' :: (spelling (left :: right :: rest)).toList) (left :: right :: rest) after := by
  by_cases hhead : left.text.toList.head? = some ':'
  · rw [spelling_cons_cons]
    rcases eq_of_head_colon hleft hhead with rfl | rfl
    · refine ((hbehind.spellingAfter _).paired (by decide)).congr fun outer => ?_
      rw [nest_punct (by decide), nest_punct (by decide)]
    · rw [spellingAfter_of_touch (spaced_separator right)]
      exact hcolon.paired (by decide)
  · refine hfirst.colon ?_
    rw [spelling_cons_cons, List.append_assoc, head_of_shaped_append hleft]
    exact hhead

/-- A spelling without line doc comments is read as tokens with the same brackets, also behind a
colon that runs into it. Each needs the other for a shorter spelling, so the two go together. -/
theorem embeds_spelling_both (hshaped : ∀ t ∈ ts, t.Shaped)
    (hdoc : ∀ t ∈ ts, t.isLineDoc = false) (hfinal : EndsFinal ts)
    (hafter : parted after = true) (hne : ts ≠ []) :
    Embeds (spelling ts).toList ts after ∧ Embeds (':' :: (spelling ts).toList) ts after := by
  induction hn : ts.length using Nat.strong_induction_on generalizing ts with
  | _ n ih =>
    obtain ⟨left, ts, rfl⟩ := List.exists_cons_of_ne_nil hne
    have hleft := hshaped left List.mem_cons_self
    have ih_tail {us : List Lexeme} (hus : us <:+ ts) (hne : us ≠ []) :
        Embeds (spelling us).toList us after ∧ Embeds (':' :: (spelling us).toList) us after := by
      have hlength := hus.length_le
      rw [List.length_cons] at hn
      exact ih us.length (by omega) (fun t ht => hshaped t (.tail _ (hus.subset ht)))
        (fun t ht => hdoc t (.tail _ (hus.subset ht)))
        (hfinal.suffix (hus.trans (List.suffix_cons left ts))) hne rfl
    cases ts with
    | nil =>
      have hend := hfinal left rfl
      have hfirst : Embeds left.text.toList [left] after :=
        (lexedBefore_token hleft (hend.setApart hafter)).embeds
      refine ⟨hfirst, hfirst.colon fun hhead => ?_⟩
      rw [head_of_shaped_append hleft] at hhead
      rcases eq_of_head_colon hleft hhead with rfl | rfl
      · exact hend.noMark (by decide)
      · exact hend.noMark (by decide)
    | cons right rest =>
      obtain ⟨hbehind, hcolon⟩ := ih_tail List.suffix_rfl (List.cons_ne_nil right rest)
      have hright := hshaped right (by simp)
      have hfirst := embeds_spelling_cons hleft hright (hdoc left List.mem_cons_self) hfinal hbehind
        fun hrest => ih_tail (List.suffix_cons right rest) hrest
      exact ⟨hfirst, embeds_colon_spelling hleft hfirst hbehind hcolon⟩

/-- A spelling without line doc comments is read as tokens with the same brackets, in front of a
mark that may be put behind it. -/
theorem embeds_spelling (hshaped : ∀ t ∈ ts, t.Shaped) (hdoc : ∀ t ∈ ts, t.isLineDoc = false)
    (hfinal : EndsFinal ts) (hafter : parted after = true) :
    Embeds (spelling ts).toList ts after := by
  by_cases hne : ts = []
  · subst hne
    exact (lexedBefore_nil after).embeds
  · exact (embeds_spelling_both hshaped hdoc hfinal hafter hne).1

end Microtypes
