import Mathlib.Data.List.Infix
import Microtypes.Proofs.Control.Secret
import Microtypes.Proofs.Grammar.Group

/-!
# Splitting arguments

Arguments are cut at the commas that lie in no bracket, angle brackets included. Nothing else is
lost: with commas between them the arguments are the tokens again, up to a comma at the end. Where
brackets are closed as often as they are opened, they are so in each argument
(`rejoins_argumentLists`).
-/

namespace Microtypes

open Lexeme (punct ident)

variable {depth : Int} {t : Token} {l : Lexeme} {ts : List Lexeme} {tokens front rest : List Token}

/-! ## Depth of nesting -/

/-- Whether a lexeme is one of these punctuation marks. -/
def Lexeme.isMark (marks : List String) (t : Lexeme) : Bool :=
  marks.any (t.isPunct ·)

/-- The marks that go one level deeper. -/
def openingMarks : List String := ["(", "[", "\x7b", "<"]

/-- The marks that come back one level. -/
def closingMarks : List String := [")", "]", "\x7d", ">"]

/-- How many more levels a run goes down than it comes back. -/
def levels (ts : List Lexeme) : Int :=
  ts.countP (·.isMark openingMarks) - ts.countP (·.isMark closingMarks)

theorem nesting_eq (t : Lexeme) :
    t.nesting = if t.isMark openingMarks then 1 else if t.isMark closingMarks then -1 else 0 := by
  have hopens : (t.opens?.isSome || t.isPunct "<") = t.isMark openingMarks := by
    simp [Lexeme.opens?, List.isSome_find?, Delimiter.all, Delimiter.opener, Lexeme.isMark,
      openingMarks, Bool.or_assoc]
  have hcloses : (t.closes?.isSome || t.isPunct ">") = t.isMark closingMarks := by
    simp [Lexeme.closes?, List.isSome_find?, Delimiter.all, Delimiter.closer, Lexeme.isMark,
      closingMarks, Bool.or_assoc]
  rw [Lexeme.nesting, hopens, hcloses]

/-- No mark goes both ways. -/
theorem isMark_closing_of_opening (h : l.isMark openingMarks = true) :
    l.isMark closingMarks = false := by
  have hdisjoint : ∀ mark ∈ openingMarks, (punct mark).isMark closingMarks = false := by decide
  obtain ⟨mark, hmark, hl⟩ := List.any_eq_true.mp h
  rw [eq_punct_of_isPunct hl]
  exact hdisjoint mark hmark

@[simp] theorem levels_nil : levels [] = 0 := rfl

theorem levels_cons (l : Lexeme) (ts : List Lexeme) : levels (l :: ts) = l.nesting + levels ts := by
  rw [levels, levels, List.countP_cons, List.countP_cons, nesting_eq]
  by_cases hopens : l.isMark openingMarks = true
  · simp only [hopens, isMark_closing_of_opening hopens, if_true, Bool.false_eq_true, if_false]
    omega
  · by_cases hcloses : l.isMark closingMarks = true
    · simp only [hopens, hcloses, if_true, if_false, Bool.false_eq_true]
      omega
    · simp only [hopens, hcloses, if_false, Bool.false_eq_true]
      omega

theorem nesting_comma (h : l.isPunct "," = true) : l.nesting = 0 := by
  rw [eq_punct_of_isPunct h]
  rfl

/-- Whether a run that begins at a depth of nesting never comes back above the outermost level, and
ends there. -/
structure Levelled (depth : Int) (ts : List Lexeme) : Prop where
  nonneg : ∀ front, front <+: ts → 0 ≤ depth + levels front
  zero : depth + levels ts = 0

/-- Whether no comma lies at the outermost level of a run that begins at a depth of nesting. -/
def Uncut (depth : Int) (ts : List Lexeme) : Prop :=
  ∀ front comma back, ts = front ++ comma :: back → comma.isPunct "," = true →
    depth + levels front ≠ 0

/-- Whether a run ends in a comma at the outermost level. -/
def EndsInComma (ts : List Lexeme) : Prop :=
  ∃ front, ts = front ++ [punct ","] ∧ levels front = 0

theorem levelled_nil : Levelled 0 [] where
  nonneg front h := by
    rw [List.prefix_nil.mp h]
    exact Int.le_refl 0
  zero := rfl

theorem levelled_cons_iff :
    Levelled depth (l :: ts) ↔ 0 ≤ depth ∧ Levelled (depth + l.nesting) ts := by
  constructor
  · intro h
    refine ⟨?_, fun front hfront => ?_, ?_⟩
    · have hnil := h.nonneg [] List.nil_prefix
      rwa [levels_nil, Int.add_zero] at hnil
    · have hcons := h.nonneg (l :: front) (List.cons_prefix_cons.mpr ⟨rfl, hfront⟩)
      rwa [levels_cons, ← Int.add_assoc] at hcons
    · have hzero := h.zero
      rwa [levels_cons, ← Int.add_assoc] at hzero
  · rintro ⟨hdepth, h⟩
    refine ⟨fun front hfront => ?_, ?_⟩
    · rcases List.prefix_cons_iff.mp hfront with rfl | ⟨more, rfl, hmore⟩
      · rwa [levels_nil, Int.add_zero]
      · rw [levels_cons, ← Int.add_assoc]
        exact h.nonneg more hmore
    · rw [levels_cons, ← Int.add_assoc]
      exact h.zero

theorem uncut_nil : Uncut depth [] := by
  intro front comma back h
  simp at h

theorem Uncut.cons (hl : ¬ (l.isPunct "," = true ∧ depth = 0))
    (h : Uncut (depth + l.nesting) ts) : Uncut depth (l :: ts) := by
  intro front comma back hsplit hcomma hzero
  cases front with
  | nil =>
    cases hsplit
    rw [levels_nil, Int.add_zero] at hzero
    exact hl ⟨hcomma, hzero⟩
  | cons first front =>
    cases hsplit
    rw [levels_cons, ← Int.add_assoc] at hzero
    exact h front comma back rfl hcomma hzero

/-! ## Pieces -/

/-- The first piece begins at the depth of the tokens, and the others at the outermost level. -/
theorem exists_commaPieces (depth : Int) (tokens : List Token) :
    ∃ piece pieces, commaPieces depth tokens = piece :: pieces ∧ Uncut depth (lexemes piece) ∧
      (∀ later ∈ pieces, Uncut 0 (lexemes later)) ∧
      (Levelled depth (lexemes tokens) →
        Levelled depth (lexemes piece) ∧ ∀ later ∈ pieces, Levelled 0 (lexemes later)) := by
  induction tokens generalizing depth with
  | nil => exact ⟨[], [], rfl, uncut_nil, by simp, fun h => ⟨h, by simp⟩⟩
  | cons t rest ih =>
    by_cases hcut : t.isPunct "," = true ∧ depth = 0
    · obtain ⟨hcomma, rfl⟩ := hcut
      obtain ⟨piece, pieces, hpieces, hpiece, hlater, hlevel⟩ := ih 0
      refine ⟨[], piece :: pieces, ?_, uncut_nil, List.forall_mem_cons.mpr ⟨hpiece, hlater⟩,
        fun h => ⟨levelled_nil, List.forall_mem_cons.mpr (hlevel ?_)⟩⟩
      · rw [commaPieces_comma (eq_punct_of_isPunct hcomma), hpieces]
      · have hrest := (levelled_cons_iff.mp h).2
        rwa [nesting_comma hcomma, Int.add_zero] at hrest
    · obtain ⟨piece, pieces, hpieces, hpiece, hlater, hlevel⟩ := ih (depth + t.nesting)
      obtain ⟨piece', pieces', hpieces', hkeep⟩ := commaPieces_keep hcut rest
      cases hpieces.symm.trans hpieces'
      refine ⟨t :: piece, pieces, hkeep, hpiece.cons hcut, hlater, fun h => ?_⟩
      obtain ⟨hdepth, hrest⟩ := levelled_cons_iff.mp h
      exact ⟨levelled_cons_iff.mpr ⟨hdepth, (hlevel hrest).1⟩, (hlevel hrest).2⟩

/-! ## The last token -/

/-- A comma at the outermost level opens a piece behind it. -/
theorem commaPieces_concat_cut (hcomma : t.isPunct "," = true)
    (hdepth : depth + levels (lexemes front) = 0) :
    commaPieces depth (front ++ [t]) = commaPieces depth front ++ [[]] := by
  induction front generalizing depth with
  | nil =>
    obtain rfl : depth = 0 := by rwa [lexemes_nil, levels_nil, Int.add_zero] at hdepth
    exact commaPieces_comma (eq_punct_of_isPunct hcomma) []
  | cons first front ih =>
    rw [lexemes_cons, levels_cons, ← Int.add_assoc] at hdepth
    by_cases hcut : first.isPunct "," = true ∧ depth = 0
    · obtain ⟨hfirst, rfl⟩ := hcut
      have hlex := eq_punct_of_isPunct hfirst
      rw [nesting_comma hfirst, Int.add_zero] at hdepth
      rw [List.cons_append, commaPieces_comma hlex, commaPieces_comma hlex, ih hdepth]
      rfl
    · obtain ⟨piece, pieces, hpieces, hkeep⟩ := commaPieces_keep hcut front
      obtain ⟨piece', pieces', hpieces', hkeep'⟩ := commaPieces_keep hcut (front ++ [t])
      rw [ih hdepth, hpieces] at hpieces'
      cases hpieces'
      rw [List.cons_append, hkeep', hkeep]
      rfl

/-- Any other token at the end is the last one of the last piece. -/
theorem commaPieces_concat_keep
    (h : ¬ (t.isPunct "," = true ∧ depth + levels (lexemes front) = 0)) :
    ∃ pieces last, commaPieces depth front = pieces ++ [last] ∧
      commaPieces depth (front ++ [t]) = pieces ++ [last ++ [t]] := by
  induction front generalizing depth with
  | nil =>
    rw [lexemes_nil, levels_nil, Int.add_zero] at h
    obtain ⟨piece, pieces, hpieces, hkeep⟩ := commaPieces_keep h []
    cases hpieces
    exact ⟨[], [], rfl, hkeep⟩
  | cons first front ih =>
    rw [lexemes_cons, levels_cons, ← Int.add_assoc] at h
    by_cases hcut : first.isPunct "," = true ∧ depth = 0
    · obtain ⟨hfirst, rfl⟩ := hcut
      have hlex := eq_punct_of_isPunct hfirst
      rw [nesting_comma hfirst, Int.add_zero] at h
      obtain ⟨pieces, last, hfront, hall⟩ := ih h
      refine ⟨[] :: pieces, last, ?_, ?_⟩
      · rw [commaPieces_comma hlex, hfront]
        rfl
      · rw [List.cons_append, commaPieces_comma hlex, hall]
        rfl
    · obtain ⟨pieces, last, hfront, hall⟩ := ih h
      obtain ⟨piece, others, hpieces, hkeep⟩ := commaPieces_keep hcut front
      obtain ⟨piece', others', hpieces', hkeep'⟩ := commaPieces_keep hcut (front ++ [t])
      rw [List.cons_append, hkeep, hkeep']
      rw [hfront] at hpieces
      rw [hall] at hpieces'
      cases pieces with
      | nil =>
        cases hpieces
        cases hpieces'
        exact ⟨[], first :: last, rfl, rfl⟩
      | cons head pieces =>
        cases hpieces
        cases hpieces'
        exact ⟨(first :: piece) :: pieces, last, rfl, rfl⟩

/-! ## Joining pieces -/

/-- Pieces with commas between them. -/
def rejoined (pieces : List (List Token)) : List Lexeme :=
  [punct ","].intercalate (pieces.map lexemes)

theorem rejoined_cons (piece : List Token) {pieces : List (List Token)} (h : pieces ≠ []) :
    rejoined (piece :: pieces) = lexemes piece ++ punct "," :: rejoined pieces := by
  cases pieces with
  | nil => exact absurd rfl h
  | cons next pieces =>
    rw [rejoined, List.map_cons, List.map_cons, List.intercalate_cons_cons]
    simp [rejoined]

/-- A token in front of the first piece stands in front of all. -/
theorem rejoined_push (t : Token) (piece : List Token) (pieces : List (List Token)) :
    rejoined ((t :: piece) :: pieces) = t.toLexeme :: rejoined (piece :: pieces) := by
  cases pieces with
  | nil => simp [rejoined]
  | cons next pieces =>
    rw [rejoined_cons _ (List.cons_ne_nil _ _), rejoined_cons _ (List.cons_ne_nil _ _)]
    rfl

theorem rejoined_commaPieces (depth : Int) (tokens : List Token) :
    rejoined (commaPieces depth tokens) = lexemes tokens := by
  induction tokens generalizing depth with
  | nil => rfl
  | cons t rest ih =>
    by_cases hcut : t.isPunct "," = true ∧ depth = 0
    · obtain ⟨hcomma, rfl⟩ := hcut
      have hlex := eq_punct_of_isPunct hcomma
      rw [commaPieces_comma hlex, rejoined_cons _ (commaPieces_ne_nil 0 rest), ih, ← hlex]
      rfl
    · obtain ⟨piece, pieces, hpieces, hkeep⟩ := commaPieces_keep hcut rest
      rw [hkeep, rejoined_push, ← hpieces, ih]
      rfl

/-! ## Arguments -/

/-- A comma at the end adds no argument. -/
theorem argumentLists_concat_cut (hcomma : t.isPunct "," = true)
    (hdepth : levels (lexemes front) = 0) :
    argumentLists (front ++ [t]) = commaPieces 0 front := by
  have hpieces : commaPieces 0 (front ++ [t]) = commaPieces 0 front ++ [[]] :=
    commaPieces_concat_cut hcomma (by rwa [Int.zero_add])
  simp only [argumentLists, hpieces, List.getLast?_concat, if_true, List.dropLast_concat]

theorem argumentLists_concat_keep
    (h : ¬ (t.isPunct "," = true ∧ levels (lexemes front) = 0)) :
    argumentLists (front ++ [t]) = commaPieces 0 (front ++ [t]) := by
  rw [← Int.zero_add (levels (lexemes front))] at h
  obtain ⟨pieces, last, -, hpieces⟩ := commaPieces_concat_keep h
  have hne : ¬ some (last ++ [t]) = some [] := by simp
  simp only [argumentLists, hpieces, List.getLast?_concat, if_neg hne]

theorem endsInComma_concat_iff :
    EndsInComma (lexemes (front ++ [t])) ↔
      t.isPunct "," = true ∧ levels (lexemes front) = 0 := by
  have hall : lexemes (front ++ [t]) = lexemes front ++ [t.toLexeme] := List.map_append ..
  rw [hall]
  constructor
  · rintro ⟨before, hsplit, hdepth⟩
    obtain ⟨rfl, hcomma⟩ := List.append_inj' hsplit rfl
    refine ⟨?_, hdepth⟩
    rw [(List.cons.inj hcomma).1]
    rfl
  · rintro ⟨hcomma, hdepth⟩
    exact ⟨_, by rw [eq_punct_of_isPunct hcomma], hdepth⟩

theorem rejoined_argumentLists (tokens : List Token) :
    (EndsInComma (lexemes tokens) →
      rejoined (argumentLists tokens) = (lexemes tokens).dropLast) ∧
    (¬ EndsInComma (lexemes tokens) → rejoined (argumentLists tokens) = lexemes tokens) := by
  rcases List.eq_nil_or_concat tokens with rfl | ⟨front, t, rfl⟩
  · exact ⟨fun _ => rfl, fun _ => rfl⟩
  · rw [List.concat_eq_append, endsInComma_concat_iff]
    constructor
    · rintro ⟨hcomma, hdepth⟩
      rw [argumentLists_concat_cut hcomma hdepth, rejoined_commaPieces]
      simp [lexemes]
    · intro h
      rw [argumentLists_concat_keep h, rejoined_commaPieces]

theorem mem_commaPieces_of_mem {argument : List Token} (h : argument ∈ argumentLists tokens) :
    argument ∈ commaPieces 0 tokens := by
  unfold argumentLists at h
  simp only at h
  split at h
  · exact List.dropLast_subset _ h
  · exact h

/-- Arguments with commas between them are the tokens again, except for a comma at the end. No
argument has a comma at its outermost level, and where brackets match in number they do so in every
argument. -/
theorem rejoins_argumentLists (tokens : List Token) :
    (EndsInComma (lexemes tokens) →
      [punct ","].intercalate ((argumentLists tokens).map lexemes) = (lexemes tokens).dropLast) ∧
    (¬ EndsInComma (lexemes tokens) →
      [punct ","].intercalate ((argumentLists tokens).map lexemes) = lexemes tokens) ∧
    (∀ argument ∈ argumentLists tokens, Uncut 0 (lexemes argument)) ∧
    (Levelled 0 (lexemes tokens) →
      ∀ argument ∈ argumentLists tokens, Levelled 0 (lexemes argument)) := by
  refine ⟨(rejoined_argumentLists tokens).1, (rejoined_argumentLists tokens).2, ?_, ?_⟩
  · intro argument h
    obtain ⟨piece, pieces, hpieces, hpiece, hlater, -⟩ := exists_commaPieces 0 tokens
    have hall : ∀ p ∈ piece :: pieces, Uncut 0 (lexemes p) :=
      List.forall_mem_cons.mpr ⟨hpiece, hlater⟩
    exact hall argument (hpieces ▸ mem_commaPieces_of_mem h)
  · intro h argument hmem
    obtain ⟨piece, pieces, hpieces, -, -, hlevel⟩ := exists_commaPieces 0 tokens
    have hall : ∀ p ∈ piece :: pieces, Levelled 0 (lexemes p) :=
      List.forall_mem_cons.mpr (hlevel h)
    exact hall argument (hpieces ▸ mem_commaPieces_of_mem hmem)

/-- The tokens of `M<K,>,` and of `a,b`. -/
theorem rejoins_argumentLists_generic :
    ∃ tokens tokens' : List Token,
      lexemes tokens = [ident "M", punct "<", ident "K", punct ",", punct ">", punct ","] ∧
      lexemes tokens' = [ident "a", punct ",", ident "b"] ∧
      (EndsInComma (lexemes tokens) ∧ [punct ","].intercalate
        ((argumentLists tokens).map lexemes) = (lexemes tokens).dropLast) ∧
      (¬ EndsInComma (lexemes tokens') ∧
        [punct ","].intercalate ((argumentLists tokens').map lexemes) = lexemes tokens') ∧
      (Levelled 0 (lexemes tokens) ∧
        ∀ argument ∈ argumentLists tokens, Levelled 0 (lexemes argument)) := by
  have hback (ts : List Lexeme) : lexemes (ts.map (⟨·, .start, 0, 0⟩)) = ts := by
    rw [lexemes, List.map_map]
    exact List.map_id ts
  have hends : EndsInComma [ident "M", punct "<", ident "K", punct ",", punct ">", punct ","] :=
    ⟨[ident "M", punct "<", ident "K", punct ",", punct ">"], rfl, by decide⟩
  have hopen : ¬ EndsInComma [ident "a", punct ",", ident "b"] := by
    rintro ⟨front, hsplit, -⟩
    have hlast := congrArg List.getLast? hsplit
    rw [List.getLast?_concat] at hlast
    cases hlast
  have hinits : ∀ front ∈ List.inits
      [ident "M", punct "<", ident "K", punct ",", punct ">", punct ","], 0 ≤ 0 + levels front := by
    decide
  have hlevel : Levelled 0 [ident "M", punct "<", ident "K", punct ",", punct ">", punct ","] :=
    ⟨fun front hfront => hinits front ((List.mem_inits _ _).mpr hfront), by decide⟩
  refine ⟨_, _, hback _, hback _, ?_⟩
  have hgeneric := rejoins_argumentLists
    ([ident "M", punct "<", ident "K", punct ",", punct ">", punct ","].map (⟨·, .start, 0, 0⟩))
  have hplain := rejoins_argumentLists
    ([ident "a", punct ",", ident "b"].map (⟨·, .start, 0, 0⟩))
  rw [hback] at hgeneric hplain ⊢
  rw [hback]
  exact ⟨⟨hends, hgeneric.1 hends⟩, ⟨hopen, hplain.2.1 hopen⟩, hlevel, hgeneric.2.2.2 hlevel⟩

end Microtypes
