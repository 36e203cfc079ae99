import Microtypes.Proofs.Grammar.Automaton

/-!
# Optional symbols on a stack

A derivation may leave it open to which of several nested constructs a further `::` or `+` belongs;
the automaton always gives it to the innermost. So from what a stack accepts one has to conclude
that the same stack with more optional symbols in it accepts it too (`accepts_insert`). This holds
where the stack below is one that may follow a type.
-/

namespace Microtypes

open Microtypes.Symbol Move

variable {s : Symbol} {K L M parts opts : List Symbol} {t : Lexeme} {ts : List Lexeme}

/-! ## Feeding a stack in two parts -/

/-- Whether all symbols are left out before a lexeme. -/
def Vanishes (stack : List Symbol) (t : Lexeme) : Prop :=
  ∀ s ∈ stack, s.predict t = expand []

theorem mem_skippable_of_expand (h : s.predict t = expand []) : s ∈ skippable := by
  have hparts := expansion_of_predict h
  cases s with
  | goal g => cases g <;> cases hparts <;> decide
  | argumentWord text => simp [expansion?] at hparts
  | _ => cases hparts <;> decide

/-- Where a symbol is replaced with others, one of these has to be met. -/
theorem exists_not_skippable (h : s.predict t = expand parts) (hne : parts ≠ []) :
    ∃ p ∈ parts, p ∉ skippable := by
  have hparts := expansion_of_predict h
  have hmet : parts = [] ∨ ∃ p ∈ parts, p ∉ skippable := by
    cases s with
    | goal g => cases g <;> cases hparts <;> decide
    | argumentWord text =>
      cases hparts
      exact .inr ⟨goal .argumentRest, by simp, by decide⟩
    | _ => cases hparts <;> decide
  exact hmet.resolve_left hne

/-- A lexeme is dealt with by the upper part of a stack, or the upper part vanishes. -/
theorem feed_append (L M : List Symbol) (t : Lexeme) :
    feed (L ++ M) t = (feed L t).map (· ++ M) ∨ (Vanishes L t ∧ feed (L ++ M) t = feed M t) := by
  fun_induction feed L t with
  | case1 => exact .inr ⟨by rintro s ⟨⟩, rfl⟩
  | case2 s below hstop =>
    refine .inl ?_
    rw [List.cons_append, feed_of_stop hstop]
    rfl
  | case3 s below parts hshift =>
    refine .inl ?_
    rw [List.cons_append, feed_of_shift hshift]
    simp
  | case4 s below parts hexpand ih =>
    rw [List.cons_append, feed_of_expand hexpand, ← List.append_assoc]
    refine ih.imp id fun ⟨hvanishes, hfeed⟩ => ⟨?_, hfeed⟩
    have hparts : parts = [] := by
      by_contra hne
      obtain ⟨p, hp, hskip⟩ := exists_not_skippable hexpand hne
      exact hskip (mem_skippable_of_expand (hvanishes p (List.mem_append_left _ hp)))
    subst hparts
    exact List.forall_mem_cons.mpr ⟨hexpand, hvanishes⟩

theorem feed_of_vanishes (h : Vanishes L t) : feed (L ++ M) t = feed M t := by
  induction L with
  | nil => rfl
  | cons s L ih =>
    rw [Vanishes, List.forall_mem_cons] at h
    rw [List.cons_append, feed_of_expand h.1, List.nil_append]
    exact ih h.2

/-! ## What may follow a type -/

/-- The symbols that end what is nested in a type, or the type itself. -/
def enders : List Symbol :=
  [goal .tupleRest, goal .arrayRest, goal .argumentRest, opening]

/-- The symbols that go on with a path or with bounds. -/
def continuers : List Symbol :=
  [goal .pathRest, goal .boundRest]

/-- The optional symbols that may be left of a type. -/
def greedy : List Symbol :=
  [segmentEnd, result, goal .pathRest, goal .boundRest]

/-- What such a symbol takes: the symbol, its word, and what is expected after the word. -/
def greedyRows : List (Symbol × String × List Symbol) :=
  [(segmentEnd, "<", [goal .argument]), (segmentEnd, "(", [closing .round, result]),
    (result, "->", [goal .type]), (goal .pathRest, "::", [goal .segment]),
    (goal .boundRest, "+", [goal .bound, goal .boundRest])]

/-- The words that such a symbol takes. -/
def greedyMarks : List String :=
  ["<", "(", "->", "::", "+"]

/-- Stacks that may be below a type. -/
inductive Follows : List Symbol → Prop
  | nil : Follows []
  /-- A symbol that ends what the type is in. -/
  | ender {s : Symbol} {K : List Symbol} (hs : s ∈ enders) : Follows (s :: K)
  /-- A symbol that goes on with a path or with bounds that the type is in. -/
  | continuer {s : Symbol} {K : List Symbol} (hs : s ∈ continuers) (hK : Follows K) :
      Follows (s :: K)

/-- An optional symbol takes its word, or is left out. -/
theorem predict_greedy (hs : s ∈ greedy) (t : Lexeme) : s.predict t = expand [] ∨
    ∃ parts, (s, t.text, parts) ∈ greedyRows ∧ s.predict t = shift parts := by
  have htakes {mark : String} {parts : List Symbol} (hrow : (s, mark, parts) ∈ greedyRows)
      (hmark : t.isWord mark = true) (h : s.predict t = shift parts) :
      ∃ parts, (s, t.text, parts) ∈ greedyRows ∧ s.predict t = shift parts :=
    ⟨parts, text_eq_of_isWord hmark ▸ hrow, h⟩
  simp only [greedy, List.mem_cons, List.not_mem_nil, or_false] at hs
  rcases hs with rfl | rfl | rfl | rfl
  · by_cases hangle : t.isWord "<" = true
    · exact .inr (htakes (by decide) hangle (if_pos hangle))
    · by_cases hround : t.isWord "(" = true
      · exact .inr (htakes (by decide) hround ((if_neg hangle).trans (if_pos hround)))
      · exact .inl ((if_neg hangle).trans (if_neg hround))
  · by_cases harrow : t.isWord "->" = true
    · exact .inr (htakes (by decide) harrow (if_pos harrow))
    · exact .inl (if_neg harrow)
  · by_cases hcolons : t.isWord "::" = true
    · exact .inr (htakes (by decide) hcolons (if_pos hcolons))
    · exact .inl (if_neg hcolons)
  · by_cases hplus : t.isWord "+" = true
    · exact .inr (htakes (by decide) hplus (if_pos hplus))
    · exact .inl (if_neg hplus)

theorem mem_rows_of_shift (hs : s ∈ greedy) (h : s.predict t = shift parts) :
    (s, t.text, parts) ∈ greedyRows := by
  obtain hexpand | ⟨parts', hrow, hshift⟩ := predict_greedy hs t
  · rw [h] at hexpand
    cases hexpand
  · rw [h] at hshift
    cases hshift
    exact hrow

theorem text_mem_of_shift (hs : s ∈ greedy) (h : s.predict t = shift parts) :
    t.text ∈ greedyMarks := by
  have hmarks : ∀ row ∈ greedyRows, row.2.1 ∈ greedyMarks := by decide
  exact hmarks _ (mem_rows_of_shift hs h)

/-- A symbol that ends something takes none of the words of optional symbols. -/
theorem predict_ender (hs : s ∈ enders) (ht : t.text ∈ greedyMarks) : s.predict t = stop := by
  have hother : ∀ text ∉ greedyMarks, ¬ t.isWord text = true := fun text => not_isWord_of_mem ht
  simp only [enders, List.mem_cons, List.not_mem_nil, or_false] at hs
  rcases hs with rfl | rfl | rfl | rfl
  · exact (if_neg (hother _ (by decide))).trans (if_neg (hother _ (by decide)))
  · exact (if_neg (hother _ (by decide))).trans (if_neg (hother _ (by decide)))
  · exact (if_neg (hother _ (by decide))).trans (if_neg (hother _ (by decide)))
  · exact if_neg (hother _ (by decide))

theorem mem_greedy_of_continuer (hs : s ∈ continuers) : s ∈ greedy := by
  have hall : ∀ s ∈ continuers, s ∈ greedy := by decide
  exact hall s hs

/-- The word of an optional symbol is taken by a symbol that goes on, if at all. -/
theorem exists_of_feed (hK : Follows K) (ht : t.text ∈ greedyMarks) (h : feed K t = some L) :
    ∃ above s below parts, K = above ++ s :: below ∧ (∀ a ∈ above, a ∈ greedy) ∧ s ∈ continuers ∧
      s.predict t = shift parts ∧ L = parts ++ below ∧ Follows below := by
  induction hK with
  | nil =>
    rw [feed] at h
    cases h
  | ender hs =>
    rw [feed_of_stop (predict_ender hs ht)] at h
    cases h
  | @continuer s K hs hK ih =>
    have hgreedy := mem_greedy_of_continuer hs
    obtain hexpand | ⟨parts, -, hshift⟩ := predict_greedy hgreedy t
    · rw [feed_of_expand hexpand] at h
      obtain ⟨above, s', below, parts, rfl, habove, hs', hshift, rfl, hbelow⟩ := ih h
      exact ⟨s :: above, s', below, parts, rfl, List.forall_mem_cons.mpr ⟨hgreedy, habove⟩, hs',
        hshift, rfl, hbelow⟩
    · rw [feed_of_shift hshift] at h
      cases h
      exact ⟨[], s, K, parts, rfl, by simp, hs, hshift, rfl, hK⟩

/-- Two optional symbols that take the same lexeme expect the same after it, if one of them goes on
with a path or with bounds. -/
theorem eq_of_shift {o : Symbol} {p q : List Symbol} (ho : o ∈ greedy) (hs : s ∈ continuers)
    (hp : o.predict t = shift p) (hq : s.predict t = shift q) : p = q := by
  have hsame : ∀ row ∈ greedyRows, ∀ row' ∈ greedyRows, row'.1 ∈ continuers →
      row.2.1 = row'.2.1 → row.2.2 = row'.2.2 := by decide
  have hrow := mem_rows_of_shift ho hp
  have hrow' := mem_rows_of_shift (mem_greedy_of_continuer hs) hq
  exact hsame _ hrow _ hrow' hs rfl

/-- With optional symbols above it, a stack does what it did, or is left with optional symbols
further down. -/
theorem feed_insert (hopts : ∀ o ∈ opts, o ∈ greedy) (hK : Follows K) (h : feed K t = some L) :
    feed (opts ++ K) t = some L ∨ ∃ parts opts' below, L = parts ++ below ∧
      feed (opts ++ K) t = some (parts ++ (opts' ++ below)) ∧ (∀ o ∈ opts', o ∈ greedy) ∧
      Follows below := by
  induction opts with
  | nil => exact .inl h
  | cons o opts ih =>
    rw [List.forall_mem_cons] at hopts
    obtain hexpand | ⟨parts, -, hshift⟩ := predict_greedy hopts.1 t
    · rw [List.cons_append, feed_of_expand hexpand, List.nil_append]
      exact ih hopts.2
    · obtain ⟨above, s, below, parts', rfl, habove, hs, hshift', rfl, hbelow⟩ :=
        exists_of_feed hK (text_mem_of_shift hopts.1 hshift) h
      obtain rfl := eq_of_shift hopts.1 hs hshift hshift'
      refine .inr ⟨parts, opts ++ above ++ [s], below, rfl, ?_, ?_, hbelow⟩
      · rw [List.cons_append, feed_of_shift hshift]
        simp
      · intro o ho
        rw [List.mem_append, List.mem_append, List.mem_singleton] at ho
        rcases ho with (ho | ho) | rfl
        · exact hopts.2 o ho
        · exact habove o ho
        · exact mem_greedy_of_continuer hs

/-- More optional symbols above a stack that may follow a type do no harm. -/
theorem accepts_insert (hopts : ∀ o ∈ opts, o ∈ greedy) (hK : Follows K)
    (h : Accepts (L ++ K) ts) : Accepts (L ++ (opts ++ K)) ts := by
  induction ts generalizing L opts K with
  | nil =>
    rw [accepts_nil] at h ⊢
    have hoptional : ∀ s ∈ greedy, s.isOptional = true := by decide
    intro s hs
    rw [List.mem_append, List.mem_append] at hs
    rcases hs with hs | hs | hs
    · exact h s (List.mem_append_left _ hs)
    · exact hoptional s (hopts s hs)
    · exact h s (List.mem_append_right _ hs)
  | cons t ts ih =>
    obtain ⟨S, hS, hrest⟩ := accepts_cons.mp h
    rw [accepts_cons]
    rcases feed_append L K t with hfeed | ⟨hvanishes, hfeed⟩
    · rw [hfeed] at hS
      obtain ⟨L', hL', rfl⟩ := Option.map_eq_some_iff.mp hS
      rcases feed_append L (opts ++ K) t with hfeed' | ⟨hvanishes, -⟩
      · refine ⟨L' ++ (opts ++ K), by rw [hfeed', hL']; rfl, ih hopts hK hrest⟩
      · have hnone := @feed_of_vanishes _ [] _ hvanishes
        rw [List.append_nil, hL', feed] at hnone
        cases hnone
    · rw [hfeed] at hS
      rw [feed_of_vanishes hvanishes]
      rcases feed_insert hopts hK hS with hsame | ⟨parts, opts', below, rfl, hfeed', hopts', hbelow⟩
      · exact ⟨S, hsame, hrest⟩
      · exact ⟨_, hfeed', ih hopts' hbelow hrest⟩

/-- The same with the optional symbols on top. -/
theorem accepts_greedy (hopts : ∀ o ∈ opts, o ∈ greedy) (hK : Follows K) (h : Accepts K ts) :
    Accepts (opts ++ K) ts :=
  @accepts_insert K [] opts ts hopts hK h

end Microtypes
