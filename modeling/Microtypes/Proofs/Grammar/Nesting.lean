import Microtypes.Proofs.Grammar.Group

/-!
# Nested brackets

`nest` follows the brackets that are open from one lexeme to the next. It comes back to where it
began just on runs whose brackets match (`balanced_iff_nest`).
-/

namespace Microtypes

open Lexeme (punct)

variable {t : Lexeme} {ts us : List Lexeme} {d : Delimiter} {outer : List Delimiter}

/-- The brackets that are open behind a run, the innermost first, if each that it closes is the
innermost one. -/
def nest : List Delimiter → List Lexeme → Option (List Delimiter)
  | outer, [] => some outer
  | outer, t :: rest =>
    match t.opens?, t.closes?, outer with
    | some d, _, outer => nest (d :: outer) rest
    | none, none, outer => nest outer rest
    | none, some d, innermost :: outer => if d = innermost then nest outer rest else none
    | none, some _, [] => none

theorem nest_plain (ho : t.opens? = none) (hc : t.closes? = none) :
    nest outer (t :: ts) = nest outer ts := by
  simp only [nest, ho, hc]

theorem nest_opener (d : Delimiter) : nest outer (punct d.opener :: ts) = nest (d :: outer) ts := by
  have ho : (punct d.opener).opens? = some d := by cases d <;> rfl
  simp only [nest, ho]

theorem nest_closer (d : Delimiter) : nest (d :: outer) (punct d.closer :: ts) = nest outer ts := by
  have ho : (punct d.closer).opens? = none := by cases d <;> rfl
  have hc : (punct d.closer).closes? = some d := by cases d <;> rfl
  simp only [nest, ho, hc, if_true]

theorem nest_append : nest outer (ts ++ us) = (nest outer ts).bind (nest · us) := by
  induction ts generalizing outer with
  | nil => rfl
  | cons t ts ih =>
    simp only [List.cons_append, nest]
    split
    · exact ih
    · exact ih
    · split
      · exact ih
      · rfl
    · rfl

/-- Brackets further out do not matter. -/
theorem nest_outer {a b : List Delimiter} (h : nest a ts = some b) (outer : List Delimiter) :
    nest (a ++ outer) ts = some (b ++ outer) := by
  induction ts generalizing a with
  | nil =>
    cases h
    rfl
  | cons t ts ih =>
    cases ho : t.opens? with
    | some d =>
      simp only [nest, ho] at h ⊢
      exact ih h
    | none =>
      cases hc : t.closes? with
      | none =>
        simp only [nest, ho, hc] at h ⊢
        exact ih h
      | some d =>
        cases a with
        | nil =>
          simp only [nest, ho, hc] at h
          cases h
        | cons innermost a =>
          simp only [nest, ho, hc, List.cons_append] at h ⊢
          split at h
          · next hsame =>
            rw [if_pos hsame]
            exact ih h
          · cases h

/-- Where brackets match, the same ones are open behind a run as in front of it. -/
theorem nest_of_balanced (h : Balanced ts) (outer : List Delimiter) :
    nest outer ts = some outer := by
  induction h generalizing outer with
  | nil => rfl
  | plain ho hc _ ih =>
    rw [nest_plain ho hc]
    exact ih outer
  | group d _ _ ihi ihr =>
    rw [List.cons_append, nest_opener, nest_append, ihi, Option.bind_some, nest_closer]
    exact ihr outer

/-- A run behind which no bracket is open closes those in front of it, and goes on with brackets
that match. -/
theorem closesAll_of_nest (h : nest outer ts = some []) :
    ∃ closed rest, ClosesAll outer closed ∧ Balanced rest ∧ ts = closed ++ rest := by
  induction ts generalizing outer with
  | nil =>
    cases h
    exact ⟨[], [], rfl, .nil, rfl⟩
  | cons t ts ih =>
    cases ho : t.opens? with
    | some d =>
      rw [eq_punct_of_opens ho, nest_opener] at h
      obtain ⟨closed, rest, ⟨inside, after, hin, houter, rfl⟩, hrest, rfl⟩ := ih h
      rw [eq_punct_of_opens ho]
      cases outer with
      | nil =>
        obtain rfl : after = [] := houter
        refine ⟨[], _, rfl, .group d hin hrest, ?_⟩
        simp
      | cons e outer =>
        obtain ⟨inside', after', hin', houter', rfl⟩ := houter
        refine ⟨_, rest, ⟨punct d.opener :: inside ++ punct d.closer :: inside', after',
          .group d hin hin', houter', rfl⟩, hrest, ?_⟩
        simp
    | none =>
      cases hc : t.closes? with
      | some d =>
        cases outer with
        | nil =>
          simp only [nest, ho, hc] at h
          cases h
        | cons e outer =>
          simp only [nest, ho, hc] at h
          by_cases hsame : d = e
          · rw [if_pos hsame] at h
            obtain ⟨closed, rest, houter, hrest, rfl⟩ := ih h
            refine ⟨t :: closed, rest, ⟨[], closed, .nil, houter, ?_⟩, hrest, rfl⟩
            rw [eq_punct_of_closes hc, hsame]
            rfl
          · rw [if_neg hsame] at h
            cases h
      | none =>
        rw [nest_plain ho hc] at h
        obtain ⟨closed, rest, houter, hrest, rfl⟩ := ih h
        cases outer with
        | nil =>
          obtain rfl : closed = [] := houter
          exact ⟨[], t :: rest, rfl, .plain ho hc hrest, rfl⟩
        | cons e outer =>
          obtain ⟨inside, after, hin, houter', rfl⟩ := houter
          exact ⟨_, rest, ⟨t :: inside, after, .plain ho hc hin, houter', rfl⟩, hrest, rfl⟩

/-- Brackets match in a run if and only if none is open behind it where none is open in front. -/
theorem balanced_iff_nest : Balanced ts ↔ nest [] ts = some [] := by
  constructor
  · intro h
    exact nest_of_balanced h []
  · intro h
    obtain ⟨closed, rest, hclosed, hrest, rfl⟩ := closesAll_of_nest h
    obtain rfl : closed = [] := hclosed
    exact hrest

theorem balanced_append (hts : Balanced ts) (hus : Balanced us) : Balanced (ts ++ us) := by
  rw [balanced_iff_nest, nest_append, nest_of_balanced hts, Option.bind_some]
  exact nest_of_balanced hus []

end Microtypes
