import Microtypes.Proofs.Grammar.TypeCompleteness
import Microtypes.Proofs.Token.Fusion

/-!
# Brackets and last tokens of types

Brackets match in every construct of a type (`balanced_of_derives`), and it ends with a token that
stays what it is in front of a mark (`endsFinal_of_derives`). So the text of a type can be put into
other text (`inserts_of_derives`).
-/

namespace Microtypes

open Lexeme (punct ident)

variable {c : Construct} {t separator : Lexeme} {ts us : List Lexeme} {items : List (List Lexeme)}
  {trailing : Bool}

/-! ## Brackets -/

theorem balanced_of_kind (hk : t.kind ≠ .punct) (h : Balanced ts) : Balanced (t :: ts) := by
  have hmark : ∀ text, t.isPunct text = false := by
    intro text
    rw [Lexeme.isPunct, beq_eq_false_iff_ne.mpr hk]
    rfl
  refine .plain ?_ ?_ h
  · simp [Lexeme.opens?, hmark]
  · simp [Lexeme.closes?, hmark]

/-- The marks of types other than brackets. -/
theorem balanced_mark {mark : String} (h : mark ∈ ["&", ",", ";", "+", "::", "<", ">", "->", "="])
    (hts : Balanced ts) : Balanced (punct mark :: ts) := by
  have hall : ∀ mark ∈ ["&", ",", ";", "+", "::", "<", ">", "->", "="],
      (punct mark).opens? = none ∧ (punct mark).closes? = none := by decide +kernel
  exact .plain (hall mark h).1 (hall mark h).2 hts

theorem balanced_isGroup {d : Delimiter} (h : IsGroup d ts) : Balanced ts := by
  obtain ⟨inside, hin, rfl⟩ := h
  exact .group d hin .nil

theorem balanced_continued (hsep : Balanced [separator]) (h : ∀ item ∈ items, Balanced item) :
    Balanced (continued separator trailing items) := by
  induction items with
  | nil =>
    rw [continued]
    split
    · exact hsep
    · exact .nil
  | cons item items ih =>
    obtain ⟨hitem, hitems⟩ := List.forall_mem_cons.mp h
    exact balanced_append hsep (balanced_append hitem (ih hitems))

theorem balanced_separated (hsep : Balanced [separator]) (h : ∀ item ∈ items, Balanced item) :
    Balanced (separated separator trailing items) := by
  cases items with
  | nil => exact .nil
  | cons first items =>
    obtain ⟨hfirst, hitems⟩ := List.forall_mem_cons.mp h
    exact balanced_append hfirst (balanced_continued hsep hitems)

theorem forall_mem_continued {p : Lexeme → Prop} (hsep : p separator)
    (h : ∀ item ∈ items, ∀ t ∈ item, p t) : ∀ t ∈ continued separator trailing items, p t := by
  induction items with
  | nil =>
    rw [continued]
    split
    · exact List.forall_mem_singleton.mpr hsep
    · exact List.forall_mem_nil p
  | cons item items ih =>
    obtain ⟨hitem, hitems⟩ := List.forall_mem_cons.mp h
    exact List.forall_mem_cons.mpr ⟨hsep, List.forall_mem_append.mpr ⟨hitem, ih hitems⟩⟩

theorem forall_mem_separated {p : Lexeme → Prop} (hsep : p separator)
    (h : ∀ item ∈ items, ∀ t ∈ item, p t) : ∀ t ∈ separated separator trailing items, p t := by
  cases items with
  | nil => exact List.forall_mem_nil p
  | cons first items =>
    obtain ⟨hfirst, hitems⟩ := List.forall_mem_cons.mp h
    exact List.forall_mem_append.mpr ⟨hfirst, forall_mem_continued hsep hitems⟩

/-- Brackets match in every construct of a type. -/
theorem balanced_of_derives (h : Derives c ts) : Balanced ts := by
  have hmark {mark : String} (hmem : mark ∈ ["&", ",", ";", "+", "::", "<", ">", "->", "="]) :
      Balanced [punct mark] := balanced_mark hmem .nil
  have hident {text : String} {us : List Lexeme} (hus : Balanced us) :
      Balanced (ident text :: us) := balanced_of_kind (show TokenKind.ident ≠ .punct by decide) hus
  induction h with
  | @reference lifetime mutable inner hl _ ih =>
    have hlifetime : Balanced lifetime.toList := by
      cases lifetime with
      | none => exact .nil
      | some l => exact balanced_of_kind (by rw [hl l rfl]; decide) .nil
    have hmut : Balanced (if mutable then [ident "mut"] else []) := by
      cases mutable
      · exact .nil
      · exact hident .nil
    exact balanced_append (balanced_mark (by decide) (balanced_append hlifetime hmut)) ih
  | tuple trailing _ ih => exact .group .round (balanced_separated (hmark (by decide)) ih) .nil
  | slice _ ih => exact .group .square ih .nil
  | @array element length _ hl ih =>
    have hinside : Balanced (element ++ punct ";" :: length) :=
      balanced_append ih (balanced_mark (by decide) hl.1)
    have hgroup : Balanced (punct "[" :: (element ++ punct ";" :: length) ++ [punct "]"]) :=
      .group .square hinside .nil
    rw [← List.cons_append] at hgroup
    exact hgroup
  | traitObject _ _ ih => exact hident (balanced_separated (hmark (by decide)) ih)
  | named _ _ ih => exact ih
  | lifetimeBound hl => exact balanced_of_kind (by rw [hl]; decide) .nil
  | pathBound _ ih => exact ih
  | @path root segments _ _ ih =>
    have hroot : Balanced (rootMark root) := by
      cases root
      · exact .nil
      · exact hmark (by decide)
    exact balanced_append hroot (balanced_separated (hmark (by decide)) ih)
  | word hk _ => exact balanced_of_kind (by rw [hk]; decide) .nil
  | generic hk _ _ ih => exact balanced_of_kind (by rw [hk]; decide) ih
  | call hk _ hg => exact balanced_of_kind (by rw [hk]; decide) (balanced_isGroup hg)
  | callTo hk _ hg _ ih =>
    exact balanced_of_kind (by rw [hk]; decide)
      (balanced_append (balanced_isGroup hg) (balanced_mark (by decide) ih))
  | arguments trailing _ ih =>
    exact balanced_append (balanced_mark (by decide) (balanced_separated (hmark (by decide)) ih))
      (hmark (by decide))
  | plainArgument hk =>
    refine balanced_of_kind ?_ .nil
    rcases hk with hk | hk
    · rw [hk]
      decide
    · rw [hk]
      decide
  | groupArgument hg => exact balanced_isGroup hg
  | binding hk _ ih =>
    exact balanced_of_kind (by rw [hk]; decide) (balanced_mark (by decide) ih)
  | typeArgument _ ih => exact ih

/-! ## Last tokens -/

theorem final_of_kind (hpunct : t.kind ≠ .punct) (hdoc : t.kind ≠ .doc) : t.Final := by
  refine ⟨hdoc, fun hmem => hpunct ?_⟩
  have hall : ∀ u ∈ [punct ":", punct "::", punct "-", punct "="], u.kind = .punct := by decide
  exact hall t hmem

theorem final_mark {mark : String} (h : mark ∈ [")", "]", ">", "\x7d"]) : (punct mark).Final := by
  refine ⟨show TokenKind.punct ≠ .doc by decide, ?_⟩
  have hall : ∀ mark ∈ [")", "]", ">", "\x7d"],
      punct mark ∉ [punct ":", punct "::", punct "-", punct "="] := by decide +kernel
  exact hall mark h

theorem endsFinal_append (h : EndsFinal us) (hne : us ≠ []) (ts : List Lexeme) :
    EndsFinal (ts ++ us) := by
  intro t ht
  rw [List.getLast?_append_of_ne_nil _ hne] at ht
  exact h t ht

theorem endsFinal_concat (h : t.Final) (ts : List Lexeme) : EndsFinal (ts ++ [t]) :=
  endsFinal_append (fun u hu => by cases hu; exact h) (List.cons_ne_nil _ _) ts

theorem endsFinal_isGroup {d : Delimiter} (h : IsGroup d ts) : EndsFinal ts := by
  obtain ⟨inside, -, rfl⟩ := h
  have hmem : d.closer ∈ [")", "]", ">", "\x7d"] := by cases d <;> decide
  exact endsFinal_concat (final_mark hmem) _

/-- A list without a separator at its end ends as its last item does. -/
theorem endsFinal_separated (hne : ∀ item ∈ items, item ≠ [])
    (h : ∀ item ∈ items, EndsFinal item) : EndsFinal (separated separator false items) := by
  cases items with
  | nil =>
    intro t ht
    cases ht
  | cons first items =>
    rw [separated]
    induction items generalizing first with
    | nil =>
      rw [continued, if_neg (by decide), List.append_nil]
      exact h first List.mem_cons_self
    | cons next items ih =>
      have hlater := ih next (fun item hitem => hne item (List.mem_cons_of_mem _ hitem))
        fun item hitem => h item (List.mem_cons_of_mem _ hitem)
      have hnext : next ++ continued separator false items ≠ [] :=
        List.append_ne_nil_of_left_ne_nil (hne next (by simp)) _
      have hall := endsFinal_append hlater hnext (first ++ [separator])
      rw [List.append_assoc] at hall
      exact hall

theorem endsFinal_single (h : t.Final) : EndsFinal [t] := endsFinal_concat h []

theorem endsFinal_of_derives (h : Derives c ts) : EndsFinal ts := by
  induction h with
  | reference lifetime mutable _ hi ih => exact endsFinal_append ih (derives_ne_nil hi) _
  | tuple trailing _ _ => exact endsFinal_concat (final_mark (by decide)) _
  | slice _ _ => exact endsFinal_concat (final_mark (by decide)) _
  | array _ _ _ => exact endsFinal_concat (final_mark (by decide)) _
  | @traitObject bounds hne hb ih =>
    obtain ⟨b, others, rfl⟩ := List.exists_cons_of_ne_nil hne
    have hbounds : separated (punct "+") false (b :: others) ≠ [] :=
      List.append_ne_nil_of_left_ne_nil (derives_ne_nil (hb b List.mem_cons_self)) _
    exact endsFinal_append (endsFinal_separated (fun b hmem => derives_ne_nil (hb b hmem)) ih)
      hbounds [ident "dyn"]
  | named _ _ ih => exact ih
  | lifetimeBound hl =>
    exact endsFinal_single (final_of_kind (by rw [hl]; decide) (by rw [hl]; decide))
  | pathBound _ ih => exact ih
  | @path root segments hne hs ih =>
    obtain ⟨s, others, rfl⟩ := List.exists_cons_of_ne_nil hne
    have hsegments : separated (punct "::") false (s :: others) ≠ [] :=
      List.append_ne_nil_of_left_ne_nil (derives_ne_nil (hs s List.mem_cons_self)) _
    exact endsFinal_append (endsFinal_separated (fun s hmem => derives_ne_nil (hs s hmem)) ih)
      hsegments _
  | word hk _ =>
    exact endsFinal_single (final_of_kind (by rw [hk]; decide) (by rw [hk]; decide))
  | @generic t arguments _ _ ha ih => exact endsFinal_append ih (derives_ne_nil ha) [t]
  | @call t group _ _ hg =>
    have hne : group ≠ [] := by
      obtain ⟨inside, -, rfl⟩ := hg
      simp
    exact endsFinal_append (endsFinal_isGroup hg) hne [t]
  | @callTo t group result _ _ _ hr ih =>
    have hall := endsFinal_append ih (derives_ne_nil hr) (t :: group ++ [punct "->"])
    rw [List.append_assoc] at hall
    exact hall
  | arguments trailing _ _ => exact endsFinal_concat (final_mark (by decide)) _
  | plainArgument hk =>
    rcases hk with hk | hk
    · exact endsFinal_single (final_of_kind (by rw [hk]; decide) (by rw [hk]; decide))
    · exact endsFinal_single (final_of_kind (by rw [hk]; decide) (by rw [hk]; decide))
  | groupArgument hg => exact endsFinal_isGroup hg
  | @binding t value _ hv ih =>
    exact endsFinal_append ih (derives_ne_nil hv) [t, punct "="]
  | typeArgument _ ih => exact ih

/-! ## Texts -/

/-- Whether a text is read in front of any mark that may be put behind a type, as tokens in which
brackets match, and what is behind it by itself. -/
def Inserts (text : String) : Prop :=
  ∀ after, parted after = true → ∃ ts, Balanced ts ∧ LexedBefore text.toList ts after

theorem inserts_spelling (hshaped : ∀ t ∈ ts, t.Shaped) (hdoc : ∀ t ∈ ts, t.isLineDoc = false)
    (hfinal : EndsFinal ts) (hbalanced : Balanced ts) : Inserts (spelling ts) := by
  intro after hafter
  obtain ⟨us, hnest, hlexed⟩ := embeds_spelling hshaped hdoc hfinal hafter
  refine ⟨us, ?_, hlexed⟩
  rw [balanced_iff_nest, hnest]
  exact nest_of_balanced hbalanced []

/-- The text of a type can be put into other text. -/
theorem inserts_of_derives (hshaped : ∀ t ∈ ts, t.Shaped) (hdoc : ∀ t ∈ ts, t.isLineDoc = false)
    (h : Derives .type ts) : Inserts (spelling ts) :=
  inserts_spelling hshaped hdoc (endsFinal_of_derives h) (balanced_of_derives h)

end Microtypes
