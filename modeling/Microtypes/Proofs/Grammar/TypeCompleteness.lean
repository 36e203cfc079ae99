import Microtypes.Proofs.Grammar.Insertion

/-!
# Derived types are accepted

What the grammar derives as a type is passed by the automaton when a type is expected. What is
expected below it may go on with a path or with bounds, and so the statement for each construct is
about everything that the stack accepts after it.
-/

namespace Microtypes

open Microtypes.Symbol Move
open Lexeme (punct ident)

variable {s : Symbol} {K E R : List Symbol} {t sep : Lexeme} {ts us last : List Lexeme}

/-! ## Lists of items -/

/-- Items with separators are accepted if each item is, and each separator, and what comes last. -/
theorem accepts_continued {trailing : Bool} {items : List (List Lexeme)}
    (hlast : Accepts R ((if trailing then [sep] else []) ++ last))
    (hsep : ∀ us, Accepts E us → Accepts R (sep :: us))
    (hitem : ∀ e ∈ items, ∀ us, Accepts R us → Accepts E (e ++ us)) :
    Accepts R (continued sep trailing items ++ last) := by
  induction items with
  | nil => exact hlast
  | cons e items ih =>
    rw [List.forall_mem_cons] at hitem
    rw [continued, List.cons_append, List.append_assoc]
    exact hsep _ (hitem.1 _ (ih hitem.2))

theorem accepts_separated {trailing : Bool} {items : List (List Lexeme)}
    (hnone : items = [] → Accepts E last)
    (hlast : Accepts R ((if trailing then [sep] else []) ++ last))
    (hsep : ∀ us, Accepts E us → Accepts R (sep :: us))
    (hitem : ∀ e ∈ items, ∀ us, Accepts R us → Accepts E (e ++ us)) :
    Accepts E (separated sep trailing items ++ last) := by
  cases items with
  | nil => exact hnone rfl
  | cons e items =>
    rw [List.forall_mem_cons] at hitem
    rw [separated, List.append_assoc]
    exact hitem.1 _ (accepts_continued hlast hsep hitem.2)

theorem mem_continued {trailing : Bool} {items : List (List Lexeme)} {e : List Lexeme}
    (he : e ∈ items) (ht : t ∈ e) : t ∈ continued sep trailing items := by
  induction items with
  | nil => cases he
  | cons e' items ih =>
    rw [continued, List.mem_cons, List.mem_append]
    rcases List.mem_cons.mp he with rfl | he
    · exact .inr (.inl ht)
    · exact .inr (.inr (ih he))

theorem mem_separated {trailing : Bool} {items : List (List Lexeme)} {e : List Lexeme}
    (he : e ∈ items) (ht : t ∈ e) : t ∈ separated sep trailing items := by
  cases items with
  | nil => cases he
  | cons e' items =>
    rw [separated, List.mem_append]
    rcases List.mem_cons.mp he with rfl | he
    · exact .inl ht
    · exact .inr (mem_continued he ht)

/-! ## Groups and values -/

theorem opens_punct (d : Delimiter) : (punct d.opener).opens? = some d := by
  cases d <;> rfl

theorem closes_punct (d : Delimiter) : (punct d.closer).closes? = some d := by
  cases d <;> rfl

theorem opens_punct_closer (d : Delimiter) : (punct d.closer).opens? = none := by
  cases d <;> rfl

/-- A run of balanced lexemes is passed inside a group and inside a value. -/
theorem accepts_balanced (hts : Balanced ts) (hp : ∀ t ∈ ts, t.Proper)
    (hs : s = valueRest ∨ ∃ d, s = closing d) (h : Accepts (s :: K) us) :
    Accepts (s :: K) (ts ++ us) := by
  induction hts generalizing s K us with
  | nil => exact h
  | @plain t rest ho hc _ ih =>
    rw [List.forall_mem_cons] at hp
    have hshift : s.predict t = shift [s] := by
      rcases hs with rfl | ⟨d, rfl⟩
      · refine predict_valueRest_of_plain ?_ ho hc
        intro hw
        rw [hp.1.eq_punct hw rfl] at hc
        cases hc
      · exact predict_closing_of_plain ho hc
    exact accepts_shift [s] hshift (ih hp.2 hs h)
  | @group d inside rest _ _ ihi ihr =>
    have hinside : ∀ t ∈ inside, t.Proper := fun t ht => hp t (by simp [ht])
    have hrest : ∀ t ∈ rest, t.Proper := fun t ht => hp t (by simp [ht])
    have hopen : s.predict (punct d.opener) = shift [closing d, s] := by
      rcases hs with rfl | ⟨d', rfl⟩
      · refine predict_valueRest_of_opens ?_ (opens_punct d)
        cases d <;> decide
      · exact predict_closing_of_opens (opens_punct d)
    have hclose : Accepts (closing d :: s :: K) (punct d.closer :: (rest ++ us)) :=
      accepts_shift [] (predict_closing_of_closes (opens_punct_closer d) (closes_punct d))
        (ihr hrest hs h)
    have hgroup := ihi hinside (.inr ⟨d, rfl⟩) hclose
    simpa using accepts_shift [closing d, s] hopen hgroup

/-- A group goes on where its bracket is closed. -/
theorem accepts_closing {d : Delimiter} {inside : List Lexeme} (hi : Balanced inside)
    (hp : ∀ t ∈ inside, t.Proper) (h : Accepts K us) :
    Accepts (closing d :: K) (inside ++ punct d.closer :: us) :=
  accepts_balanced hi hp (.inr ⟨d, rfl⟩)
    (accepts_shift [] (predict_closing_of_closes (opens_punct_closer d) (closes_punct d)) h)

theorem closes_of_balanced (h : Balanced ts) : ∀ t ∈ ts.head?, t.closes? = none := by
  rintro t ht
  cases h with
  | nil => cases ht
  | plain _ hc _ =>
    cases ht
    exact hc
  | group d _ _ =>
    cases ht
    cases d <;> rfl

theorem accepts_value (hts : IsValue ts) (hp : ∀ t ∈ ts, t.Proper) (h : Accepts K us) :
    Accepts (value :: K) (ts ++ punct "]" :: us) := by
  obtain ⟨hbalanced, hne⟩ := hts
  have hrest : Accepts (valueRest :: K) (ts ++ punct "]" :: us) :=
    accepts_balanced hbalanced hp (.inl rfl) (accepts_shift [] (by decide) h)
  obtain ⟨t, ts, rfl⟩ := List.exists_cons_of_ne_nil hne
  have hclose : ¬ t.isWord "]" = true := by
    intro hw
    have hcloses := closes_of_balanced hbalanced t rfl
    rw [(hp t List.mem_cons_self).eq_punct hw rfl] at hcloses
    cases hcloses
  exact accepts_expand [valueRest] (if_neg hclose) hrest

/-! ## How types begin -/

/-- Whether a lexeme may begin a type. -/
def BeginsType (t : Lexeme) : Prop :=
  (t.kind = .punct ∧ t.text ∈ ["&", "(", "[", "::"]) ∨
    (t.kind = .ident ∧ t.text ∉ Goal.unpathedWords)

theorem ident_of_feed_segment (h : (feed (goal .segment :: K) t).isSome) :
    t.kind = .ident ∧ t.text ∉ Goal.unpathedWords := by
  by_contra hword
  have hstop : predict (goal .segment) t = stop := by
    refine if_pos ?_
    by_cases hk : t.kind = .ident
    · exact .inr (by simpa [hk] using hword)
    · exact .inl hk
  rw [feed_of_stop hstop] at h
  cases h

theorem beginsType_of_feed_path (h : (feed (goal .path :: K) t).isSome) :
    t.isWord "::" = true ∨ (t.kind = .ident ∧ t.text ∉ Goal.unpathedWords) := by
  by_cases hroot : t.isWord "::" = true
  · exact .inl hroot
  · have hexpand : predict (goal .path) t = expand [goal .segment] := if_neg hroot
    rw [feed_of_expand hexpand] at h
    exact .inr (ident_of_feed_segment h)

theorem beginsType_of_isPunct {text : String} (h : t.isPunct text = true)
    (htext : text ∈ ["&", "(", "[", "::"]) : BeginsType t := by
  rw [eq_punct_of_isPunct h]
  exact .inl ⟨rfl, htext⟩

theorem beginsType_of_feed (h : (feed (goal .type :: K) t).isSome) : BeginsType t := by
  by_cases hamp : t.isPunct "&" = true
  · exact beginsType_of_isPunct hamp (by decide)
  by_cases hround : t.isPunct "(" = true
  · exact beginsType_of_isPunct hround (by decide)
  by_cases hsquare : t.isPunct "[" = true
  · exact beginsType_of_isPunct hsquare (by decide)
  by_cases hdyn : t.isIdent "dyn" = true
  · rw [eq_ident_of_isIdent hdyn]
    exact .inr ⟨rfl, by decide⟩
  have hexpand : predict (goal .type) t = expand [goal .path] :=
    (if_neg hamp).trans ((if_neg hround).trans ((if_neg hsquare).trans (if_neg hdyn)))
  rw [feed_of_expand hexpand] at h
  rcases beginsType_of_feed_path h with hroot | hword
  · have htext := text_eq_of_isWord hroot
    simp only [Lexeme.isWord, Bool.and_eq_true, Bool.or_eq_true, beq_iff_eq] at hroot
    rcases hroot.1 with hk | hk
    · exact .inl ⟨hk, by simp [htext]⟩
    · exact .inr ⟨hk, by rw [htext]; decide⟩
  · exact .inr hword

/-- A stack that accepts lexemes and expects something has a first lexeme to pass. -/
theorem exists_of_accepts (hs : s.isOptional = false) (h : Accepts (s :: K) us) :
    ∃ t rest, us = t :: rest ∧ (feed (s :: K) t).isSome := by
  cases us with
  | nil =>
    have hall := accepts_nil.mp h s List.mem_cons_self
    rw [hs] at hall
    cases hall
  | cons t rest =>
    obtain ⟨L, hL, -⟩ := accepts_cons.mp h
    exact ⟨t, rest, rfl, by rw [hL]; rfl⟩

namespace BeginsType

theorem not_isWord {text : String} (h : BeginsType t) (ht : text ∈ Goal.unpathedWords) :
    ¬ t.isWord text = true := by
  intro hw
  rw [← text_eq_of_isWord hw] at ht
  rcases h with ⟨-, hmem⟩ | ⟨-, hmem⟩
  · have hdisjoint : ∀ text ∈ Goal.unpathedWords, text ∉ ["&", "(", "[", "::"] := by decide
    exact hdisjoint _ ht hmem
  · exact hmem ht

theorem not_isMark {text : String} (h : BeginsType t) (hp : t.Proper)
    (ht : text ∉ ["&", "(", "[", "::"]) (hs : startsIdent text.toList = false) :
    ¬ t.isWord text = true := by
  intro hw
  rw [hp.eq_punct hw hs] at h
  rcases h with ⟨-, hmem⟩ | ⟨hk, -⟩
  · exact ht hmem
  · cases hk

theorem kind (h : BeginsType t) : t.kind = .punct ∨ t.kind = .ident :=
  h.imp (·.1) (·.1)

end BeginsType

theorem accepts_borrowed_of_type (h : Accepts (goal .type :: K) us) :
    Accepts (borrowed :: K) us := by
  obtain ⟨t, rest, rfl, hfeed⟩ := exists_of_accepts rfl h
  have hmut : ¬ t.isWord "mut" = true := (beginsType_of_feed hfeed).not_isWord (by decide)
  exact accepts_expand [goal .type] (if_neg hmut) h

theorem accepts_reference_of_borrowed (h : Accepts (borrowed :: K) us) :
    Accepts (reference :: K) us := by
  obtain ⟨t, rest, rfl, hfeed⟩ := exists_of_accepts rfl h
  refine accepts_expand [borrowed] (if_neg ?_) h
  intro hk
  have hmut : ¬ t.isWord "mut" = true := by simp [Lexeme.isWord, hk]
  have hexpand : predict borrowed t = expand [goal .type] := if_neg hmut
  rw [feed_of_expand hexpand] at hfeed
  have hkind := (beginsType_of_feed hfeed).kind
  rw [hk] at hkind
  exact absurd hkind (by decide)

theorem accepts_tupleElement_of_type (hp : ∀ t ∈ us.head?, t.Proper)
    (h : Accepts (goal .type :: goal .tupleRest :: K) us) :
    Accepts (goal .tupleElement :: K) us := by
  obtain ⟨t, rest, rfl, hfeed⟩ := exists_of_accepts rfl h
  have hclose : ¬ t.isWord ")" = true :=
    (beginsType_of_feed hfeed).not_isMark (hp t rfl) (by decide) rfl
  exact accepts_expand [goal .type, goal .tupleRest] (if_neg hclose) h

/-- An equals sign cannot follow the first word of a type. -/
theorem feed_wordParts_equals {text : String} (hu : t.isWord "=" = true)
    (hp : text = "dyn" → t.Proper) :
    feed (wordParts text ++ goal .argumentRest :: K) t = none := by
  have htext := text_eq_of_isWord hu
  have hmark : ∀ text ∉ ["="], ¬ t.isWord text = true := fun text =>
    not_isWord_of_mem (by simp [htext])
  unfold wordParts
  split
  · next hdyn =>
    rw [(hp hdyn).eq_punct hu rfl]
    have hbound : predict (goal .bound) (punct "=") = expand [goal .path] := by decide
    have hpath : predict (goal .path) (punct "=") = expand [goal .segment] := by decide
    have hsegment : predict (goal .segment) (punct "=") = stop := by decide
    exact (feed_of_expand hbound).trans ((feed_of_expand hpath).trans (feed_of_stop hsegment))
  · have hend : predict segmentEnd t = expand [] :=
      (if_neg (hmark "<" (by decide))).trans (if_neg (hmark "(" (by decide)))
    have hpath : predict (goal .pathRest) t = expand [] := if_neg (hmark "::" (by decide))
    have hargument : predict (goal .argumentRest) t = stop :=
      (if_neg (hmark "," (by decide))).trans (if_neg (hmark ">" (by decide)))
    exact (feed_of_expand hend).trans ((feed_of_expand hpath).trans (feed_of_stop hargument))

/-- A type is an argument, also where its first word might have been bound. -/
theorem accepts_argument_of_type (hp : ∀ t ∈ us.head?, t.Proper)
    (hdyn : ∀ u rest, us = ident "dyn" :: u :: rest → u.Proper)
    (h : Accepts (goal .type :: goal .argumentRest :: K) us) :
    Accepts (goal .argument :: K) us := by
  obtain ⟨t, rest, rfl, hfeed⟩ := exists_of_accepts rfl h
  have hbegins := beginsType_of_feed hfeed
  have hclose : ¬ t.isWord ">" = true := hbegins.not_isMark (hp t rfl) (by decide) rfl
  have hplain : ¬ (t.kind = .lifetime ∨ t.kind = .literal) := by
    rcases hbegins.kind with hk | hk <;> simp [hk]
  rcases hbegins with ⟨hk, hmem⟩ | ⟨hk, hword⟩
  · have hcurly : ¬ t.isPunct Delimiter.curly.opener = true := fun hpunct =>
      not_isWord_of_mem hmem (by decide) (isWord_of_isPunct hpunct)
    have hident : ¬ t.kind = .ident := by simp [hk]
    exact accepts_expand [goal .type, goal .argumentRest]
      ((if_neg hclose).trans ((if_neg hplain).trans ((if_neg hcurly).trans (if_neg hident)))) h
  · have hcurly : ¬ t.isPunct Delimiter.curly.opener = true := by simp [Lexeme.isPunct, hk]
    refine accepts_shift [argumentWord t.text]
      ((if_neg hclose).trans ((if_neg hplain).trans ((if_neg hcurly).trans (if_pos hk)))) ?_
    obtain ⟨L, hL, hrest⟩ := accepts_cons.mp h
    rw [feed_type_ident hk (hp t rfl) hword] at hL
    cases hL
    cases rest with
    | nil =>
      have hall := accepts_nil.mp hrest (goal .argumentRest) (by simp)
      cases hall
    | cons u rest =>
      have hequals : ¬ u.isWord "=" = true := by
        intro hu
        obtain ⟨M, hM, -⟩ := accepts_cons.mp hrest
        have hproper : t.text = "dyn" → u.Proper := by
          intro htext
          refine hdyn u rest ?_
          rw [ident, ← htext, ← hk]
        rw [feed_wordParts_equals hu hproper] at hM
        cases hM
      refine accepts_expand (wordParts t.text ++ [goal .argumentRest])
        ((if_neg hequals).trans (if_neg hword)) ?_
      rw [List.append_assoc]
      exact hrest

/-! ## Types -/

theorem derives_ne_nil {c : Construct} (h : Derives c ts) : ts ≠ [] := by
  induction h with
  | named _ _ ih => exact ih
  | pathBound _ ih => exact ih
  | typeArgument _ ih => exact ih
  | @path root segments hne hs ih =>
    obtain ⟨s, segments, rfl⟩ := List.exists_cons_of_ne_nil hne
    have hfirst := ih s List.mem_cons_self
    simp [separated, hfirst]
  | groupArgument hg =>
    obtain ⟨inside, -, rfl⟩ := hg
    simp
  | _ => simp

/-- A trait object has a bound. -/
theorem ne_nil_of_derives_dyn (h : Derives .type (ident "dyn" :: ts)) : ts ≠ [] := by
  generalize htype : ident "dyn" :: ts = all at h
  cases h with
  | traitObject hne hb =>
    cases htype
    rename_i bounds
    obtain ⟨b, bounds, rfl⟩ := List.exists_cons_of_ne_nil hne
    have hfirst := derives_ne_nil (hb b List.mem_cons_self)
    simp [separated, hfirst]
  | named hp hd =>
    subst htype
    exact absurd rfl hd
  | _ => cases htype

/-- What a stack accepts once it has passed a construct. -/
def Construct.Reads : Construct → List Lexeme → Prop
  | .type, ts => ∀ K us, Follows K → Accepts K us → Accepts (goal .type :: K) (ts ++ us)
  | .bound, ts => ∀ K us, Follows K → Accepts K us → Accepts (goal .bound :: K) (ts ++ us)
  | .path, ts => ∀ K us, Follows K → Accepts K us → Accepts (goal .path :: K) (ts ++ us)
  | .segment, ts =>
    ∀ K us, Follows K → Accepts (goal .pathRest :: K) us → Accepts (goal .segment :: K) (ts ++ us)
  | .arguments, ts => ∀ K us, Accepts K us → Accepts (segmentEnd :: K) (ts ++ us)
  | .argument, ts =>
    ∀ K us, Accepts (goal .argumentRest :: K) us → Accepts (goal .argument :: K) (ts ++ us)

theorem follows_pathRest (hK : Follows K) : Follows (goal .pathRest :: K) :=
  .continuer (by decide) hK

theorem follows_boundRest (hK : Follows K) : Follows (goal .boundRest :: K) :=
  .continuer (by decide) hK

theorem accepts_pathRest (hK : Follows K) (h : Accepts K us) : Accepts (goal .pathRest :: K) us :=
  @accepts_greedy K [goal .pathRest] us (by decide) hK h

theorem accepts_boundRest (hK : Follows K) (h : Accepts K us) :
    Accepts (goal .boundRest :: K) us :=
  @accepts_greedy K [goal .boundRest] us (by decide) hK h

theorem accepts_segmentEnd (hK : Follows K) (h : Accepts K us) : Accepts (segmentEnd :: K) us :=
  @accepts_greedy K [segmentEnd] us (by decide) hK h

theorem accepts_result (hK : Follows K) (h : Accepts K us) : Accepts (result :: K) us :=
  @accepts_greedy K [result] us (by decide) hK h

/-- An identifier begins a segment. -/
theorem accepts_segment_word (hk : t.kind = .ident) (ht : t.text ∉ Goal.unpathedWords)
    (h : Accepts (segmentEnd :: goal .pathRest :: K) us) :
    Accepts (goal .segment :: K) (t :: us) :=
  accepts_shift [segmentEnd, goal .pathRest] (if_neg (by simp [hk, ht])) h

/-- The parameters of a segment are a group in round brackets. -/
theorem accepts_parameters {group : List Lexeme} (hg : IsGroup .round group)
    (hp : ∀ t ∈ group, t.Proper) (h : Accepts (result :: K) us) :
    Accepts (segmentEnd :: K) (group ++ us) := by
  obtain ⟨inside, hinside, rfl⟩ := hg
  have hclosing : Accepts (closing .round :: result :: K) (inside ++ punct ")" :: us) :=
    accepts_closing hinside (fun t ht => hp t (by simp [ht])) h
  have hopen : predict segmentEnd (punct "(") = shift [closing .round, result] := by decide
  show Accepts (segmentEnd :: K) (punct "(" :: inside ++ [punct ")"] ++ us)
  simpa using accepts_shift [closing .round, result] hopen hclosing

theorem reads_reference {lifetime : Option Lexeme} {mutable : Bool} {inner : List Lexeme}
    (hl : ∀ l ∈ lifetime, l.kind = .lifetime) (hinner : Construct.Reads .type inner) :
    Construct.Reads .type
      (punct "&" :: lifetime.toList ++ (if mutable then [ident "mut"] else []) ++ inner) := by
  intro K us hK h
  have hborrowed : Accepts (borrowed :: K)
      ((if mutable then [ident "mut"] else []) ++ (inner ++ us)) := by
    cases mutable with
    | true => exact accepts_shift [goal .type] (by decide) (hinner K us hK h)
    | false => exact accepts_borrowed_of_type (hinner K us hK h)
  have hreference : Accepts (reference :: K) (lifetime.toList ++
      ((if mutable then [ident "mut"] else []) ++ (inner ++ us))) := by
    cases lifetime with
    | none => exact accepts_reference_of_borrowed hborrowed
    | some l => exact accepts_shift [borrowed] (if_pos (hl l rfl)) hborrowed
  have hamp : predict (goal .type) (punct "&") = shift [reference] := by decide
  simpa using accepts_shift [reference] hamp hreference

theorem head_append {e : List Lexeme} (hne : e ≠ []) (hp : ∀ t ∈ e, t.Proper) :
    ∀ t ∈ (e ++ us).head?, t.Proper := by
  obtain ⟨t, e, rfl⟩ := List.exists_cons_of_ne_nil hne
  rintro t' ⟨⟩
  exact hp t List.mem_cons_self

theorem reads_tuple {trailing : Bool} {elements : List (List Lexeme)}
    (hne : ∀ e ∈ elements, e ≠ []) (hp : ∀ e ∈ elements, ∀ t ∈ e, t.Proper)
    (he : ∀ e ∈ elements, Construct.Reads .type e) :
    Construct.Reads .type
      (punct "(" :: separated (punct ",") trailing elements ++ [punct ")"]) := by
  intro K us hK h
  have hclose : Accepts (goal .tupleElement :: K) (punct ")" :: us) :=
    accepts_shift [] (by decide) h
  have helements : Accepts (goal .tupleElement :: K)
      (separated (punct ",") trailing elements ++ punct ")" :: us) := by
    refine @accepts_separated _ (goal .tupleRest :: K) _ _ _ _ (fun _ => hclose) ?_ ?_ ?_
    · cases trailing with
      | true => exact accepts_shift [goal .tupleElement] (by decide) hclose
      | false => exact accepts_shift [] (by decide) h
    · intro us hus
      exact accepts_shift [goal .tupleElement] (by decide) hus
    · intro e hmem us hus
      refine accepts_tupleElement_of_type (head_append (hne e hmem) (hp e hmem)) ?_
      exact he e hmem _ us (.ender (by decide)) hus
  have hopen : predict (goal .type) (punct "(") = shift [goal .tupleElement] := by decide
  simpa using accepts_shift [goal .tupleElement] hopen helements

theorem reads_slice {element : List Lexeme} (he : Construct.Reads .type element) :
    Construct.Reads .type (punct "[" :: element ++ [punct "]"]) := by
  intro K us hK h
  have hrest : Accepts (goal .arrayRest :: K) (punct "]" :: us) := accepts_shift [] (by decide) h
  have helement := he (goal .arrayRest :: K) (punct "]" :: us) (.ender (by decide)) hrest
  have hopen : predict (goal .type) (punct "[") = shift [goal .type, goal .arrayRest] := by decide
  simpa using accepts_shift [goal .type, goal .arrayRest] hopen helement

theorem reads_array {element length : List Lexeme} (he : Construct.Reads .type element)
    (hl : IsValue length) (hp : ∀ t ∈ length, t.Proper) :
    Construct.Reads .type (punct "[" :: element ++ punct ";" :: length ++ [punct "]"]) := by
  intro K us hK h
  have hrest : Accepts (goal .arrayRest :: K) (punct ";" :: (length ++ punct "]" :: us)) :=
    accepts_shift [value] (by decide) (accepts_value hl hp h)
  have helement := he (goal .arrayRest :: K) _ (.ender (by decide)) hrest
  have hopen : predict (goal .type) (punct "[") = shift [goal .type, goal .arrayRest] := by decide
  simpa using accepts_shift [goal .type, goal .arrayRest] hopen helement

theorem reads_traitObject {bounds : List (List Lexeme)} (hne : bounds ≠ [])
    (hb : ∀ b ∈ bounds, Construct.Reads .bound b) :
    Construct.Reads .type (ident "dyn" :: separated (punct "+") false bounds) := by
  intro K us hK h
  have hbounds : Accepts (goal .bound :: goal .boundRest :: K)
      (separated (punct "+") false bounds ++ us) := by
    refine @accepts_separated _ (goal .boundRest :: K) _ _ _ _ (fun e => absurd e hne)
      (accepts_boundRest hK h) ?_ ?_
    · intro us hus
      exact accepts_shift [goal .bound, goal .boundRest] (by decide) hus
    · intro b hmem us hus
      exact hb b hmem _ us (follows_boundRest hK) hus
  have hdyn : predict (goal .type) (ident "dyn") = shift [goal .bound, goal .boundRest] := by
    decide
  exact accepts_shift [goal .bound, goal .boundRest] hdyn hbounds

theorem reads_named (hne : ts ≠ []) (hd : ts.head? ≠ some (ident "dyn"))
    (hpath : Construct.Reads .path ts) : Construct.Reads .type ts := by
  intro K us hK h
  have haccepts := hpath K us hK h
  obtain ⟨t, ts, rfl⟩ := List.exists_cons_of_ne_nil hne
  obtain ⟨t', rest, heq, hfeed⟩ := exists_of_accepts rfl haccepts
  cases heq
  have hpunct : ∀ text ∉ ["::"], ¬ t.isPunct text = true := by
    intro text htext hpunct
    rcases beginsType_of_feed_path hfeed with hroot | ⟨hk, -⟩
    · exact not_isWord_of_mem (by simp [text_eq_of_isWord hroot]) htext
        (isWord_of_isPunct hpunct)
    · simp [Lexeme.isPunct, hk] at hpunct
  have hdyn : ¬ t.isIdent "dyn" = true := fun hident => hd (by rw [eq_ident_of_isIdent hident]; rfl)
  exact accepts_expand [goal .path] ((if_neg (hpunct _ (by decide))).trans
    ((if_neg (hpunct _ (by decide))).trans ((if_neg (hpunct _ (by decide))).trans
      (if_neg hdyn)))) haccepts

theorem reads_lifetimeBound (hk : t.kind = .lifetime) : Construct.Reads .bound [t] :=
  fun _ _ _ h => accepts_shift [] (if_pos hk) h

theorem reads_pathBound (hpath : Construct.Reads .path ts) : Construct.Reads .bound ts := by
  intro K us hK h
  have haccepts := hpath K us hK h
  obtain ⟨t, rest, heq, hfeed⟩ := exists_of_accepts rfl haccepts
  rw [heq] at haccepts ⊢
  refine accepts_expand [goal .path] (if_neg ?_) haccepts
  intro hk
  rcases beginsType_of_feed_path hfeed with hroot | ⟨hk', -⟩
  · simp [Lexeme.isWord, hk] at hroot
  · rw [hk] at hk'
    cases hk'

theorem reads_path {root : Bool} {segments : List (List Lexeme)} (hne : segments ≠ [])
    (hnes : ∀ s ∈ segments, s ≠ []) (hp : ∀ s ∈ segments, ∀ t ∈ s, t.Proper)
    (hs : ∀ s ∈ segments, Construct.Reads .segment s) :
    Construct.Reads .path (rootMark root ++ separated (punct "::") false segments) := by
  intro K us hK h
  have hsegments : Accepts (goal .segment :: K) (separated (punct "::") false segments ++ us) := by
    refine @accepts_separated _ (goal .pathRest :: K) _ _ _ _ (fun e => absurd e hne)
      (accepts_pathRest hK h) ?_ ?_
    · intro us hus
      exact accepts_shift [goal .segment] (by decide) hus
    · intro s hmem us hus
      exact hs s hmem K us hK hus
  rw [List.append_assoc]
  cases root with
  | true => exact accepts_shift [goal .segment] (by decide) hsegments
  | false =>
    obtain ⟨s, segments, rfl⟩ := List.exists_cons_of_ne_nil hne
    obtain ⟨t, s, rfl⟩ := List.exists_cons_of_ne_nil (hnes s List.mem_cons_self)
    obtain ⟨t', rest, heq, hfeed⟩ := exists_of_accepts rfl hsegments
    cases heq
    have hroot : ¬ t.isWord "::" = true := by
      intro hw
      have hk := (ident_of_feed_segment hfeed).1
      rw [(hp _ List.mem_cons_self t List.mem_cons_self).eq_punct hw rfl] at hk
      cases hk
    exact accepts_expand [goal .segment] (if_neg hroot) hsegments

theorem reads_word (hk : t.kind = .ident) (ht : t.text ∉ Goal.unpathedWords) :
    Construct.Reads .segment [t] :=
  fun _ _ hK h => accepts_segment_word hk ht (accepts_segmentEnd (follows_pathRest hK) h)

theorem reads_generic {arguments : List Lexeme} (hk : t.kind = .ident)
    (ht : t.text ∉ Goal.unpathedWords) (ha : Construct.Reads .arguments arguments) :
    Construct.Reads .segment (t :: arguments) :=
  fun _ us _ h => accepts_segment_word hk ht (ha _ us h)

theorem reads_call {group : List Lexeme} (hk : t.kind = .ident)
    (ht : t.text ∉ Goal.unpathedWords) (hg : IsGroup .round group)
    (hp : ∀ t ∈ group, t.Proper) : Construct.Reads .segment (t :: group) := by
  intro K us hK h
  have hresult := accepts_result (follows_pathRest hK) h
  exact accepts_segment_word hk ht (accepts_parameters hg hp hresult)

theorem reads_callTo {group result : List Lexeme} (hk : t.kind = .ident)
    (ht : t.text ∉ Goal.unpathedWords) (hg : IsGroup .round group)
    (hp : ∀ t ∈ group, t.Proper) (hr : Construct.Reads .type result) :
    Construct.Reads .segment (t :: group ++ punct "->" :: result) := by
  intro K us hK h
  have hresult := hr (goal .pathRest :: K) us (follows_pathRest hK) h
  have harrow : Accepts (Symbol.result :: goal .pathRest :: K)
      (punct "->" :: (result ++ us)) := accepts_shift [goal .type] (by decide) hresult
  have hparameters := accepts_parameters hg hp harrow
  simpa using accepts_segment_word hk ht hparameters

theorem reads_arguments {trailing : Bool} {arguments : List (List Lexeme)}
    (ha : ∀ a ∈ arguments, Construct.Reads .argument a) :
    Construct.Reads .arguments
      (punct "<" :: separated (punct ",") trailing arguments ++ [punct ">"]) := by
  intro K us h
  have hclose : Accepts (goal .argument :: K) (punct ">" :: us) := accepts_shift [] (by decide) h
  have harguments : Accepts (goal .argument :: K)
      (separated (punct ",") trailing arguments ++ punct ">" :: us) := by
    refine @accepts_separated _ (goal .argumentRest :: K) _ _ _ _ (fun _ => hclose) ?_ ?_ ?_
    · cases trailing with
      | true => exact accepts_shift [goal .argument] (by decide) hclose
      | false => exact accepts_shift [] (by decide) h
    · intro us hus
      exact accepts_shift [goal .argument] (by decide) hus
    · intro a hmem us hus
      exact ha a hmem K us hus
  have hopen : predict segmentEnd (punct "<") = shift [goal .argument] := by decide
  simpa using accepts_shift [goal .argument] hopen harguments

theorem reads_plainArgument (hk : t.kind = .lifetime ∨ t.kind = .literal) :
    Construct.Reads .argument [t] := by
  intro K us h
  have hclose : ¬ t.isWord ">" = true := by
    rcases hk with hk | hk <;> simp [Lexeme.isWord, hk]
  exact accepts_shift [goal .argumentRest] ((if_neg hclose).trans (if_pos hk)) h

theorem reads_groupArgument {group : List Lexeme} (hg : IsGroup .curly group)
    (hp : ∀ t ∈ group, t.Proper) : Construct.Reads .argument group := by
  intro K us h
  obtain ⟨inside, hinside, rfl⟩ := hg
  have hclosing : Accepts (closing .curly :: goal .argumentRest :: K)
      (inside ++ punct Delimiter.curly.closer :: us) :=
    accepts_closing hinside (fun t ht => hp t (by simp [ht])) h
  have hopen : predict (goal .argument) (punct Delimiter.curly.opener) =
      shift [closing .curly, goal .argumentRest] := by decide
  simpa using accepts_shift [closing .curly, goal .argumentRest] hopen hclosing

theorem reads_binding {value : List Lexeme} (hk : t.kind = .ident) (hp : t.Proper)
    (hv : Construct.Reads .type value) : Construct.Reads .argument (t :: punct "=" :: value) := by
  intro K us h
  have hvalue := hv (goal .argumentRest :: K) us (.ender (by decide)) h
  have hequals : Accepts (argumentWord t.text :: K) (punct "=" :: (value ++ us)) :=
    accepts_shift [goal .type, goal .argumentRest] rfl hvalue
  have hclose : ¬ t.isWord ">" = true := by
    intro hw
    rw [hp.eq_punct hw rfl] at hk
    cases hk
  have hplain : ¬ (t.kind = .lifetime ∨ t.kind = .literal) := by simp [hk]
  have hcurly : ¬ t.isPunct Delimiter.curly.opener = true := by simp [Lexeme.isPunct, hk]
  exact accepts_shift [argumentWord t.text]
    ((if_neg hclose).trans ((if_neg hplain).trans ((if_neg hcurly).trans (if_pos hk)))) hequals

theorem reads_typeArgument (hts : Derives .type ts) (hp : ∀ t ∈ ts, t.Proper)
    (ht : Construct.Reads .type ts) : Construct.Reads .argument ts := by
  intro K us h
  refine accepts_argument_of_type (head_append (derives_ne_nil hts) hp) ?_
    (ht (goal .argumentRest :: K) us (.ender (by decide)) h)
  intro u rest heq
  obtain ⟨t, ts, rfl⟩ := List.exists_cons_of_ne_nil (derives_ne_nil hts)
  obtain ⟨rfl, htail⟩ := List.cons.inj heq
  obtain ⟨v, ts, rfl⟩ := List.exists_cons_of_ne_nil (ne_nil_of_derives_dyn hts)
  obtain ⟨rfl, -⟩ := List.cons.inj htail
  exact hp v (by simp)

/-- What is derived is passed. -/
theorem reads_of_derives {c : Construct} (h : Derives c ts) (hp : ∀ t ∈ ts, t.Proper) :
    c.Reads ts := by
  induction h with
  | reference lifetime mutable hl _ ih =>
    exact reads_reference hl (ih fun t ht => hp t (by simp [ht]))
  | @tuple trailing elements he ih =>
    have hitem : ∀ e ∈ elements, ∀ t ∈ e, t.Proper := fun e hmem t ht =>
      hp t (.tail _ (List.mem_append_left _ (mem_separated hmem ht)))
    exact reads_tuple (fun e hmem => derives_ne_nil (he e hmem)) hitem
      fun e hmem => ih e hmem (hitem e hmem)
  | slice _ ih => exact reads_slice (ih fun t ht => hp t (by simp [ht]))
  | array _ hl ih =>
    exact reads_array (ih fun t ht => hp t (by simp [ht])) hl fun t ht => hp t (by simp [ht])
  | traitObject hne hb ih =>
    exact reads_traitObject hne fun b hmem =>
      ih b hmem fun t ht => hp t (.tail _ (mem_separated hmem ht))
  | named hpath hd ih => exact reads_named (derives_ne_nil hpath) hd (ih hp)
  | lifetimeBound hl => exact reads_lifetimeBound hl
  | pathBound _ ih => exact reads_pathBound (ih hp)
  | @path root segments hne hs ih =>
    have hitem : ∀ s ∈ segments, ∀ t ∈ s, t.Proper := fun s hmem t ht =>
      hp t (List.mem_append_right _ (mem_separated hmem ht))
    exact reads_path hne (fun s hmem => derives_ne_nil (hs s hmem)) hitem
      fun s hmem => ih s hmem (hitem s hmem)
  | word hk ht => exact reads_word hk ht
  | generic hk ht _ ih => exact reads_generic hk ht (ih fun t ht => hp t (.tail _ ht))
  | call hk ht hg => exact reads_call hk ht hg fun t ht => hp t (.tail _ ht)
  | callTo hk ht hg _ ih =>
    exact reads_callTo hk ht hg (fun t ht => hp t (by simp [ht]))
      (ih fun t ht => hp t (by simp [ht]))
  | arguments trailing _ ih =>
    exact reads_arguments fun a hmem =>
      ih a hmem fun t ht => hp t (.tail _ (List.mem_append_left _ (mem_separated hmem ht)))
  | plainArgument hk => exact reads_plainArgument hk
  | groupArgument hg => exact reads_groupArgument hg hp
  | binding hk _ ih =>
    exact reads_binding hk (hp _ List.mem_cons_self) (ih fun t ht => hp t (by simp [ht]))
  | typeArgument ht ih => exact reads_typeArgument ht hp (ih hp)

end Microtypes
