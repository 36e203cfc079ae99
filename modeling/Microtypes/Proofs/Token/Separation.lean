import Microtypes.Proofs.Token.Shape

/-!
# Reading a token where it is set apart

A token that is written out may be followed by more text. `SetApart` says which texts leave it as it
is: for most tokens those that begin with a space or with one of the marks that are put directly
behind a token, for punctuation all that do not complete a longer operator or open a comment.
Reading then takes exactly the token (`readPiece_of_shaped`).
-/

namespace Microtypes

/-! ## Rules that do not apply -/

section Skips

variable {c : Char} {rest : List Char}

/-- No ASCII character is a digit of another script. -/
theorem isForeignDigit_of_lt (h : c.toNat < 128) : isForeignDigit c = false := by
  have hdecimal : ∀ r ∈ decimalRanges, 128 ≤ r.1 := by decide
  have hsign : ∀ r ∈ digitSignRanges, 128 ≤ r.1 := by decide
  rw [isForeignDigit, Bool.or_eq_false_iff]
  constructor
  · rw [Bool.eq_false_iff, Ne, inRanges_eq_true_iff]
    rintro ⟨r, hr, hlow, -⟩
    have := hdecimal r hr
    omega
  · rw [Bool.eq_false_iff, Ne, inRanges_eq_true_iff]
    rintro ⟨r, hr, hlow, -⟩
    have := hsign r hr
    omega

theorem toNat_of_isAlpha (h : c.isAlpha = true) :
    (65 ≤ c.toNat ∧ c.toNat ≤ 90) ∨ (97 ≤ c.toNat ∧ c.toNat ≤ 122) := by
  have hcase : c.isUpper = true ∨ c.isLower = true := Bool.or_eq_true_iff.mp h
  rcases hcase with hupper | hlower
  · exact Or.inl (of_decide_eq_true hupper)
  · have hrange := Bool.and_eq_true_iff.mp hlower
    exact Or.inr ⟨of_decide_eq_true hrange.1, of_decide_eq_true hrange.2⟩

theorem toNat_of_isDigit (h : c.isDigit = true) : 48 ≤ c.toNat ∧ c.toNat ≤ 57 := by
  have hrange := Bool.and_eq_true_iff.mp h
  exact ⟨of_decide_eq_true hrange.1, of_decide_eq_true hrange.2⟩

theorem toNat_of_isIdentRest (h : isIdentRest c = true) :
    (48 ≤ c.toNat ∧ c.toNat ≤ 57) ∨ (65 ≤ c.toNat ∧ c.toNat ≤ 90) ∨
      (97 ≤ c.toNat ∧ c.toNat ≤ 122) ∨ c.toNat = 95 := by
  simp only [isIdentRest, Char.isAlphanum, Bool.or_eq_true, beq_iff_eq] at h
  rcases h with (h | h) | h
  · exact Or.inr ((toNat_of_isAlpha h).imp_right Or.inl)
  · exact Or.inl (toNat_of_isDigit h)
  · exact Or.inr (Or.inr (Or.inr (by rw [h]; rfl)))

theorem isBlank_of_isIdentRest (h : isIdentRest c = true) : isBlank c = false := by
  have hrange := toNat_of_isIdentRest h
  simp only [isBlank, Bool.or_eq_false_iff, Bool.and_eq_false_iff, decide_eq_false_iff_not,
    beq_eq_false_iff_ne]
  omega

theorem blankRule_skips (h : isBlank c = false) : blankRule c rest = none := by
  simp [blankRule, h]

theorem lineCommentRule_skips (h : c = '/' → rest.head? ≠ some '/') :
    lineCommentRule c rest = none := by
  rw [lineCommentRule, if_neg]
  exact fun hstart => h hstart.1 hstart.2

theorem blockCommentRule_skips (h : c = '/' → rest.head? ≠ some '*') :
    blockCommentRule c rest = none := by
  rw [blockCommentRule, if_neg]
  exact fun hstart => h hstart.1 hstart.2

theorem rawStringRule_skips (hr : c = 'r' → rawStringHashes? rest = none)
    (hb : ∀ afterR, c = 'b' → rest = 'r' :: afterR → rawStringHashes? afterR = none) :
    rawStringRule c rest = none := by
  unfold rawStringRule
  split
  · rw [hr rfl]
    rfl
  · next afterR => rw [hb afterR rfl rfl]; rfl
  · rfl

theorem stringRule_skips (hc : c ≠ '"') (hb : c = 'b' → rest.head? ≠ some '"') :
    stringRule c rest = none := by
  unfold stringRule
  split
  · exact absurd rfl hc
  · exact absurd rfl (hb rfl)
  · rfl

theorem charRule_skips (hc : c = '\'' → quotedCharExtent rest = none)
    (hb : c = 'b' → rest.head? ≠ some '\'') : charRule c rest = none := by
  unfold charRule
  split
  · rw [hc rfl]
    rfl
  · exact absurd rfl (hb rfl)
  · rfl

theorem identRule_skips (h : isIdentStart c = false) : identRule c rest = none := by
  have hr : ∀ others, c :: rest ≠ 'r' :: '#' :: others := by
    rintro others ⟨⟩
    simp [isIdentStart] at h
  rw [identRule, identExtent_eq hr, if_neg (by simpa [startsIdent] using h)]
  rfl

theorem numberRule_skips (hforeign : isForeignDigit c = false) (h : c.isDigit = false) :
    numberRule c rest = none := by
  simp [numberRule, hforeign, numberExtent, h]

/-- Where neither a blank nor a comment begins, the rules for tokens decide. -/
theorem readPiece_of_ne_slash (hblank : isBlank c = false) (hslash : c ≠ '/') :
    readPiece c rest =
      ([rawStringRule, stringRule, charRule, identRule, numberRule, lifetimeRule,
        punctRule].findSome? fun rule => rule c rest).getD (.error (.unexpected c)) := by
  simp only [readPiece, lexicalRules, List.findSome?_cons, blankRule_skips hblank,
    lineCommentRule_skips fun hc => absurd hc hslash,
    blockCommentRule_skips fun hc => absurd hc hslash]

end Skips

/-! ## What may follow a token -/

/-- The characters that come right behind a token which is no punctuation. -/
def separators : List Char :=
  [' ', ',', ';', '>', ')', ']', ':', '<', '?', '(']

/-- Whether the text after a token leaves it as it is. -/
def SetApart (kind : TokenKind) (text after : List Char) : Prop :=
  match kind with
  | .punct => ∀ c d, text = [c] → after.head? = some d →
      (c, d) ∉ pairedPuncts ∧ (c = '/' → d ≠ '/' ∧ d ≠ '*')
  | .doc => (∃ body, text = '/' :: '/' :: body) → after = []
  | _ => ∀ d ∈ after.head?, d ∈ separators

/-- Whether a character right behind a word ends it and makes no quotation of it. -/
structure EndsWord (d : Char) : Prop where
  rest : isIdentRest d = false
  mark : d ≠ '#'
  double : d ≠ '"'
  single : d ≠ '\''

/-- A separator neither continues a word or a number nor begins a quotation. -/
theorem separators_plain {d : Char} (h : d ∈ separators) :
    isIdentRest d = false ∧ d ≠ '#' ∧ d ≠ '.' ∧ d ≠ '"' ∧ d ≠ '\'' := by
  have hall : ∀ d ∈ separators,
      isIdentRest d = false ∧ d ≠ '#' ∧ d ≠ '.' ∧ d ≠ '"' ∧ d ≠ '\'' :=
    forall_mem_of_all (by decide)
  exact hall d h

theorem endsWord_of_separators {d : Char} (h : d ∈ separators) : EndsWord d := by
  obtain ⟨hrest, hmark, -, hdouble, hsingle⟩ := separators_plain h
  exact ⟨hrest, hmark, hdouble, hsingle⟩

theorem all_of_runLength {p : Char → Bool} {text : List Char}
    (h : runLength p text = text.length) : ∀ c ∈ text, p c = true := by
  have hall := all_take_runLength p text
  rwa [h, List.take_length] at hall

theorem head_append_cases {text after : List Char} {d : Char} (h : (text ++ after).head? = some d) :
    d ∈ text ∨ after.head? = some d := by
  cases text with
  | nil => exact Or.inr h
  | cons c others =>
    cases h
    exact Or.inl List.mem_cons_self

/-! ## Words -/

theorem rawStringHashes_eq_none {text : List Char}
    (h : ∀ d, text.head? = some d → d ≠ '#' ∧ d ≠ '"') : rawStringHashes? text = none := by
  cases text with
  | nil => rfl
  | cons d others =>
    obtain ⟨hmark, hquote⟩ := h d rfl
    simp [rawStringHashes?, runLength, hmark, hquote]

theorem rawStringHashes_cons (text : List Char) :
    rawStringHashes? ('#' :: text) = (rawStringHashes? text).map (· + 1) := by
  have hrun : runLength (· == '#') ('#' :: text) = runLength (· == '#') text + 1 := by
    simp [runLength]
  simp only [rawStringHashes?, hrun, List.drop_succ_cons]
  by_cases h : (text.drop (runLength (· == '#') text)).head? = some '"'
  · rw [if_pos h, if_pos h]
    rfl
  · rw [if_neg h, if_neg h]
    rfl

/-- An identifier is a run of its characters, or a raw mark and such a run. -/
theorem identExtent_cases {text : List Char} (h : identExtent text = some text.length) :
    (∀ d ∈ text, isIdentRest d = true) ∨
      ∃ name, text = 'r' :: '#' :: name ∧ startsIdent name = true := by
  unfold identExtent at h
  split at h
  · next name =>
    split at h
    · next hname => exact Or.inr ⟨name, rfl, hname⟩
    · simp at h
  · split at h
    · exact Or.inl (all_of_runLength (Option.some.inj h))
    · cases h

/-- The characters of a word that ends begin no quotation. -/
theorem head_of_run {run after : List Char} (hrun : ∀ d ∈ run, isIdentRest d = true)
    (hafter : ∀ d ∈ after.head?, EndsWord d) :
    ∀ d, (run ++ after).head? = some d → d ≠ '#' ∧ d ≠ '"' ∧ d ≠ '\'' := by
  intro d hd
  rcases head_append_cases hd with hd | hd
  · have hrest := hrun d hd
    refine ⟨?_, ?_, ?_⟩ <;> rintro rfl <;> cases hrest
  · have hend := hafter d hd
    exact ⟨hend.mark, hend.double, hend.single⟩

theorem rawStringRule_skips_ident {c : Char} {more after : List Char}
    (h : identExtent (c :: more) = some (c :: more).length)
    (hafter : ∀ d ∈ after.head?, EndsWord d) : rawStringRule c (more ++ after) = none := by
  rcases identExtent_cases h with hall | ⟨name, he, hname⟩
  · have hmore : ∀ d ∈ more, isIdentRest d = true := fun d hd => hall d (List.mem_cons_of_mem _ hd)
    refine rawStringRule_skips (fun _ => ?_) (fun afterR _ hr => ?_)
    · refine rawStringHashes_eq_none fun d hd => ?_
      obtain ⟨hmark, hdouble, -⟩ := head_of_run hmore hafter d hd
      exact ⟨hmark, hdouble⟩
    · cases more with
      | nil =>
        have hr' := hafter 'r' (by rw [← List.nil_append after, hr]; rfl)
        cases hr'.rest
      | cons e more =>
        obtain ⟨-, rfl⟩ := List.cons.inj hr
        refine rawStringHashes_eq_none fun d hd => ?_
        obtain ⟨hmark, hdouble, -⟩ :=
          head_of_run (fun d hd => hmore d (List.mem_cons_of_mem _ hd)) hafter d hd
        exact ⟨hmark, hdouble⟩
  · -- Behind a raw mark stands a name, and no second mark or quote.
    obtain ⟨rfl, rfl⟩ := List.cons.inj he
    refine rawStringRule_skips (fun _ => ?_) (fun _ hb => by cases hb)
    rw [List.cons_append, rawStringHashes_cons, rawStringHashes_eq_none, Option.map_none]
    intro d hd
    cases name with
    | nil => cases hname
    | cons e name =>
      cases hd
      refine ⟨?_, ?_⟩ <;> rintro rfl <;> cases hname

theorem readPiece_ident {c : Char} {more after : List Char}
    (h : identExtent (c :: more) = some (c :: more).length)
    (hafter : ∀ d ∈ after.head?, EndsWord d) :
    readPiece c (more ++ after) = .ok ⟨some .ident, more.length⟩ := by
  have hstart : isIdentStart c = true := startsIdent_of_identExtent h
  have hne : ∀ d : Char, isIdentStart d = false → c ≠ d := by
    rintro d hd rfl
    rw [hd] at hstart
    cases hstart
  have hbyte : c = 'b' → ∀ d, (more ++ after).head? = some d → d ≠ '"' ∧ d ≠ '\'' := by
    intro hb d hd
    rcases identExtent_cases h with hall | ⟨name, he, -⟩
    · exact (head_of_run (fun d hd => hall d (List.mem_cons_of_mem _ hd)) hafter d hd).2
    · rw [hb] at he
      cases he
  have hstring : stringRule c (more ++ after) = none :=
    stringRule_skips (hne _ rfl) fun hb hd => (hbyte hb _ hd).1 rfl
  have hchar : charRule c (more ++ after) = none :=
    charRule_skips (fun hc => absurd hc (hne _ rfl)) fun hb hd => (hbyte hb _ hd).2 rfl
  have hextent : identExtent (c :: (more ++ after)) = some (more.length + 1) := by
    have htake := (identExtent_take_append h after fun d hd =>
      ⟨(hafter d hd).rest, (hafter d hd).mark⟩).2.2
    rwa [List.take_length] at htake
  rw [readPiece_of_ne_slash (isBlank_of_isIdentRest (isIdentRest_of_isIdentStart hstart))
    (hne '/' rfl)]
  simp only [List.findSome?_cons, rawStringRule_skips_ident h hafter, hstring, hchar, identRule,
    hextent, Option.map_some, Option.getD_some]
  rfl

/-! ## Numbers and lifetimes -/

theorem readPiece_number {c : Char} {more after : List Char}
    (h : numberExtent (c :: more) = some (c :: more).length)
    (hafter : ∀ d ∈ after.head?, d ∈ separators) :
    readPiece c (more ++ after) = .ok ⟨some .literal, more.length⟩ := by
  have hdigit : c.isDigit = true := by
    unfold numberExtent at h
    split at h
    · assumption
    · cases h
  have hne : ∀ d : Char, d.isDigit = false → c ≠ d := by
    rintro d hd rfl
    rw [hd] at hdigit
    cases hdigit
  have hrest := isIdentRest_of_isDigit hdigit
  have hforeign : isForeignDigit c = false := by
    have := toNat_of_isIdentRest hrest
    exact isForeignDigit_of_lt (by omega)
  have hident : isIdentStart c = false := by
    have hrange := toNat_of_isDigit hdigit
    rw [isIdentStart, Bool.or_eq_false_iff]
    constructor
    · rw [Bool.eq_false_iff]
      intro halpha
      have := toNat_of_isAlpha halpha
      omega
    · exact beq_eq_false_iff_ne.mpr (hne '_' rfl)
  have hextent : numberExtent (c :: (more ++ after)) = some (more.length + 1) := by
    have htake := (numberExtent_take_append h after fun d hd =>
      ⟨(separators_plain (hafter d hd)).1, (separators_plain (hafter d hd)).2.2.1⟩).2.2
    rwa [List.take_length] at htake
  rw [readPiece_of_ne_slash (isBlank_of_isIdentRest hrest) (hne '/' rfl)]
  simp only [List.findSome?_cons,
    rawStringRule_skips (fun hc => absurd hc (hne 'r' rfl)) fun _ hc => absurd hc (hne 'b' rfl),
    stringRule_skips (hne '"' rfl) fun hc => absurd hc (hne 'b' rfl),
    charRule_skips (fun hc => absurd hc (hne '\'' rfl)) fun hc => absurd hc (hne 'b' rfl),
    identRule_skips hident, numberRule, hforeign, hextent, Option.map_some]
  rfl

theorem readPiece_lifetime {c : Char} {more after : List Char} (h : LifetimeText (c :: more))
    (hafter : ∀ d ∈ after.head?, d ∈ separators) :
    readPiece c (more ++ after) = .ok ⟨some .lifetime, more.length⟩ := by
  obtain ⟨name, he, hname, hall⟩ := h
  obtain ⟨rfl, rfl⟩ := List.cons.inj he
  have hrun : runLength isIdentRest (more ++ after) = more.length :=
    runLength_append hall fun d hd => (separators_plain (hafter d hd)).1
  have hstart : startsIdent (more ++ after) = true := by
    cases more with
    | nil => cases hname
    | cons d name => exact hname
  -- A name of one character is not followed by a closing quote.
  have hquoted : quotedCharExtent (more ++ after) = none := by
    cases more with
    | nil => cases hname
    | cons d name =>
      rw [List.cons_append]
      unfold quotedCharExtent
      split
      · next he =>
        obtain ⟨rfl, -⟩ := List.cons.inj he
        cases hname
      · next he =>
        obtain ⟨-, he⟩ := List.cons.inj he
        have := head_of_run (fun d hd => hall d (List.mem_cons_of_mem _ hd))
          (fun d hd => endsWord_of_separators (hafter d hd)) '\'' (by rw [he]; rfl)
        exact absurd rfl this.2.2
      · rfl
  have hraw : rawStringRule '\'' (more ++ after) = none := rfl
  have hstring : stringRule '\'' (more ++ after) = none := rfl
  have hchar : charRule '\'' (more ++ after) = none := charRule_skips (fun _ => hquoted) (by simp)
  have hident : identRule '\'' (more ++ after) = none := identRule_skips rfl
  have hnumber : numberRule '\'' (more ++ after) = none :=
    numberRule_skips (isForeignDigit_of_lt (by decide)) rfl
  have hlifetime : lifetimeRule '\'' (more ++ after) =
      some (.ok (.token .lifetime (1 + more.length))) := by
    rw [lifetimeRule, if_pos rfl, if_pos hstart, hrun]
  rw [readPiece_of_ne_slash rfl (by decide)]
  simp only [List.findSome?_cons, hraw, hstring, hchar, hident, hnumber, hlifetime,
    Option.getD_some, Reading.token]
  rw [Nat.add_sub_cancel_left]

/-! ## Quotations -/

theorem readPiece_doubleQuote (inside : List Char) :
    readPiece '"' inside = stringReading 1 inside := by
  have hraw : rawStringRule '"' inside = none := rfl
  have hstring : stringRule '"' inside = some (stringReading 1 inside) := rfl
  rw [readPiece_of_ne_slash rfl (by decide), List.findSome?_cons, hraw, List.findSome?_cons,
    hstring]
  rfl

theorem readPiece_byteString (inside : List Char) :
    readPiece 'b' ('"' :: inside) = stringReading 2 inside := by
  have hraw : rawStringRule 'b' ('"' :: inside) = none := rfl
  have hstring : stringRule 'b' ('"' :: inside) = some (stringReading 2 inside) := rfl
  rw [readPiece_of_ne_slash rfl (by decide), List.findSome?_cons, hraw, List.findSome?_cons,
    hstring]
  rfl

theorem readPiece_rawString {afterR : List Char} {hashes : Nat}
    (h : rawStringHashes? afterR = some hashes) :
    readPiece 'r' afterR = rawStringReading 1 hashes afterR := by
  have hraw : rawStringRule 'r' afterR = some (rawStringReading 1 hashes afterR) := by
    rw [rawStringRule, h]
    rfl
  rw [readPiece_of_ne_slash rfl (by decide), List.findSome?_cons, hraw]
  rfl

theorem readPiece_rawByteString {afterR : List Char} {hashes : Nat}
    (h : rawStringHashes? afterR = some hashes) :
    readPiece 'b' ('r' :: afterR) = rawStringReading 2 hashes afterR := by
  have hraw : rawStringRule 'b' ('r' :: afterR) = some (rawStringReading 2 hashes afterR) := by
    rw [rawStringRule, h]
    rfl
  rw [readPiece_of_ne_slash rfl (by decide), List.findSome?_cons, hraw]
  rfl

theorem readPiece_singleQuote {inside : List Char} {n : Nat}
    (h : quotedCharExtent inside = some n) :
    readPiece '\'' inside = .ok (.token .literal (1 + n)) := by
  have hraw : rawStringRule '\'' inside = none := rfl
  have hstring : stringRule '\'' inside = none := rfl
  have hchar : charRule '\'' inside = some (.ok (.token .literal (1 + n))) := by
    rw [charRule, h]
    rfl
  rw [readPiece_of_ne_slash rfl (by decide), List.findSome?_cons, hraw, List.findSome?_cons,
    hstring, List.findSome?_cons, hchar]
  rfl

theorem readPiece_byteChar {inside : List Char} {n : Nat}
    (h : quotedCharExtent inside = some n) :
    readPiece 'b' ('\'' :: inside) = .ok (.token .literal (2 + n)) := by
  have hraw : rawStringRule 'b' ('\'' :: inside) = none := rfl
  have hstring : stringRule 'b' ('\'' :: inside) = none := rfl
  have hchar : charRule 'b' ('\'' :: inside) = some (.ok (.token .literal (2 + n))) := by
    rw [charRule, h]
    rfl
  rw [readPiece_of_ne_slash rfl (by decide), List.findSome?_cons, hraw, List.findSome?_cons,
    hstring, List.findSome?_cons, hchar]
  rfl

/-- A raw string reaches to its own end, whatever follows. -/
theorem rawStringReading_append {hashes : Nat} {inside : List Char}
    (h : rawStringExtent hashes inside = some inside.length) (before : Nat) (after : List Char) :
    rawStringReading before hashes (List.replicate hashes '#' ++ '"' :: inside ++ after) =
      .ok (.token .literal (before + hashes + 1 + inside.length)) := by
  have hdrop : (List.replicate hashes '#' ++ '"' :: inside ++ after).drop (hashes + 1) =
      inside ++ after := by
    rw [List.append_assoc, ← List.drop_drop, List.drop_left' (List.length_replicate ..)]
    rfl
  have hextent : rawStringExtent hashes (inside ++ after) = some inside.length := by
    have htake := (rawStringExtent_take_append h).2 after
    rwa [List.take_length] at htake
  rw [rawStringReading, hdrop, hextent]

/-- A literal other than a number is read back whatever follows. -/
theorem readPiece_literal {c : Char} {more after : List Char} (h : LiteralText (c :: more))
    (hafter : ∀ d ∈ after.head?, d ∈ separators) :
    readPiece c (more ++ after) = .ok ⟨some .literal, more.length⟩ := by
  generalize htext : c :: more = text at h
  cases h with
  | number h =>
    subst htext
    exact readPiece_number h hafter
  | @string byte inside h =>
    have hextent : stringExtent (inside ++ after) = some inside.length := by
      have htake := (stringExtent_take_append h).2 after
      rwa [List.take_length] at htake
    cases byte with
    | false =>
      obtain ⟨rfl, rfl⟩ := List.cons.inj htext
      rw [readPiece_doubleQuote, stringReading, hextent]
      simp [Reading.token]
    | true =>
      obtain ⟨rfl, rfl⟩ : c = 'b' ∧ more = '"' :: inside := List.cons.inj htext
      rw [List.cons_append, readPiece_byteString, stringReading, hextent]
      simp [Reading.token]
      omega
  | @rawString byte hashes inside h =>
    have hhashes : rawStringHashes? (List.replicate hashes '#' ++ '"' :: inside ++ after) =
        some hashes := by
      rw [List.append_assoc, List.cons_append, rawStringHashes_replicate]
    cases byte with
    | false =>
      obtain ⟨rfl, rfl⟩ := List.cons.inj htext
      rw [readPiece_rawString hhashes, rawStringReading_append h]
      simp [Reading.token]
      omega
    | true =>
      obtain ⟨rfl, rfl⟩ : c = 'b' ∧ more = 'r' :: (List.replicate hashes '#' ++ '"' :: inside) :=
        List.cons.inj htext
      rw [List.cons_append, readPiece_rawByteString hhashes,
        rawStringReading_append h]
      simp [Reading.token]
      omega
  | @quotedChar byte inside h =>
    have hextent : quotedCharExtent (inside ++ after) = some inside.length := by
      have htake := (quotedCharExtent_take_append h).2 after
      rwa [List.take_length] at htake
    cases byte with
    | false =>
      obtain ⟨rfl, rfl⟩ := List.cons.inj htext
      rw [readPiece_singleQuote hextent]
      simp [Reading.token]
    | true =>
      obtain ⟨rfl, rfl⟩ : c = 'b' ∧ more = '\'' :: inside := List.cons.inj htext
      rw [List.cons_append, readPiece_byteChar hextent]
      simp [Reading.token]
      omega

/-! ## Punctuation and comments -/

theorem singlePuncts_plain {c : Char} (h : c ∈ singlePuncts) :
    isBlank c = false ∧ c ≠ 'r' ∧ c ≠ 'b' ∧ c ≠ '"' ∧ c ≠ '\'' ∧ isIdentStart c = false ∧
      isForeignDigit c = false ∧ c.isDigit = false := by
  have hall : ∀ c ∈ singlePuncts, isBlank c = false ∧ c ≠ 'r' ∧ c ≠ 'b' ∧ c ≠ '"' ∧ c ≠ '\'' ∧
      isIdentStart c = false ∧ c.toNat < 128 ∧ c.isDigit = false :=
    forall_mem_of_all (by decide)
  obtain ⟨hblank, hr, hb, hdouble, hsingle, hstart, hlt, hdigit⟩ := hall c h
  exact ⟨hblank, hr, hb, hdouble, hsingle, hstart, isForeignDigit_of_lt hlt, hdigit⟩

/-- Where a mark stands that opens no comment, the rule for punctuation decides. -/
theorem readPiece_of_mem_singlePuncts {c : Char} {rest : List Char} {result : Reading}
    (h : c ∈ singlePuncts) (hline : c = '/' → rest.head? ≠ some '/')
    (hblock : c = '/' → rest.head? ≠ some '*') (hpunct : punctRule c rest = some (.ok result)) :
    readPiece c rest = .ok result := by
  obtain ⟨hblank, hr, hb, hdouble, hsingle, hstart, hforeign, hdigit⟩ := singlePuncts_plain h
  have hlifetime : lifetimeRule c rest = none := by rw [lifetimeRule, if_neg hsingle]
  simp only [readPiece, lexicalRules, List.findSome?_cons, blankRule_skips hblank,
    lineCommentRule_skips hline, blockCommentRule_skips hblock,
    rawStringRule_skips (fun hc => absurd hc hr) fun _ hc => absurd hc hb,
    stringRule_skips hdouble fun hc => absurd hc hb,
    charRule_skips (fun hc => absurd hc hsingle) fun hc => absurd hc hb,
    identRule_skips hstart, numberRule_skips hforeign hdigit, hlifetime, hpunct, Option.getD_some]

theorem readPiece_paired {c d : Char} (h : (c, d) ∈ pairedPuncts) (after : List Char) :
    readPiece c (d :: after) = .ok ⟨some .punct, 1⟩ := by
  have hall : ∀ p ∈ pairedPuncts, p.1 ∈ singlePuncts ∧ p.1 ≠ '/' := by decide
  obtain ⟨hsingle, hslash⟩ := hall (c, d) h
  refine readPiece_of_mem_singlePuncts hsingle (fun hc => absurd hc hslash)
    (fun hc => absurd hc hslash) ?_
  rw [punctRule, if_pos (by simpa using h)]
  rfl

theorem readPiece_single {c : Char} {after : List Char} (h : c ∈ singlePuncts)
    (hafter : ∀ d, after.head? = some d → (c, d) ∉ pairedPuncts ∧ (c = '/' → d ≠ '/' ∧ d ≠ '*')) :
    readPiece c after = .ok ⟨some .punct, 0⟩ := by
  have hpair : ¬ (after.head?.any fun d => pairedPuncts.contains (c, d)) = true := by
    rw [Option.any_eq_true_iff_get]
    rintro ⟨hsome, hmem⟩
    exact (hafter _ (Option.some_get hsome).symm).1 (by simpa using hmem)
  refine readPiece_of_mem_singlePuncts h (fun hc hd => ((hafter _ hd).2 hc).1 rfl)
    (fun hc hd => ((hafter _ hd).2 hc).2 rfl) ?_
  rw [punctRule, if_neg hpair, if_pos (by simpa using h)]
  rfl

theorem readPiece_punct {c : Char} {more after : List Char} (h : PunctText (c :: more))
    (hafter : SetApart .punct (c :: more) after) :
    readPiece c (more ++ after) = .ok ⟨some .punct, more.length⟩ := by
  generalize htext : c :: more = text at h
  cases h with
  | single h =>
    obtain ⟨rfl, rfl⟩ := List.cons.inj htext
    exact readPiece_single h fun d hd => hafter c d rfl hd
  | paired h =>
    obtain ⟨rfl, rfl⟩ := List.cons.inj htext
    exact readPiece_paired h after

/-- A line doc comment reaches to the end of the line, less the blanks there. -/
theorem readPiece_lineDoc {rest : List Char} (h : opensDoc '/' rest = true) :
    readPiece '/' rest =
      .ok (.token .doc (trimEnd ('/' :: rest.takeWhile (· ≠ '\n'))).length) := by
  obtain ⟨others, rfl, -⟩ := exists_of_opensDoc h
  have hline : lineCommentRule '/' ('/' :: '/' :: others) = some (.ok
      (.token .doc (trimEnd ('/' :: ('/' :: '/' :: others).takeWhile (· ≠ '\n'))).length)) := by
    rw [lineCommentRule, if_pos ⟨rfl, rfl⟩]
    exact if_pos h
  rw [readPiece, lexicalRules, List.findSome?_cons, blankRule_skips rfl, List.findSome?_cons, hline]
  rfl

theorem readPiece_blockDoc {body : List Char} (hdoc : opensDoc '*' ('*' :: body) = true)
    (hempty : ['*', '*', '/'].isPrefixOf ('*' :: body) = false)
    (hclose : commentExtent 0 ('/' :: '*' :: body) = some ('/' :: '*' :: body).length)
    (after : List Char) :
    readPiece '/' ('*' :: (body ++ after)) = .ok ⟨some .doc, body.length + 1⟩ := by
  have hextent : commentExtent 0 ('/' :: '*' :: (body ++ after)) = some (body.length + 2) := by
    have htake := (commentExtent_take_append hclose).2 after
    rwa [List.take_length] at htake
  obtain ⟨others, he, hthird⟩ := exists_of_opensDoc hdoc
  obtain rfl : body = '*' :: others := (List.cons.inj he).2
  cases others with
  | nil => simp [commentExtent] at hclose
  | cons d others =>
    have hdoc' : opensDoc '*' ('*' :: '*' :: d :: (others ++ after)) = true := opensDoc_cons hthird
    have hempty' : ['*', '*', '/'].isPrefixOf ('*' :: '*' :: d :: (others ++ after)) = false :=
      hempty
    have hline : lineCommentRule '/' ('*' :: '*' :: d :: (others ++ after)) = none :=
      lineCommentRule_skips (by simp)
    have hblock : blockCommentRule '/' ('*' :: '*' :: d :: (others ++ after)) =
        some (.ok (.token .doc (others.length + 4))) := by
      rw [blockCommentRule, if_pos ⟨rfl, rfl⟩]
      simp only [List.cons_append, List.length_cons] at hextent
      simp only [hextent, hdoc', hempty', Bool.not_false, Bool.and_self, if_true]
    rw [readPiece, lexicalRules, List.findSome?_cons, blankRule_skips rfl, List.findSome?_cons]
    simp only [List.cons_append, hline]
    rw [List.findSome?_cons, hblock]
    rfl

theorem readPiece_doc {c : Char} {more after : List Char} (h : DocText (c :: more))
    (hafter : SetApart .doc (c :: more) after) :
    readPiece c (more ++ after) = .ok ⟨some .doc, more.length⟩ := by
  generalize htext : c :: more = text at h
  cases h with
  | @line body hdoc hfeed htrim =>
    obtain ⟨rfl, rfl⟩ := List.cons.inj htext
    rw [hafter ⟨body, rfl⟩, List.append_nil, readPiece_lineDoc hdoc]
    have hall : ∀ d ∈ '/' :: body, decide (d ≠ '\n') = true := by
      intro d hd
      rcases List.mem_cons.mp hd with rfl | hd
      · rfl
      · exact decide_eq_true fun e => hfeed (e ▸ hd)
    have hline : ('/' :: body).takeWhile (· ≠ '\n') = '/' :: body := by
      rw [← List.append_nil ('/' :: body), List.takeWhile_append_of_pos hall]
      simp
    rw [hline, htrim]
    rfl
  | @block body hdoc hempty hclose =>
    obtain ⟨rfl, rfl⟩ := List.cons.inj htext
    exact readPiece_blockDoc hdoc hempty hclose after

/-- A token that is set apart from what follows is read back. -/
theorem readPiece_of_shaped {kind : TokenKind} {c : Char} {more after : List Char}
    (h : ShapedAs kind (c :: more)) (hafter : SetApart kind (c :: more) after) :
    readPiece c (more ++ after) = .ok ⟨some kind, more.length⟩ := by
  cases kind with
  | ident => exact readPiece_ident h fun d hd => endsWord_of_separators (hafter d hd)
  | lifetime => exact readPiece_lifetime h hafter
  | literal => exact readPiece_literal h hafter
  | punct => exact readPiece_punct h hafter
  | doc => exact readPiece_doc h hafter

end Microtypes
