import Microtypes.Proofs.Token.Separation

/-!
# Pieces in front of a line end

A piece that lies within a text is read the same where the text is cut off, or a line ends, behind
it. Every rule is steady in this sense (`steady_of_mem_lexicalRules`), and so what a source is cut
into does not change when lines are put behind it (`segments_append`), or when it is cut off before
the place of a fault (`segments_take_of_error`). Most rules are firm: any blank or curly bracket
will do.
-/

namespace Microtypes

/-- Whether a text is empty or begins with a line end. -/
def EndsLine (after : List Char) : Prop :=
  ∀ c ∈ after.head?, c = '\n'

/-- Whether no piece goes on with a character: a blank or a curly bracket. -/
def isBoundary (c : Char) : Bool :=
  isBlank c || c == '{' || c == '}'

/-- Whether a text is empty or begins with a boundary. -/
def EndsBoundary (after : List Char) : Prop :=
  ∀ c ∈ after.head?, isBoundary c = true

variable {c d : Char} {front rest after mark : List Char} {reading : Reading} {n : Nat}

theorem endsLine_nil : EndsLine [] := by
  rintro c ⟨⟩

theorem endsLine_cons (text : List Char) : EndsLine ('\n' :: text) := by
  rintro c ⟨⟩
  rfl

theorem isBoundary_of_isBlank (h : isBlank c = true) : isBoundary c = true := by
  simp [isBoundary, h]

theorem isBoundary_of_isIdentRest (h : isIdentRest c = true) : isBoundary c = false := by
  have hne {d : Char} (hd : isIdentRest d = false) : c ≠ d := by
    rintro rfl
    cases h.symm.trans hd
  simp [isBoundary, isBlank_of_isIdentRest h, hne (d := '{') rfl, hne (d := '}') rfl]

theorem EndsLine.endsBoundary (h : EndsLine after) : EndsBoundary after := by
  intro c hc
  rw [h c hc]
  rfl

theorem EndsBoundary.ne (h : EndsBoundary after) (hd : isBoundary d = false) :
    after.head? ≠ some d := by
  intro hhead
  rw [h d hhead] at hd
  cases hd

/-- A boundary is none of the characters that no boundary is. -/
theorem EndsBoundary.apart {p : Char → Bool} (h : EndsBoundary after)
    (hp : ∀ c, p c = true → isBoundary c = false) : ∀ d ∈ after.head?, p d = false := by
  intro d hd
  cases hpd : p d with
  | false => rfl
  | true => cases (h d hd).symm.trans (hp d hpd)

/-! ## What lies before a line end -/

/-- A mark does not reach beyond a character that is not in it. -/
theorem isPrefix_of_head (hafter : ∀ d ∈ after.head?, d ∉ mark) (h : mark <+: front ++ after) :
    mark <+: front := by
  induction mark generalizing front with
  | nil => exact List.nil_prefix
  | cons d mark ih =>
    cases front with
    | nil =>
      obtain ⟨tail, rfl⟩ := h
      exact absurd List.mem_cons_self (hafter d rfl)
    | cons e front =>
      rw [List.cons_append, List.cons_prefix_cons] at h
      have hmark : ∀ d ∈ after.head?, d ∉ mark := fun d hd hmem => hafter d hd (.tail _ hmem)
      exact List.cons_prefix_cons.mpr ⟨h.1, ih hmark h.2⟩

theorem head_of_append (hd : after.head? ≠ some d) (h : (front ++ after).head? = some d) :
    (front ++ rest).head? = some d := by
  cases front with
  | nil => exact absurd h hd
  | cons e front => exact h

theorem any_head_of_append {p : Char → Bool} (hp : ∀ d ∈ after.head?, p d = false)
    (h : (front ++ after).head?.any p = true) : (front ++ rest).head?.any p = true := by
  cases front with
  | nil =>
    cases after with
    | nil => cases h
    | cons d after =>
      have hd : p d = true := h
      rw [hp d rfl] at hd
      cases hd
  | cons e front => exact h

/-- A run that ends within a text ends there too in front of a character that is not in it. -/
theorem runLength_of_append {p : Char → Bool} (hp : ∀ d ∈ after.head?, p d = false)
    (h : runLength p (front ++ rest) ≤ front.length) :
    runLength p (front ++ after) = runLength p (front ++ rest) := by
  induction front with
  | nil =>
    have hnil : runLength p ([] ++ rest) = 0 := Nat.le_zero.mp h
    rw [hnil, List.nil_append]
    cases after with
    | nil => rfl
    | cons d after => simp [runLength, hp d rfl]
  | cons e front ih =>
    cases he : p e with
    | false => simp [runLength, he]
    | true =>
      have hstep : ∀ text : List Char, runLength p (e :: text) = runLength p text + 1 := by
        intro text
        simp [runLength, he]
      rw [List.cons_append, hstep, List.length_cons] at h
      rw [List.cons_append, List.cons_append, hstep, hstep, ih (by omega)]

/-- An extent that is decided by what it takes is the same before any other text. -/
theorem extent_append_of_le {extent : List Char → Option Nat}
    (htake : ∀ {text : List Char} {n : Nat}, extent text = some n →
      n ≤ text.length ∧ ∀ after, extent (text.take n ++ after) = some n)
    (h : extent (front ++ rest) = some n) (hn : n ≤ front.length) (after : List Char) :
    extent (front ++ after) = some n := by
  have hsame := (htake h).2 (front.drop n ++ after)
  rwa [List.take_append_of_le_length hn, ← List.append_assoc, List.take_append_drop] at hsame

/-! ## Steady rules -/

/-- Whether a rule treats a piece the same where the text ends, or a line ends, behind it. -/
structure Steady (rule : LexicalRule) : Prop where
  /-- What the rule takes lies within the text. -/
  within {c : Char} {rest : List Char} {reading : Reading}
    (h : rule c rest = some (.ok reading)) : reading.more ≤ rest.length
  /-- A rule that does not apply does not come to apply. -/
  skips {c : Char} {front rest after : List Char} (hafter : EndsLine after)
    (h : rule c (front ++ rest) = none) : rule c (front ++ after) = none
  reads {c : Char} {front rest after : List Char} {reading : Reading} (hafter : EndsLine after)
    (h : rule c (front ++ rest) = some (.ok reading)) (hmore : reading.more ≤ front.length) :
    rule c (front ++ after) = some (.ok reading)

/-- Whether a rule treats a piece the same where the text ends, or any boundary stands, behind
it. -/
structure Firm (rule : LexicalRule) : Prop where
  /-- What the rule takes lies within the text. -/
  within {c : Char} {rest : List Char} {reading : Reading}
    (h : rule c rest = some (.ok reading)) : reading.more ≤ rest.length
  /-- A rule that does not apply does not come to apply. -/
  skips {c : Char} {front rest after : List Char} (hafter : EndsBoundary after)
    (h : rule c (front ++ rest) = none) : rule c (front ++ after) = none
  reads {c : Char} {front rest after : List Char} {reading : Reading} (hafter : EndsBoundary after)
    (h : rule c (front ++ rest) = some (.ok reading)) (hmore : reading.more ≤ front.length) :
    rule c (front ++ after) = some (.ok reading)

theorem Firm.steady {rule : LexicalRule} (h : Firm rule) : Steady rule where
  within := h.within
  skips hafter := h.skips hafter.endsBoundary
  reads hafter := h.reads hafter.endsBoundary

theorem firm_blankRule : Firm blankRule where
  within h := by
    unfold blankRule at h
    split at h
    · cases h
      exact Nat.zero_le _
    · cases h
  skips _ h := h
  reads _ h _ := h

/-! ### Line comments -/

theorem exists_of_trimEnd (text : List Char) :
    ∃ blanks, text = trimEnd text ++ blanks ∧ ∀ b ∈ blanks, isBlank b = true := by
  refine ⟨(text.reverse.takeWhile isBlank).reverse, ?_, ?_⟩
  · rw [trimEnd, ← List.reverse_append, List.takeWhile_append_dropWhile, List.reverse_reverse]
  · intro b hb
    exact List.all_eq_true.mp List.all_takeWhile b (List.mem_reverse.mp hb)

theorem trimEnd_append_blanks {blanks : List Char} (hblanks : ∀ b ∈ blanks, isBlank b = true)
    (text : List Char) : trimEnd (text ++ blanks) = trimEnd text := by
  have hall : ∀ b ∈ blanks.reverse, isBlank b = true :=
    fun b hb => hblanks b (List.mem_reverse.mp hb)
  rw [trimEnd, trimEnd, List.reverse_append, List.dropWhile_append_of_pos hall]

/-- A text that is cut off within the blanks at its end is trimmed to the same text. -/
theorem trimEnd_of_isPrefix {short long : List Char} (h : short <+: long)
    (hlength : (trimEnd long).length ≤ short.length) : trimEnd short = trimEnd long := by
  obtain ⟨blanks, hlong, hblanks⟩ := exists_of_trimEnd long
  obtain ⟨others, hshort⟩ := List.prefix_of_prefix_length_le (trimEnd_isPrefix long) h hlength
  have hothers : others <+: blanks := by
    rw [hlong, ← hshort, List.prefix_append_right_inj] at h
    exact h
  have htrim := trimEnd_append_blanks (fun b hb => hblanks b (hothers.subset hb)) (trimEnd long)
  rw [← hshort, htrim, trimEnd_trimEnd]

/-- A line does not go on beyond its end. -/
theorem takeWhile_append_endsLine (hafter : EndsLine after) :
    (front ++ after).takeWhile (· ≠ '\n') = front.takeWhile (· ≠ '\n') := by
  have hnil : after.takeWhile (· ≠ '\n') = [] := by
    cases after with
    | nil => rfl
    | cons d after => simp [hafter d rfl]
  rw [List.takeWhile_append, hnil, List.append_nil]
  split
  · next hall => exact ((List.takeWhile_prefix _).eq_of_length hall).symm
  · rfl

theorem trimEnd_line_of_endsLine (hafter : EndsLine after)
    (h : (trimEnd (c :: (front ++ rest).takeWhile (· ≠ '\n'))).length ≤ front.length + 1) :
    trimEnd (c :: (front ++ after).takeWhile (· ≠ '\n')) =
      trimEnd (c :: (front ++ rest).takeWhile (· ≠ '\n')) := by
  rw [takeWhile_append_endsLine hafter]
  rw [List.takeWhile_append] at h ⊢
  split at h
  · next hall =>
    rw [if_pos hall]
    have hfront := (List.takeWhile_prefix _).eq_of_length hall
    rw [hfront]
    exact trimEnd_of_isPrefix (List.prefix_append (c :: front) _) h
  · next hall => rw [if_neg hall]

/-- A line comment that is no doc comment does not become one. -/
theorem opensDoc_line_of_endsLine (hafter : EndsLine after)
    (hline : ((front ++ rest).takeWhile (· ≠ '\n')).length ≤ front.length)
    (h : opensDoc '/' (front ++ after) = true) : opensDoc '/' (front ++ rest) = true := by
  obtain ⟨others, he, hthird⟩ := exists_of_opensDoc h
  have hmarks : ['/', '/'] <+: front ++ after := ⟨others, he.symm⟩
  have hslash : ∀ d ∈ after.head?, d ∉ ['/', '/'] := by
    intro d hd
    rw [hafter d hd]
    decide
  obtain ⟨more, rfl⟩ := isPrefix_of_head hslash hmarks
  obtain rfl : more ++ after = others := by simpa using he
  refine opensDoc_cons fun hslash => ?_
  cases more with
  | nil =>
    -- A third slash would belong to the line, which is no longer than the two.
    cases rest with
    | nil => cases hslash
    | cons d rest =>
      cases hslash
      simp at hline
  | cons d more => exact hthird hslash

/-- A line doc comment that ends within a text opens there too where a boundary stands behind it. -/
theorem lineDoc_of_endsBoundary (hafter : EndsBoundary after)
    (hdoc : opensDoc '/' (front ++ rest) = true)
    (htrim : (trimEnd ('/' :: (front ++ rest).takeWhile (· ≠ '\n'))).length ≤ front.length + 1) :
    (front ++ after).head? = some '/' ∧ opensDoc '/' (front ++ after) = true := by
  obtain ⟨others, he, hthird⟩ := exists_of_opensDoc hdoc
  have hmarks : ['/', '/', '/'] <+: trimEnd ('/' :: (front ++ rest).takeWhile (· ≠ '\n')) := by
    rw [he, List.takeWhile_cons_of_pos (by decide), List.takeWhile_cons_of_pos (by decide),
      trimEnd_cons (by decide), trimEnd_cons (by decide), trimEnd_cons (by decide)]
    exact ⟨_, rfl⟩
  have hlength : 3 ≤ front.length + 1 := Nat.le_trans hmarks.length_le htrim
  obtain ⟨more, rfl⟩ : ∃ more, front = '/' :: '/' :: more := by
    rcases front with _ | ⟨d, _ | ⟨e, more⟩⟩
    · simp at hlength
    · simp at hlength
    · cases he
      exact ⟨more, rfl⟩
  obtain rfl : more ++ rest = others := by simpa using he
  refine ⟨rfl, opensDoc_cons ?_⟩
  intro hslash
  exact hthird (head_of_append (hafter.ne (by decide)) hslash)

/-- The second character of a comment that ends within a text lies within it. -/
theorem head_of_line (hhead : (front ++ rest).head? = some '/')
    (hline : ((front ++ rest).takeWhile (· ≠ '\n')).length ≤ front.length) :
    (front ++ after).head? = some '/' := by
  cases front with
  | nil =>
    cases rest with
    | nil => cases hhead
    | cons d rest =>
      cases hhead
      simp at hline
  | cons d front => exact hhead

/-- Where no line comment begins, none comes to begin in front of a boundary. -/
theorem lineCommentRule_of_endsBoundary (hafter : EndsBoundary after)
    (h : lineCommentRule c (front ++ rest) = none) : lineCommentRule c (front ++ after) = none := by
  refine lineCommentRule_skips ?_
  intro hc hhead
  have hhead' : (front ++ rest).head? = some '/' :=
    head_of_append (hafter.ne (by decide)) hhead
  rw [lineCommentRule, if_pos ⟨hc, hhead'⟩] at h
  simp only at h
  split at h <;> cases h

theorem steady_lineCommentRule : Steady lineCommentRule where
  within {c rest reading} h := by
    unfold lineCommentRule at h
    split at h
    · simp only at h
      have hline : (rest.takeWhile (· ≠ '\n')).length ≤ rest.length :=
        (List.takeWhile_sublist _).length_le
      split at h
      · cases h
        have htrim := (trimEnd_isPrefix (c :: rest.takeWhile (· ≠ '\n'))).length_le
        simp only [Reading.token, List.length_cons] at htrim ⊢
        omega
      · cases h
        exact hline
    · cases h
  skips hafter h := lineCommentRule_of_endsBoundary hafter.endsBoundary h
  reads {c front rest after reading} hafter h hmore := by
    unfold lineCommentRule at h
    split at h
    · next hstart =>
      obtain ⟨rfl, hhead⟩ := hstart
      simp only at h
      split at h
      · next hdoc =>
        cases h
        have htrim : (trimEnd ('/' :: (front ++ rest).takeWhile (· ≠ '\n'))).length ≤
            front.length + 1 := by
          simp only [Reading.token] at hmore
          omega
        obtain ⟨hhead', hdoc'⟩ := lineDoc_of_endsBoundary hafter.endsBoundary hdoc htrim
        rw [lineCommentRule, if_pos ⟨rfl, hhead'⟩]
        simp only [if_pos hdoc', trimEnd_line_of_endsLine hafter htrim]
      · next hdoc =>
        cases h
        have hfeed : ∀ d ∈ after.head?, decide (d ≠ '\n') = false := fun d hd => by
          simp [hafter d hd]
        have hline := runLength_of_append hfeed hmore
        have hdoc' : opensDoc '/' (front ++ after) ≠ true := by
          intro hopens
          exact hdoc (opensDoc_line_of_endsLine hafter hmore hopens)
        rw [lineCommentRule, if_pos ⟨rfl, head_of_line hhead hmore⟩]
        simp only [if_neg hdoc']
        rw [runLength, runLength] at hline
        rw [hline]
    · cases h

/-! ### Block comments -/

/-- A comment that closes takes at least its closing mark. -/
theorem two_le_commentExtent {depth : Int} {text : List Char}
    (h : commentExtent depth text = some n) : 2 ≤ n := by
  fun_induction commentExtent depth text generalizing n with
  | case1 depth rest ih =>
    obtain ⟨k, -, rfl⟩ := Option.map_eq_some_iff.mp h
    omega
  | case2 rest =>
    cases h
    omega
  | case3 depth rest hdepth ih =>
    obtain ⟨k, -, rfl⟩ := Option.map_eq_some_iff.mp h
    omega
  | case4 depth c rest hopen hclose ih =>
    obtain ⟨k, hk, rfl⟩ := Option.map_eq_some_iff.mp h
    have := ih hk
    omega
  | case5 => cases h

/-- Whether a comment is a doc comment is decided by the three characters behind its first one. -/
theorem opensDoc_append_of_le {mark : Char} (h : 3 ≤ front.length) :
    opensDoc mark (front ++ rest) = opensDoc mark front := by
  obtain ⟨a, b, d, front, rfl⟩ : ∃ a b d more, front = a :: b :: d :: more := by
    rcases front with _ | ⟨a, _ | ⟨b, _ | ⟨d, more⟩⟩⟩
    · cases h
    · simp at h
    · simp at h
    · exact ⟨a, b, d, more, rfl⟩
  simp [opensDoc, List.isPrefixOf]

theorem isPrefixOf_append_of_le (h : mark.length ≤ front.length) :
    mark.isPrefixOf (front ++ rest) = mark.isPrefixOf front := by
  rw [Bool.eq_iff_iff, List.isPrefixOf_iff_prefix, List.isPrefixOf_iff_prefix]
  exact ⟨fun hp => List.prefix_of_prefix_length_le hp (List.prefix_append _ _) h,
    fun hp => hp.trans (List.prefix_append _ _)⟩

/-- A comment is no shorter than its two marks. -/
theorem four_le_commentExtent {body : List Char} {length : Nat} (hhead : body.head? = some '*')
    (h : commentExtent 0 ('/' :: body) = some length) : 4 ≤ length := by
  obtain ⟨inside, rfl⟩ := List.head?_eq_some_iff.mp hhead
  rw [commentExtent] at h
  obtain ⟨n, hn, rfl⟩ := Option.map_eq_some_iff.mp h
  have htwo := two_le_commentExtent hn
  omega

theorem firm_blockCommentRule : Firm blockCommentRule where
  within {c rest reading} h := by
    unfold blockCommentRule at h
    split at h
    · split at h
      · cases h
      · next length hclose =>
        have hle := (commentExtent_take_append hclose).1
        rw [List.length_cons] at hle
        split at h
        · cases h
          simp only [Reading.token]
          omega
        · cases h
          simp only [Reading.skip]
          omega
    · cases h
  skips {c front rest after} hafter h := by
    refine blockCommentRule_skips fun hc hhead => ?_
    rw [blockCommentRule, if_pos ⟨hc, head_of_append (hafter.ne (by decide)) hhead⟩] at h
    split at h
    · cases h
    · split at h <;> cases h
  reads {c front rest after reading} hafter h hmore := by
    unfold blockCommentRule at h
    split at h
    · next hstart =>
      obtain ⟨rfl, hhead⟩ := hstart
      split at h
      · cases h
      · next length hclose =>
        have hlength : length ≤ front.length + 1 ∧
            reading = if opensDoc '*' (front ++ rest) &&
                !(['*', '*', '/'].isPrefixOf (front ++ rest)) then .token .doc length
              else .skip (length - 1) := by
          split at h
          · next hdoc =>
            cases h
            simp only [Reading.token] at hmore
            exact ⟨by omega, by rw [if_pos hdoc]⟩
          · next hdoc =>
            cases h
            simp only [Reading.skip] at hmore
            exact ⟨by omega, by rw [if_neg hdoc]⟩
        obtain ⟨hle, rfl⟩ := hlength
        have hclose' : commentExtent 0 ('/' :: front ++ after) = some length :=
          extent_append_of_le commentExtent_take_append hclose (by simpa using hle) after
        -- The character that decides on documentation lies between the marks.
        have hfront : 3 ≤ front.length := by
          have hfour := four_le_commentExtent hhead hclose
          omega
        have hhead' : (front ++ after).head? = some '*' := by
          cases front with
          | nil => cases hfront
          | cons d front => exact hhead
        rw [blockCommentRule, if_pos ⟨rfl, hhead'⟩]
        rw [List.cons_append] at hclose'
        have hempty : ∀ text, ['*', '*', '/'].isPrefixOf (front ++ text) =
            ['*', '*', '/'].isPrefixOf front := fun _ => isPrefixOf_append_of_le hfront
        simp only [hclose', opensDoc_append_of_le hfront, hempty]
        split <;> rfl
    · cases h

/-! ### Quotations -/

/-- What opens a raw string in front of a boundary opens it in front of any text. -/
theorem rawStringHashes_of_endsBoundary {hashes : Nat} (hafter : EndsBoundary after)
    (h : rawStringHashes? (front ++ after) = some hashes) :
    rawStringHashes? (front ++ rest) = some hashes := by
  obtain ⟨inside, he⟩ := eq_of_rawStringHashes h
  have hmark : List.replicate hashes '#' ++ ['"'] <+: front ++ after := ⟨inside, by simp [he]⟩
  have hapart : ∀ d ∈ after.head?, d ∉ List.replicate hashes '#' ++ ['"'] := by
    intro d hd hmem
    rcases List.mem_append.mp hmem with hmem | hmem
    · exact hafter.ne (by decide) ((List.eq_of_mem_replicate hmem) ▸ hd)
    · exact hafter.ne (by decide) ((List.mem_singleton.mp hmem) ▸ hd)
  obtain ⟨others, rfl⟩ := isPrefix_of_head hapart hmark
  have hsplit : List.replicate hashes '#' ++ ['"'] ++ others ++ rest =
      List.replicate hashes '#' ++ '"' :: (others ++ rest) := by simp
  rw [hsplit, rawStringHashes_replicate]

theorem rawStringHashes_eq_none_of_endsBoundary (hafter : EndsBoundary after)
    (h : rawStringHashes? (front ++ rest) = none) : rawStringHashes? (front ++ after) = none := by
  cases hhashes : rawStringHashes? (front ++ after) with
  | none => rfl
  | some hashes =>
    rw [rawStringHashes_of_endsBoundary hafter hhashes] at h
    cases h

/-- A raw string that ends within a text is the same before any other text. -/
theorem rawStringReading_append_of_le {before hashes : Nat}
    (hhashes : rawStringHashes? (front ++ rest) = some hashes)
    (h : rawStringReading before hashes (front ++ rest) = .ok reading)
    (hmore : reading.more + 1 ≤ before + front.length) (after : List Char) :
    rawStringHashes? (front ++ after) = some hashes ∧
      rawStringReading before hashes (front ++ after) = .ok reading := by
  obtain ⟨inside, he⟩ := eq_of_rawStringHashes hhashes
  unfold rawStringReading at h
  split at h
  · cases h
  · next length hextent =>
    cases h
    simp only [Reading.token] at hmore
    have hmark : List.replicate hashes '#' ++ ['"'] <+: front := by
      have hall : List.replicate hashes '#' ++ ['"'] <+: front ++ rest := ⟨inside, by simp [he]⟩
      refine List.prefix_of_prefix_length_le hall (List.prefix_append _ _) ?_
      · rw [List.length_append, List.length_replicate, List.length_singleton]
        omega
    obtain ⟨others, rfl⟩ := hmark
    have hsplit : ∀ text, List.replicate hashes '#' ++ ['"'] ++ others ++ text =
        List.replicate hashes '#' ++ '"' :: (others ++ text) := by simp
    have hdrop : ∀ text, (List.replicate hashes '#' ++ ['"'] ++ others ++ text).drop (hashes + 1) =
        others ++ text := by
      intro text
      rw [List.append_assoc _ others]
      exact List.drop_left' (by simp)
    rw [hdrop] at hextent
    simp only [List.length_append, List.length_replicate, List.length_singleton] at hmore
    have hsame := extent_append_of_le rawStringExtent_take_append hextent (by omega) after
    refine ⟨by rw [hsplit, rawStringHashes_replicate], ?_⟩
    rw [rawStringReading, hdrop, hsame]

theorem le_of_rawStringReading {before hashes : Nat} {afterR : List Char}
    (hhashes : rawStringHashes? afterR = some hashes)
    (h : rawStringReading before hashes afterR = .ok reading) :
    reading.more + 1 ≤ before + afterR.length := by
  obtain ⟨inside, rfl⟩ := eq_of_rawStringHashes hhashes
  unfold rawStringReading at h
  split at h
  · cases h
  · next length hextent =>
    cases h
    have hle := (rawStringExtent_take_append hextent).1
    simp only [Reading.token, List.length_drop, List.length_append, List.length_replicate,
      List.length_cons] at hle ⊢
    omega

theorem before_le_of_rawStringReading {before hashes : Nat} {afterR : List Char}
    (h : rawStringReading before hashes afterR = .ok reading) : before ≤ reading.more := by
  unfold rawStringReading at h
  split at h
  · cases h
  · cases h
    simp only [Reading.token]
    omega

theorem firm_rawStringRule : Firm rawStringRule where
  within {c rest reading} h := by
    unfold rawStringRule at h
    split at h
    · obtain ⟨hashes, hhashes, hread⟩ := Option.map_eq_some_iff.mp h
      have := le_of_rawStringReading hhashes hread
      omega
    · obtain ⟨hashes, hhashes, hread⟩ := Option.map_eq_some_iff.mp h
      have := le_of_rawStringReading hhashes hread
      rw [List.length_cons]
      omega
    · cases h
  skips {c front rest after} hafter h := by
    refine rawStringRule_skips (fun hc => ?_) fun afterR hc hr => ?_
    · subst hc
      exact rawStringHashes_eq_none_of_endsBoundary hafter (Option.map_eq_none_iff.mp h)
    · subst hc
      cases front with
      | nil =>
        rw [List.nil_append] at hr
        exact absurd (by rw [hr]; rfl) (hafter.ne (d := 'r') (by decide))
      | cons d front =>
        obtain ⟨rfl, rfl⟩ := List.cons.inj hr
        exact rawStringHashes_eq_none_of_endsBoundary hafter (Option.map_eq_none_iff.mp h)
  reads {c front rest after reading} hafter h hmore := by
    unfold rawStringRule at h
    split at h
    · obtain ⟨hashes, hhashes, hread⟩ := Option.map_eq_some_iff.mp h
      obtain ⟨hhashes', hread'⟩ :=
        rawStringReading_append_of_le hhashes hread (by omega) after
      rw [rawStringRule, hhashes', Option.map_some, hread']
    · next afterR hr =>
      obtain ⟨hashes, hhashes, hread⟩ := Option.map_eq_some_iff.mp h
      have hbefore := before_le_of_rawStringReading hread
      cases front with
      | nil =>
        rw [List.length_nil] at hmore
        omega
      | cons d front =>
        obtain ⟨rfl, rfl⟩ := List.cons.inj hr
        rw [List.length_cons] at hmore
        obtain ⟨hhashes', hread'⟩ :=
          rawStringReading_append_of_le hhashes hread (by omega) after
        rw [List.cons_append, rawStringRule, hhashes', Option.map_some, hread']
    · cases h

theorem stringReading_append_of_le {before : Nat}
    (h : stringReading before (front ++ rest) = .ok reading)
    (hmore : reading.more + 1 ≤ before + front.length) (after : List Char) :
    stringReading before (front ++ after) = .ok reading := by
  unfold stringReading at h
  split at h
  · cases h
  · next length hextent =>
    cases h
    simp only [Reading.token] at hmore
    have hsame := extent_append_of_le stringExtent_take_append hextent (by omega) after
    rw [stringReading, hsame]

theorem le_of_stringReading {before : Nat} {inside : List Char} (hbefore : 0 < before)
    (h : stringReading before inside = .ok reading) :
    before ≤ reading.more + 1 ∧ reading.more + 1 ≤ before + inside.length := by
  unfold stringReading at h
  split at h
  · cases h
  · next length hextent =>
    cases h
    have hle := (stringExtent_take_append hextent).1
    simp only [Reading.token]
    omega

theorem firm_stringRule : Firm stringRule where
  within {c rest reading} h := by
    unfold stringRule at h
    split at h
    · have := le_of_stringReading (by decide) (Option.some.inj h)
      omega
    · have := le_of_stringReading (by decide) (Option.some.inj h)
      rw [List.length_cons]
      omega
    · cases h
  skips {c front rest after} hafter h := by
    refine stringRule_skips ?_ fun hc hhead => ?_
    · rintro rfl
      cases h
    · subst hc
      have hhead' : (front ++ rest).head? = some '"' :=
        head_of_append (hafter.ne (by decide)) hhead
      cases hfr : front ++ rest with
      | nil => rw [hfr] at hhead'; cases hhead'
      | cons d others => rw [hfr] at hhead' h; cases hhead'; cases h
  reads {c front rest after reading} hafter h hmore := by
    unfold stringRule at h
    split at h
    · have hread := Option.some.inj h
      rw [stringRule, stringReading_append_of_le hread (by omega) after]
    · next inside hr =>
      have hread := Option.some.inj h
      have hbefore := (le_of_stringReading (by decide) hread).1
      cases front with
      | nil =>
        rw [List.length_nil] at hmore
        omega
      | cons d front =>
        obtain ⟨rfl, rfl⟩ := List.cons.inj hr
        rw [List.length_cons] at hmore
        rw [List.cons_append, stringRule, stringReading_append_of_le hread (by omega) after]
    · cases h

/-- A character literal does not reach over a line end. -/
theorem feed_not_mem_quotedChar {text : List Char} (h : quotedCharExtent text = some n) :
    '\n' ∉ text.take n := by
  have hhex : ∀ d, isHexDigit d = true → d ≠ '\n' := by
    rintro d hd rfl
    revert hd
    decide
  unfold quotedCharExtent at h
  split at h
  · next rest =>
    obtain ⟨k, hk, rfl⟩ := Option.map_eq_some_iff.mp h
    unfold escapeExtent at hk
    split at hk
    · next d others =>
      split at hk
      · cases hk
      · next hd =>
        cases hk
        simp [Ne.symm hd]
    · next a b others hquote =>
      split at hk
      · next hdigits =>
        cases hk
        obtain ⟨ha, hb⟩ := Bool.and_eq_true_iff.mp hdigits
        simp [Ne.symm (hhex a ha), Ne.symm (hhex b hb)]
      · cases hk
    · next digits =>
      simp only at hk
      split at hk
      · next hform =>
        cases hk
        have htake : digits.take (runLength isHexDigit digits + 2) =
            digits.take (runLength isHexDigit digits) ++ ['}', '\''] := by
          rw [List.take_add, hform.2.2]
        have hrun : '\n' ∉ digits.take (runLength isHexDigit digits) :=
          fun hmem => hhex _ (all_take_runLength _ _ _ hmem) rfl
        have hsplit : ('\\' :: 'u' :: '{' :: digits).take (runLength isHexDigit digits + 3 + 2) =
            '\\' :: 'u' :: '{' :: (digits.take (runLength isHexDigit digits) ++ ['}', '\'']) := by
          rw [← htake]
          rfl
        rw [hsplit]
        simp [hrun]
      · cases hk
    · cases hk
  · next d others hne =>
    split at h
    · cases h
    · next hd =>
      cases h
      rw [not_or] at hd
      simp [Ne.symm hd.2]
  · cases h

/-- A character literal in front of a line end does not reach it. -/
theorem quotedCharExtent_of_endsLine (hafter : EndsLine after)
    (h : quotedCharExtent (front ++ after) = some n) :
    quotedCharExtent (front ++ rest) = some n := by
  have hle : n ≤ front.length := by
    have hfeed : ∀ d ∈ after.head?, d ∉ (front ++ after).take n := fun d hd =>
      hafter d hd ▸ feed_not_mem_quotedChar h
    have htake := isPrefix_of_head hfeed (List.take_prefix _ _)
    have hlength := htake.length_le
    rwa [List.length_take, Nat.min_eq_left (quotedCharExtent_take_append h).1] at hlength
  exact extent_append_of_le quotedCharExtent_take_append h hle rest

theorem quotedCharExtent_eq_none_of_endsLine (hafter : EndsLine after)
    (h : quotedCharExtent (front ++ rest) = none) : quotedCharExtent (front ++ after) = none := by
  cases hextent : quotedCharExtent (front ++ after) with
  | none => rfl
  | some n =>
    rw [quotedCharExtent_of_endsLine hafter hextent] at h
    cases h

/-- A character literal that ends within a text is the same before any other text. -/
theorem charRule_append_of_le (h : charRule c (front ++ rest) = some (.ok reading))
    (hmore : reading.more ≤ front.length) (after : List Char) :
    charRule c (front ++ after) = some (.ok reading) := by
  unfold charRule at h
  split at h
  · obtain ⟨n, hn, he⟩ := Option.map_eq_some_iff.mp h
    cases he
    simp only [Reading.token] at hmore
    have hsame := extent_append_of_le quotedCharExtent_take_append hn (by omega) after
    rw [charRule, hsame, Option.map_some]
  · next inside hr =>
    obtain ⟨n, hn, he⟩ := Option.map_eq_some_iff.mp h
    cases he
    simp only [Reading.token] at hmore
    cases front with
    | nil =>
      rw [List.length_nil] at hmore
      omega
    | cons d front =>
      obtain ⟨rfl, rfl⟩ := List.cons.inj hr
      rw [List.length_cons] at hmore
      have hsame := extent_append_of_le quotedCharExtent_take_append hn (by omega) after
      rw [List.cons_append, charRule, hsame, Option.map_some]
  · cases h

theorem steady_charRule : Steady charRule where
  within {c rest reading} h := by
    unfold charRule at h
    split at h
    · obtain ⟨n, hn, he⟩ := Option.map_eq_some_iff.mp h
      cases he
      have := (quotedCharExtent_take_append hn).1
      simp only [Reading.token]
      omega
    · obtain ⟨n, hn, he⟩ := Option.map_eq_some_iff.mp h
      cases he
      have := (quotedCharExtent_take_append hn).1
      simp only [Reading.token, List.length_cons]
      omega
    · cases h
  skips {c front rest after} hafter h := by
    unfold charRule
    split
    · rw [quotedCharExtent_eq_none_of_endsLine hafter (Option.map_eq_none_iff.mp h)]
      rfl
    · next inside hr =>
      cases front with
      | nil =>
        rw [List.nil_append] at hr
        cases hafter '\'' (by rw [hr]; rfl)
      | cons d front =>
        rw [List.cons_append] at hr
        obtain ⟨rfl, rfl⟩ := List.cons.inj hr
        rw [quotedCharExtent_eq_none_of_endsLine hafter (Option.map_eq_none_iff.mp h)]
        rfl
    · rfl
  reads _ h hmore := charRule_append_of_le h hmore _

/-! ### Words and numbers -/

theorem identExtent_raw (name : List Char) : identExtent ('r' :: '#' :: name) =
    if startsIdent name then some (2 + runLength isIdentRest name) else some 1 := by
  rw [identExtent]

theorem identExtent_le {text : List Char} (h : identExtent text = some n) :
    0 < n ∧ n ≤ text.length :=
  have ⟨hpos, hle, _⟩ := identExtent_take_append h [] (by simp)
  ⟨hpos, hle⟩

theorem numberExtent_le {text : List Char} (h : numberExtent text = some n) :
    0 < n ∧ n ≤ text.length :=
  have ⟨hpos, hle, _⟩ := numberExtent_take_append h [] (by simp)
  ⟨hpos, hle⟩

theorem EndsBoundary.not_isIdentRest (h : EndsBoundary after) :
    ∀ d ∈ after.head?, isIdentRest d = false :=
  h.apart fun _ => isBoundary_of_isIdentRest

/-- A name in front of a boundary begins one in front of any text. -/
theorem startsIdent_of_endsBoundary (hafter : EndsBoundary after)
    (h : startsIdent (front ++ after) = true) : startsIdent (front ++ rest) = true :=
  any_head_of_append (hafter.apart fun _ hc =>
    isBoundary_of_isIdentRest (isIdentRest_of_isIdentStart hc)) h

/-- An `r` at the end of a text is an identifier by itself. -/
theorem identExtent_lone (hafter : EndsBoundary after) : identExtent ('r' :: after) = some 1 := by
  have hplain : ∀ others, 'r' :: after ≠ 'r' :: '#' :: others := by
    rintro others he
    obtain rfl : after = '#' :: others := (List.cons.inj he).2
    exact hafter.ne (by decide) rfl
  have hrun : runLength isIdentRest (['r'] ++ after) = 1 := by
    exact runLength_append (by simp [isIdentRest]) hafter.not_isIdentRest
  rw [List.singleton_append] at hrun
  rw [identExtent_eq hplain, hrun]
  rfl

/-- A raw identifier that ends within a text ends there too where a boundary stands behind it. -/
theorem identExtent_raw_of_endsBoundary (hafter : EndsBoundary after)
    (h : identExtent ('r' :: '#' :: (front ++ rest)) = some n) (hn : n ≤ front.length + 2) :
    identExtent ('r' :: '#' :: (front ++ after)) = some n := by
  rw [identExtent_raw] at h ⊢
  by_cases hstart : startsIdent (front ++ rest) = true
  · rw [if_pos hstart] at h
    cases h
    have hle : runLength isIdentRest (front ++ rest) ≤ front.length := by omega
    have hrun := runLength_of_append hafter.not_isIdentRest hle
    have hpos : 0 < runLength isIdentRest (front ++ rest) :=
      runLength_pos_of_head (fun _ => isIdentRest_of_isIdentStart) hstart
    have hstart' : startsIdent (front ++ after) = true := by
      cases front with
      | nil => exact absurd hpos (Nat.not_lt.mpr hle)
      | cons e front => exact hstart
    rw [if_pos hstart', hrun]
  · rw [if_neg hstart] at h
    cases h
    rw [if_neg]
    intro hstart'
    exact hstart (startsIdent_of_endsBoundary hafter hstart')

/-- An identifier that ends within a text ends there too where a boundary stands behind it. -/
theorem identExtent_of_endsBoundary (hafter : EndsBoundary after)
    (h : identExtent (c :: (front ++ rest)) = some n) (hn : n ≤ front.length + 1) :
    identExtent (c :: (front ++ after)) = some n := by
  by_cases hraw : ∃ name, c :: (front ++ rest) = 'r' :: '#' :: name
  · obtain ⟨name, he⟩ := hraw
    obtain ⟨rfl, hname⟩ := List.cons.inj he
    cases front with
    | nil =>
      -- The mark lies beyond the end, and so only the `r` is taken.
      have hone : n = 1 := by
        have hpos := (identExtent_le h).1
        rw [List.length_nil] at hn
        omega
      rw [hone, List.nil_append]
      exact identExtent_lone hafter
    | cons d front =>
      rw [List.cons_append] at hname
      obtain ⟨rfl, -⟩ := List.cons.inj hname
      exact identExtent_raw_of_endsBoundary hafter h hn
  · have hplain : ∀ others, c :: (front ++ rest) ≠ 'r' :: '#' :: others := by
      intro others he
      exact hraw ⟨others, he⟩
    have hplain' : ∀ others, c :: (front ++ after) ≠ 'r' :: '#' :: others := by
      intro others he
      obtain ⟨rfl, hothers⟩ := List.cons.inj he
      have hhash : (front ++ after).head? = some '#' := by rw [hothers]; rfl
      have hmark : (front ++ rest).head? = some '#' :=
        head_of_append (hafter.ne (by decide)) hhash
      obtain ⟨more, hmore⟩ := List.head?_eq_some_iff.mp hmark
      exact hraw ⟨more, by rw [hmore]⟩
    rw [identExtent_eq hplain] at h
    rw [identExtent_eq hplain']
    by_cases hstart : startsIdent (c :: (front ++ rest)) = true
    · rw [if_pos hstart] at h
      have hrun := Option.some.inj h
      have hle : runLength isIdentRest (c :: front ++ rest) ≤ (c :: front).length := by
        rw [List.length_cons, List.cons_append, hrun]
        exact hn
      have hsame := runLength_of_append hafter.not_isIdentRest hle
      rw [List.cons_append, List.cons_append, hrun] at hsame
      have hstart' : startsIdent (c :: (front ++ after)) = true := hstart
      rw [if_pos hstart', hsame]
    · rw [if_neg hstart] at h
      cases h

theorem firm_identRule : Firm identRule where
  within {c rest reading} h := by
    obtain ⟨n, hn, he⟩ := Option.map_eq_some_iff.mp h
    cases he
    have := (identExtent_le hn).2
    simp only [Reading.token, List.length_cons] at this ⊢
    omega
  skips {c front rest after} _ h := by
    refine identRule_skips (Bool.eq_false_iff.mpr fun hstart => ?_)
    have hnone : identExtent (c :: (front ++ rest)) = none := Option.map_eq_none_iff.mp h
    unfold identExtent at hnone
    split at hnone
    · split at hnone <;> cases hnone
    · have hstart' : startsIdent (c :: (front ++ rest)) = true := hstart
      rw [if_pos hstart'] at hnone
      cases hnone
  reads {c front rest after reading} hafter h hmore := by
    obtain ⟨n, hn, he⟩ := Option.map_eq_some_iff.mp h
    cases he
    simp only [Reading.token] at hmore
    rw [identRule, identExtent_of_endsBoundary hafter hn (by omega), Option.map_some]

/-- A number that ends within a text ends there too where a boundary stands behind it. -/
theorem numberExtent_of_endsBoundary (hafter : EndsBoundary after)
    (h : numberExtent (front ++ rest) = some n) (hn : n ≤ front.length) :
    numberExtent (front ++ after) = some n := by
  obtain ⟨run, others, hsplit, hdigit, hrun, hcases⟩ := numberExtent_cases h
  have hle : run.length ≤ front.length := by
    rcases hcases with ⟨fraction, -, -, rfl⟩ | ⟨-, -, rfl⟩
    · omega
    · exact hn
  obtain ⟨left, rfl⟩ : run <+: front :=
    List.prefix_of_prefix_length_le ⟨others, hsplit.symm⟩ (List.prefix_append _ _) hle
  rw [List.append_assoc, List.append_cancel_left_eq] at hsplit
  rw [List.append_assoc]
  rw [List.length_append] at hn
  subst hsplit
  rcases hcases with ⟨fraction, hpoint, hfraction, rfl⟩ | ⟨hothers, hpoint, rfl⟩
  · cases left with
    | nil =>
      rw [List.length_nil] at hn
      omega
    | cons d left =>
      rw [List.cons_append] at hpoint
      obtain ⟨rfl, rfl⟩ := List.cons.inj hpoint
      rw [List.length_cons] at hn
      have hfractionRun := runLength_of_append hafter.not_isIdentRest
        (show runLength isIdentRest (left ++ rest) ≤ left.length by omega)
      have hpos : 0 < runLength isIdentRest (left ++ rest) :=
        runLength_pos_of_head (fun _ => isIdentRest_of_isDigit) hfraction
      have hfraction' : (left ++ after).head?.any Char.isDigit = true := by
        cases left with
        | nil =>
          rw [List.length_nil] at hn
          omega
        | cons e left => exact hfraction
      rw [List.cons_append, numberExtent_fraction hdigit hrun hfraction', hfractionRun]
  · refine numberExtent_run hdigit hrun ?_ ?_
    · intro e he
      rw [Bool.eq_false_iff] at hothers ⊢
      intro hident
      have hany : (left ++ after).head?.any isIdentRest = true := by
        rw [he]
        exact hident
      exact hothers (any_head_of_append hafter.not_isIdentRest hany)
    · intro fraction hfraction
      cases left with
      | nil =>
        rw [List.nil_append] at hfraction
        exact absurd (by rw [hfraction]; rfl) (hafter.ne (d := '.') (by decide))
      | cons d left =>
        obtain ⟨rfl, rfl⟩ := List.cons.inj hfraction
        have hnone := hpoint (left ++ rest) rfl
        rw [Bool.eq_false_iff] at hnone ⊢
        intro hdigit
        exact hnone (any_head_of_append
          (hafter.apart fun _ hc => isBoundary_of_isIdentRest (isIdentRest_of_isDigit hc)) hdigit)

theorem firm_numberRule : Firm numberRule where
  within {c rest reading} h := by
    unfold numberRule at h
    split at h
    · cases h
    · obtain ⟨n, hn, he⟩ := Option.map_eq_some_iff.mp h
      cases he
      have := (numberExtent_le hn).2
      simp only [Reading.token, List.length_cons] at this ⊢
      omega
  skips {c front rest after} _ h := by
    unfold numberRule at h
    split at h
    · cases h
    · next hforeign =>
      refine numberRule_skips (Bool.eq_false_iff.mpr hforeign) (Bool.eq_false_iff.mpr ?_)
      intro hdigit
      have hnone := Option.map_eq_none_iff.mp h
      have hdigit' : (c :: (front ++ rest)).head?.any Char.isDigit = true := hdigit
      rw [numberExtent, if_pos hdigit'] at hnone
      simp only at hnone
      split at hnone
      · split at hnone <;> cases hnone
      · cases hnone
  reads {c front rest after reading} hafter h hmore := by
    unfold numberRule at h
    split at h
    · cases h
    · next hforeign =>
      obtain ⟨n, hn, he⟩ := Option.map_eq_some_iff.mp h
      cases he
      simp only [Reading.token] at hmore
      have hlong : numberExtent (c :: front ++ rest) = some n := hn
      have hsame := numberExtent_of_endsBoundary hafter hlong (by rw [List.length_cons]; omega)
      rw [List.cons_append] at hsame
      rw [numberRule, if_neg hforeign, hsame, Option.map_some]

theorem firm_lifetimeRule : Firm lifetimeRule where
  within {c rest reading} h := by
    unfold lifetimeRule at h
    split at h
    · split at h
      · cases h
        have := runLength_le isIdentRest rest
        simp only [Reading.token]
        omega
      · cases h
    · cases h
  skips {c front rest after} _ h := by
    unfold lifetimeRule at h ⊢
    split at h
    · split at h <;> cases h
    · next hquote => rw [if_neg hquote]
  reads {c front rest after reading} hafter h hmore := by
    unfold lifetimeRule at h
    split at h
    · next hquote =>
      split at h
      · next hstart =>
        cases h
        simp only [Reading.token] at hmore
        have hrun := runLength_of_append hafter.not_isIdentRest
          (show runLength isIdentRest (front ++ rest) ≤ front.length by omega)
        have hpos : 0 < runLength isIdentRest (front ++ rest) :=
          runLength_pos_of_head (fun _ => isIdentRest_of_isIdentStart) hstart
        have hstart' : startsIdent (front ++ after) = true := by
          cases front with
          | nil => rw [List.length_nil] at hmore; omega
          | cons e front => exact hstart
        rw [lifetimeRule, if_pos hquote, if_pos hstart', hrun]
      · cases h
    · cases h

/-! ### Punctuation -/

theorem isBoundary_of_pairedPuncts (h : pairedPuncts.contains (c, d) = true) :
    isBoundary d = false := by
  have hall : ∀ pair ∈ pairedPuncts, isBoundary pair.2 = false := by decide
  exact hall (c, d) (by simpa using h)

theorem firm_punctRule : Firm punctRule where
  within {c rest reading} h := by
    unfold punctRule at h
    split at h
    · next hpair =>
      cases h
      cases rest with
      | nil => cases hpair
      | cons d rest => simp [Reading.token]
    · split at h
      · cases h
        exact Nat.zero_le _
      · cases h
  skips {c front rest after} hafter h := by
    unfold punctRule at h ⊢
    have hpunct := hafter.apart fun d (hd : pairedPuncts.contains (c, d) = true) =>
      isBoundary_of_pairedPuncts hd
    split at h
    · cases h
    · next hpair =>
      rw [if_neg fun hpair' => hpair (any_head_of_append hpunct hpair')]
      exact h
  reads {c front rest after reading} hafter h hmore := by
    unfold punctRule at h ⊢
    have hpunct := hafter.apart fun d (hd : pairedPuncts.contains (c, d) = true) =>
      isBoundary_of_pairedPuncts hd
    split at h
    · next hpair =>
      cases h
      cases front with
      | nil => simp [Reading.token] at hmore
      | cons d front => exact if_pos hpair
    · next hpair =>
      rw [if_neg fun hpair' => hpair (any_head_of_append hpunct hpair')]
      exact h

/-! ## Pieces -/

theorem steady_of_mem_lexicalRules : ∀ rule ∈ lexicalRules, Steady rule := by
  simp only [lexicalRules, List.forall_mem_cons]
  exact ⟨firm_blankRule.steady, steady_lineCommentRule, firm_blockCommentRule.steady,
    firm_rawStringRule.steady, firm_stringRule.steady, steady_charRule, firm_identRule.steady,
    firm_numberRule.steady, firm_lifetimeRule.steady, firm_punctRule.steady, by simp⟩

/-- The first rule that applies decides, and no rule in front of it comes to apply. -/
theorem findSome_of_rules {rules : List LexicalRule} {rest' : List Char}
    (hskips : ∀ rule ∈ rules, rule c rest = none → rule c rest' = none)
    (hreads : ∀ rule ∈ rules, rule c rest = some (.ok reading) → rule c rest' = some (.ok reading))
    (h : rules.findSome? (fun rule => rule c rest) = some (.ok reading)) :
    rules.findSome? (fun rule => rule c rest') = some (.ok reading) := by
  induction rules with
  | nil => cases h
  | cons rule rules ih =>
    rw [List.forall_mem_cons] at hskips hreads
    rw [List.findSome?_cons] at h ⊢
    cases hrule : rule c rest with
    | none =>
      rw [hrule] at h
      rw [hskips.1 hrule]
      exact ih hskips.2 hreads.2 h
    | some result =>
      rw [hrule] at h
      cases h
      rw [hreads.1 hrule]

theorem readPiece_eq_ok_iff : readPiece c rest = .ok reading ↔
    lexicalRules.findSome? (fun rule => rule c rest) = some (.ok reading) := by
  rw [readPiece]
  cases lexicalRules.findSome? fun rule => rule c rest <;> simp

/-- A piece lies within the text. -/
theorem more_le_of_readPiece (h : readPiece c rest = .ok reading) : reading.more ≤ rest.length := by
  obtain ⟨rule, hrule, hread⟩ := List.exists_of_findSome?_eq_some (readPiece_eq_ok_iff.mp h)
  exact (steady_of_mem_lexicalRules rule hrule).within hread

/-- A piece that lies within a text is read the same where the text, or its line, ends behind it. -/
theorem readPiece_of_endsLine (hafter : EndsLine after)
    (h : readPiece c (front ++ rest) = .ok reading) (hmore : reading.more ≤ front.length) :
    readPiece c (front ++ after) = .ok reading := by
  rw [readPiece_eq_ok_iff] at h ⊢
  exact findSome_of_rules
    (fun rule hrule => (steady_of_mem_lexicalRules rule hrule).skips hafter)
    (fun rule hrule hread => (steady_of_mem_lexicalRules rule hrule).reads hafter hread hmore) h

/-- In front of a boundary a piece is read the same if it is as a line comment, and no character
literal comes to begin. -/
theorem readPiece_of_endsBoundary (hafter : EndsBoundary after)
    (h : readPiece c (front ++ rest) = .ok reading) (hmore : reading.more ≤ front.length)
    (hline : lineCommentRule c (front ++ rest) = some (.ok reading) →
      lineCommentRule c (front ++ after) = some (.ok reading))
    (hchar : charRule c (front ++ rest) = none → charRule c (front ++ after) = none) :
    readPiece c (front ++ after) = .ok reading := by
  have hfirm {rule : LexicalRule} (hrule : Firm rule) :
      (rule c (front ++ rest) = none → rule c (front ++ after) = none) ∧
        (rule c (front ++ rest) = some (.ok reading) →
          rule c (front ++ after) = some (.ok reading)) :=
    ⟨hrule.skips hafter, fun hread => hrule.reads hafter hread hmore⟩
  have hrules : ∀ rule ∈ lexicalRules,
      (rule c (front ++ rest) = none → rule c (front ++ after) = none) ∧
        (rule c (front ++ rest) = some (.ok reading) →
          rule c (front ++ after) = some (.ok reading)) := by
    simp only [lexicalRules, List.forall_mem_cons]
    exact ⟨hfirm firm_blankRule, ⟨lineCommentRule_of_endsBoundary hafter, hline⟩,
      hfirm firm_blockCommentRule, hfirm firm_rawStringRule, hfirm firm_stringRule,
      ⟨hchar, fun hread => charRule_append_of_le hread hmore after⟩, hfirm firm_identRule,
      hfirm firm_numberRule, hfirm firm_lifetimeRule, hfirm firm_punctRule,
      List.forall_mem_nil _⟩
  rw [readPiece_eq_ok_iff] at h ⊢
  exact findSome_of_rules (fun rule hrule => (hrules rule hrule).1)
    (fun rule hrule => (hrules rule hrule).2) h

/-! ## What a source is cut into -/

/-- The first piece, with the reading that it comes from, and the text behind it. -/
theorem exists_of_segments_cons {source : List Char} {piece : Segment} {later : List Segment}
    (h : segments source = .ok (piece :: later)) :
    ∃ c taken rest reading, source = c :: (taken ++ rest) ∧
      piece = ⟨reading.kind, c :: taken⟩ ∧ reading.more = taken.length ∧
      readPiece c (taken ++ rest) = .ok reading ∧ segments rest = .ok later := by
  unfold segments at h
  split at h
  · cases h
  · next c rest =>
    split at h
    · cases h
    · next reading hread =>
      split at h
      · cases h
      · next hlater =>
        cases h
        have hlength : (rest.take reading.more).length = reading.more := by
          rw [List.length_take, Nat.min_eq_left (more_le_of_readPiece hread)]
        refine ⟨c, rest.take reading.more, rest.drop reading.more, reading, ?_, rfl, hlength.symm,
          ?_, hlater⟩
        · rw [List.take_append_drop]
        · rwa [List.take_append_drop]

/-- Lines that are put behind a source leave its pieces as they are. -/
theorem segments_append {source : List Char} {pieces : List Segment}
    (h : segments source = .ok pieces) (hafter : EndsLine after) :
    segments (source ++ after) = (segments after).map (pieces ++ ·) := by
  fun_induction segments source generalizing pieces with
  | case1 =>
    cases h
    rw [List.nil_append]
    cases segments after <;> rfl
  | case2 => cases h
  | case3 => cases h
  | case4 c rest reading hread later hlater ih =>
    cases h
    have hmore := more_le_of_readPiece hread
    have hlong : readPiece c (rest ++ []) = .ok reading := by rwa [List.append_nil]
    have hread' := readPiece_of_endsLine hafter hlong hmore
    rw [List.cons_append, segments.eq_def]
    simp only [hread', List.drop_append_of_le_length hmore, List.take_append_of_le_length hmore,
      ih hlater]
    cases segments after <;> rfl

/-- A fault is at a character of the source, and the text before it can be read. -/
theorem segments_take_of_error {source : List Char} {fault : LexicalFault}
    (h : segments source = .error fault) :
    ∃ before c more, source = before ++ c :: more ∧ fault.rest = c :: more ∧
      readPiece c more = .error fault.cause ∧ ∃ pieces, segments before = .ok pieces := by
  fun_induction segments source with
  | case1 => cases h
  | case2 c rest cause hread =>
    cases h
    exact ⟨[], c, rest, rfl, rfl, hread, [], segments_nil⟩
  | case3 c rest reading hread fault' hlater ih =>
    cases h
    obtain ⟨before, d, more, hsplit, hrest, hfault, pieces, hpieces⟩ := ih hlater
    have hmore := more_le_of_readPiece hread
    have hsource : rest = (rest.take reading.more ++ before) ++ d :: more := by
      rw [List.append_assoc, ← hsplit, List.take_append_drop]
    have hlength : (rest.take reading.more).length = reading.more := by
      rw [List.length_take, Nat.min_eq_left hmore]
    have hlong : readPiece c ((rest.take reading.more ++ before) ++ d :: more) = .ok reading := by
      rwa [← hsource]
    have hread' := readPiece_of_endsLine endsLine_nil hlong (by
      rw [List.length_append, hlength]
      exact Nat.le_add_right _ _)
    rw [List.append_nil] at hread'
    refine ⟨c :: (rest.take reading.more ++ before), d, more, ?_, hrest, hfault,
      ⟨reading.kind, _⟩ :: pieces, segments_cons reading.kind reading.more hread' ?_⟩
    · rw [List.cons_append, ← hsource]
    · rw [List.drop_left' hlength, hpieces]
  | case4 => cases h

end Microtypes
