import Microtypes.Token.Extent

/-!
# Extents depend on what they take

Each extent is decided by the characters that it takes: with another text after them it is the same.
For the extents that end with a closing mark the other text may be any. Identifiers and numbers take
as much as they can, so for them it must not go on.
-/

namespace Microtypes

theorem runLength_le (p : Char → Bool) (text : List Char) : runLength p text ≤ text.length :=
  (List.takeWhile_sublist p).length_le

theorem take_runLength (p : Char → Bool) (text : List Char) :
    text.take (runLength p text) = text.takeWhile p :=
  (List.prefix_iff_eq_take.mp (List.takeWhile_prefix p)).symm

/-- A run ends where the characters stop to satisfy the predicate. -/
theorem runLength_append {p : Char → Bool} {run rest : List Char} (hrun : ∀ c ∈ run, p c = true)
    (hrest : ∀ c ∈ rest.head?, p c = false) : runLength p (run ++ rest) = run.length := by
  rw [runLength, List.takeWhile_append_of_pos hrun]
  cases rest with
  | nil => simp
  | cons c others =>
    have hc : p c = false := hrest c rfl
    simp [hc]

theorem all_take_runLength (p : Char → Bool) (text : List Char) :
    ∀ c ∈ text.take (runLength p text), p c = true := by
  intro c hc
  rw [take_runLength] at hc
  exact List.all_eq_true.mp List.all_takeWhile c hc

theorem head_drop_runLength (p : Char → Bool) (text : List Char) :
    (text.drop (runLength p text)).head?.any p = false := by
  induction text with
  | nil => rfl
  | cons d text ih =>
    by_cases hd : p d = true
    · have hrun : runLength p (d :: text) = runLength p text + 1 := by simp [runLength, hd]
      rw [hrun, List.drop_succ_cons]
      exact ih
    · have hrun : runLength p (d :: text) = 0 := by simp [runLength, hd]
      rw [hrun, List.drop_zero]
      exact Bool.eq_false_iff.mpr hd

theorem runLength_take_append {p : Char → Bool} {text rest : List Char}
    (hrest : ∀ c ∈ rest.head?, p c = false) :
    runLength p (text.take (runLength p text) ++ rest) = runLength p text := by
  rw [runLength_append (all_take_runLength p text) hrest, List.length_take,
    Nat.min_eq_left (runLength_le p text)]

/-- What an extent takes has itself that extent, if it has it before any other text. -/
theorem extent_take {extent : List Char → Option Nat} {text : List Char} {n : Nat}
    (h : n ≤ text.length ∧ ∀ after, extent (text.take n ++ after) = some n) :
    extent (text.take n) = some (text.take n).length := by
  have htake := h.2 []
  rw [List.append_nil] at htake
  rw [htake, List.length_take, Nat.min_eq_left h.1]

/-! ## Strings -/

theorem stringExtent_take_append {text : List Char} {n : Nat} (h : stringExtent text = some n) :
    n ≤ text.length ∧ ∀ after, stringExtent (text.take n ++ after) = some n := by
  fun_induction stringExtent text generalizing n with
  | case1 => cases h
  | case2 => cases h
  | case3 c rest ih =>
    obtain ⟨k, hk, rfl⟩ := Option.map_eq_some_iff.mp h
    obtain ⟨hle, happ⟩ := ih hk
    refine ⟨by simp only [List.length_cons]; omega, fun after => ?_⟩
    simp [stringExtent, happ]
  | case4 rest =>
    cases h
    exact ⟨by simp, fun after => by simp [stringExtent]⟩
  | case5 c rest hne hescape hquote ih =>
    obtain ⟨k, hk, rfl⟩ := Option.map_eq_some_iff.mp h
    obtain ⟨hle, happ⟩ := ih hk
    refine ⟨by simp only [List.length_cons]; omega, fun after => ?_⟩
    have hc : c ≠ '\\' := by
      rintro rfl
      cases rest with
      | nil => exact hne rfl rfl
      | cons d others => exact hescape d others rfl rfl
    have hq : c ≠ '"' := hquote
    rw [List.take_succ_cons, List.cons_append, stringExtent]
    · simp [happ]
    · intro e; exact absurd e hc
    · intro _ _ e; exact absurd e hc
    · exact hq

/-! ## Block comments -/

/-- A comment that closes takes at least one character. -/
theorem commentExtent_pos {depth : Int} {text : List Char} {n : Nat}
    (h : commentExtent depth text = some n) : 0 < n := by
  have hbehind {m : Nat} {inside : Option Nat} (hm : 0 < m) (h : inside.map (· + m) = some n) :
      0 < n := by
    obtain ⟨k, -, rfl⟩ := Option.map_eq_some_iff.mp h
    exact Nat.add_pos_right k hm
  unfold commentExtent at h
  split at h
  · exact hbehind Nat.two_pos h
  · split at h
    · cases h
      exact Nat.two_pos
    · exact hbehind Nat.two_pos h
  · exact hbehind Nat.one_pos h
  · cases h

theorem commentExtent_take_append {depth : Int} {text : List Char} {n : Nat}
    (h : commentExtent depth text = some n) :
    n ≤ text.length ∧ ∀ after, commentExtent depth (text.take n ++ after) = some n := by
  fun_induction commentExtent depth text generalizing n with
  | case1 depth rest ih =>
    obtain ⟨k, hk, rfl⟩ := Option.map_eq_some_iff.mp h
    obtain ⟨hle, happ⟩ := ih hk
    refine ⟨by simp only [List.length_cons]; omega, fun after => ?_⟩
    simp [commentExtent, happ]
  | case2 rest =>
    cases h
    exact ⟨by simp, fun after => by simp [commentExtent]⟩
  | case3 depth rest hdepth ih =>
    obtain ⟨k, hk, rfl⟩ := Option.map_eq_some_iff.mp h
    obtain ⟨hle, happ⟩ := ih hk
    refine ⟨by simp only [List.length_cons]; omega, fun after => ?_⟩
    simp [commentExtent, hdepth, happ]
  | case4 depth c rest hopen hclose ih =>
    obtain ⟨k, hk, rfl⟩ := Option.map_eq_some_iff.mp h
    obtain ⟨hle, happ⟩ := ih hk
    refine ⟨by simp only [List.length_cons]; omega, fun after => ?_⟩
    -- What is left is not empty, so the character after `c` is the same in both texts.
    have hpos := commentExtent_pos hk
    obtain ⟨d, others, rfl⟩ : ∃ d others, rest = d :: others := by
      cases rest with
      | nil => simp only [List.length_nil] at hle; omega
      | cons d others => exact ⟨d, others, rfl⟩
    obtain ⟨m, rfl⟩ : ∃ m, k = m + 1 := ⟨k - 1, by omega⟩
    have happ := happ after
    simp only [List.take_succ_cons, List.cons_append] at happ ⊢
    rw [commentExtent]
    · simp [happ]
    · rintro t rfl e
      injection e with hd
      exact hopen others rfl (by rw [hd])
    · rintro t rfl e
      injection e with hd
      exact hclose others rfl (by rw [hd])
  | case5 => cases h

/-! ## Raw strings -/

/-- The mark that ends a raw string is taken with it. -/
theorem lt_rawStringExtent {hashes : Nat} {text : List Char} {n : Nat}
    (h : rawStringExtent hashes text = some n) : hashes < n := by
  induction text generalizing n with
  | nil => cases h
  | cons c rest ih =>
    simp only [rawStringExtent] at h
    split at h
    · cases h; omega
    · obtain ⟨k, hk, rfl⟩ := Option.map_eq_some_iff.mp h
      have := ih hk
      omega

theorem rawStringExtent_take_append {hashes : Nat} {text : List Char} {n : Nat}
    (h : rawStringExtent hashes text = some n) :
    n ≤ text.length ∧ ∀ after, rawStringExtent hashes (text.take n ++ after) = some n := by
  induction text generalizing n with
  | nil => cases h
  | cons c rest ih =>
    simp only [rawStringExtent] at h
    split at h
    · next hend =>
      cases h
      obtain ⟨rfl, hp⟩ := hend
      obtain ⟨others, rfl⟩ := List.isPrefixOf_iff_prefix.mp hp
      refine ⟨by simp only [List.length_cons, List.length_append, List.length_replicate]; omega,
        fun after => ?_⟩
      have htake : (List.replicate hashes '#' ++ others).take hashes = List.replicate hashes '#' :=
        List.take_left' (List.length_replicate ..)
      rw [Nat.add_comm, List.take_succ_cons, htake, List.cons_append, rawStringExtent, if_pos]
      · rw [Nat.add_comm]
      · exact ⟨rfl, List.isPrefixOf_iff_prefix.mpr (List.prefix_append _ _)⟩
    · next hend =>
      obtain ⟨k, hk, rfl⟩ := Option.map_eq_some_iff.mp h
      obtain ⟨hle, happ⟩ := ih hk
      refine ⟨by simp only [List.length_cons]; omega, fun after => ?_⟩
      rw [List.take_succ_cons, List.cons_append, rawStringExtent, if_neg, happ]
      · rfl
      · -- The mark takes at least `hashes` characters, so it would be in `rest` already.
        rintro ⟨hc, hp⟩
        have hlt := lt_rawStringExtent hk
        have hmark : List.replicate hashes '#' <+: rest.take k :=
          List.prefix_of_prefix_length_le (List.isPrefixOf_iff_prefix.mp hp)
            (List.prefix_append _ _)
            (by rw [List.length_replicate, List.length_take]; omega)
        exact hend ⟨hc, List.isPrefixOf_iff_prefix.mpr (hmark.trans (List.take_prefix ..))⟩

/-- The opening mark of a raw string stands at the front of the text. -/
theorem eq_of_rawStringHashes {afterR : List Char} {hashes : Nat}
    (h : rawStringHashes? afterR = some hashes) :
    ∃ inside, afterR = List.replicate hashes '#' ++ '"' :: inside := by
  simp only [rawStringHashes?] at h
  split at h
  · next hquote =>
    cases h
    obtain ⟨inside, hinside⟩ : ∃ inside, afterR.drop (runLength (· == '#') afterR) =
        '"' :: inside := by
      cases hd : afterR.drop (runLength (· == '#') afterR) with
      | nil => rw [hd] at hquote; cases hquote
      | cons c inside => rw [hd] at hquote; cases hquote; exact ⟨inside, rfl⟩
    refine ⟨inside, ?_⟩
    have hrun : afterR.take (runLength (· == '#') afterR) =
        List.replicate (runLength (· == '#') afterR) '#' := by
      refine List.eq_replicate_iff.mpr ⟨?_, fun c hc => ?_⟩
      · rw [List.length_take, Nat.min_eq_left (runLength_le ..)]
      · exact eq_of_beq (all_take_runLength _ _ c hc)
    rw [← hinside, ← hrun, List.take_append_drop]
  · cases h

theorem rawStringHashes_replicate (hashes : Nat) (inside : List Char) :
    rawStringHashes? (List.replicate hashes '#' ++ '"' :: inside) = some hashes := by
  have hrun : runLength (· == '#') (List.replicate hashes '#' ++ '"' :: inside) = hashes := by
    rw [runLength_append, List.length_replicate]
    · intro c hc
      rw [List.eq_of_mem_replicate hc]
      rfl
    · rintro c ⟨⟩
      rfl
  rw [rawStringHashes?, hrun, List.drop_left' (List.length_replicate ..)]
  rfl

/-! ## Characters -/

theorem escapeExtent_take_append {text : List Char} {n : Nat} (h : escapeExtent text = some n) :
    n + 1 ≤ text.length ∧ ∀ after, escapeExtent (text.take (n + 1) ++ after) = some n := by
  unfold escapeExtent at h
  split at h
  · next c rest =>
    split at h
    · cases h
    · next hc =>
      cases h
      exact ⟨by simp, fun after => by simp [escapeExtent, hc]⟩
  · next a b rest =>
    split at h
    · next hhex =>
      cases h
      refine ⟨by simp, fun after => ?_⟩
      simp [escapeExtent, hhex]
    · cases h
  · next rest =>
    simp only at h
    split at h
    · next hform =>
      cases h
      obtain ⟨hone, hsix, hclose⟩ := hform
      have htail : rest.take (runLength isHexDigit rest + 2) =
          rest.take (runLength isHexDigit rest) ++ ['}', '\''] := by
        rw [List.take_add, hclose]
      have hlen := congrArg List.length hclose
      simp only [List.length_take, List.length_drop, List.length_cons, List.length_nil] at hlen
      refine ⟨by simp only [List.length_cons]; omega, fun after => ?_⟩
      have hrun : runLength isHexDigit
          (rest.take (runLength isHexDigit rest) ++ ('}' :: '\'' :: after)) =
            runLength isHexDigit rest :=
        runLength_take_append (by rintro c ⟨⟩; rfl)
      have hmin : min (runLength isHexDigit rest) rest.length = runLength isHexDigit rest :=
        Nat.min_eq_left (runLength_le ..)
      simp only [List.take_succ_cons, List.cons_append, htail, List.append_assoc, List.nil_append]
      rw [escapeExtent, hrun, List.drop_left' (by rw [List.length_take, hmin])]
      simp [hone, hsix]
    · cases h
  · cases h

theorem quotedCharExtent_take_append {text : List Char} {n : Nat}
    (h : quotedCharExtent text = some n) :
    n ≤ text.length ∧ ∀ after, quotedCharExtent (text.take n ++ after) = some n := by
  unfold quotedCharExtent at h
  split at h
  · next rest =>
    obtain ⟨k, hk, rfl⟩ := Option.map_eq_some_iff.mp h
    obtain ⟨hle, happ⟩ := escapeExtent_take_append hk
    refine ⟨by simp only [List.length_cons]; omega, fun after => ?_⟩
    simp [quotedCharExtent, happ]
  · next c rest hne =>
    split at h
    · cases h
    · next hc =>
      cases h
      refine ⟨by simp, fun after => ?_⟩
      simp [quotedCharExtent, hc]
  · cases h

/-! ## Identifiers and numbers -/

/-- A run is not empty if what the first character satisfies implies what the run asks for. -/
theorem runLength_pos_of_head {p q : Char → Bool} {text : List Char}
    (hpq : ∀ c, p c = true → q c = true) (h : text.head?.any p = true) :
    0 < runLength q text := by
  cases text with
  | nil => cases h
  | cons c rest =>
    have hc : q c = true := hpq c h
    simp [runLength, hc]

theorem head_any_take_append {p : Char → Bool} {text : List Char} {n : Nat}
    (h : text.head?.any p = true) (hn : 0 < n) (after : List Char) :
    (text.take n ++ after).head?.any p = true := by
  obtain ⟨m, rfl⟩ : ∃ m, n = m + 1 := ⟨n - 1, by omega⟩
  cases text with
  | nil => cases h
  | cons c rest => exact h

theorem isIdentRest_of_isIdentStart {c : Char} (h : isIdentStart c = true) :
    isIdentRest c = true := by
  simp only [isIdentStart, isIdentRest, Char.isAlphanum, Bool.or_eq_true] at *
  rcases h with h | h
  · exact Or.inl (Or.inl h)
  · exact Or.inr h

theorem isIdentRest_of_isDigit {c : Char} (h : c.isDigit = true) : isIdentRest c = true := by
  simp only [isIdentRest, Char.isAlphanum, h, Bool.or_true, Bool.true_or]

theorem identExtent_eq {text : List Char} (h : ∀ rest, text ≠ 'r' :: '#' :: rest) :
    identExtent text =
      if startsIdent text then some (runLength isIdentRest text) else none := by
  unfold identExtent
  split
  · next rest => exact absurd rfl (h rest)
  · rfl

/-- An identifier ends before a character that cannot be part of it; a number sign would turn an `r`
into a raw mark. -/
theorem identExtent_take_append {text : List Char} {n : Nat} (h : identExtent text = some n)
    (after : List Char) (hafter : ∀ c ∈ after.head?, isIdentRest c = false ∧ c ≠ '#') :
    0 < n ∧ n ≤ text.length ∧ identExtent (text.take n ++ after) = some n := by
  have hrest : ∀ c ∈ after.head?, isIdentRest c = false := fun c hc => (hafter c hc).1
  unfold identExtent at h
  split at h
  · next rest =>
    split at h
    · next hstart =>
      cases h
      have hpos : 0 < runLength isIdentRest rest :=
        runLength_pos_of_head (fun _ => isIdentRest_of_isIdentStart) hstart
      have hhead : startsIdent (rest.take (runLength isIdentRest rest) ++ after) = true :=
        head_any_take_append hstart hpos after
      have hle := runLength_le isIdentRest rest
      refine ⟨by omega, by simp only [List.length_cons]; omega, ?_⟩
      rw [Nat.add_comm, List.take_succ_cons, List.take_succ_cons]
      simp only [List.cons_append, identExtent]
      rw [if_pos hhead, runLength_take_append hrest, Nat.add_comm]
    · cases h
      refine ⟨by omega, by simp, ?_⟩
      have hmark : ∀ others, ['r'] ++ after ≠ 'r' :: '#' :: others := by
        intro others e
        obtain rfl : after = '#' :: others := by simpa using e
        exact (hafter '#' rfl).2 rfl
      have hrun : runLength isIdentRest (['r'] ++ after) = 1 :=
        runLength_append (by simp [isIdentRest]) hrest
      show identExtent (['r'] ++ after) = some 1
      rw [identExtent_eq hmark, hrun]
      rfl
  · next hraw =>
    split at h
    · next hstart =>
      cases h
      have hpos : 0 < runLength isIdentRest text :=
        runLength_pos_of_head (fun _ => isIdentRest_of_isIdentStart) hstart
      have hhead : startsIdent (text.take (runLength isIdentRest text) ++ after) = true :=
        head_any_take_append hstart hpos after
      refine ⟨hpos, runLength_le .., ?_⟩
      rw [identExtent_eq, if_pos hhead,
        runLength_take_append hrest]
      -- The second character is a number sign, which neither the identifier nor `after` offers.
      intro others e
      have hall := all_take_runLength isIdentRest text
      cases hrun : text.take (runLength isIdentRest text) with
      | nil =>
        have hlen := congrArg List.length hrun
        rw [List.length_take, Nat.min_eq_left (runLength_le ..), List.length_nil] at hlen
        omega
      | cons c run =>
        rw [hrun] at e hall
        cases run with
        | nil =>
          obtain ⟨-, rfl⟩ : c = 'r' ∧ after = '#' :: others := by simpa using e
          exact (hafter '#' rfl).2 rfl
        | cons d ds =>
          obtain ⟨-, rfl, -⟩ : c = 'r' ∧ d = '#' ∧ ds ++ after = others := by simpa using e
          exact absurd (hall '#' (by simp)) (by decide)
    · cases h

/-- A run of digits and letters that begins with a digit is a number, unless a point and a digit
follow. -/
theorem numberExtent_run {run after : List Char} (hdigit : run.head?.any Char.isDigit = true)
    (hrun : ∀ c ∈ run, isIdentRest c = true) (hafter : ∀ c ∈ after.head?, isIdentRest c = false)
    (hpoint : ∀ fraction, after = '.' :: fraction → fraction.head?.any Char.isDigit = false) :
    numberExtent (run ++ after) = some run.length := by
  have hhead : (run ++ after).head?.any Char.isDigit = true := by
    cases run with
    | nil => cases hdigit
    | cons c others => exact hdigit
  rw [numberExtent, if_pos hhead]
  simp only [runLength_append hrun hafter, List.drop_left]
  split
  · next fraction => rw [if_neg (by simp [hpoint fraction rfl])]
  · rfl

/-- A number goes on after a point and a digit. -/
theorem numberExtent_fraction {run fraction : List Char}
    (hdigit : run.head?.any Char.isDigit = true) (hrun : ∀ c ∈ run, isIdentRest c = true)
    (hfraction : fraction.head?.any Char.isDigit = true) :
    numberExtent (run ++ '.' :: fraction) =
      some (run.length + 1 + runLength isIdentRest fraction) := by
  have hhead : (run ++ '.' :: fraction).head?.any Char.isDigit = true := by
    cases run with
    | nil => cases hdigit
    | cons c others => exact hdigit
  have hpoint : ∀ c ∈ ('.' :: fraction).head?, isIdentRest c = false := by
    rintro c ⟨⟩
    rfl
  rw [numberExtent, if_pos hhead]
  simp only [runLength_append hrun hpoint, List.drop_left, hfraction, if_true]

/-- A number is a run of digits and letters, which may go on after a point and a digit. -/
theorem numberExtent_cases {text : List Char} {n : Nat} (h : numberExtent text = some n) :
    ∃ run others, text = run ++ others ∧ run.head?.any Char.isDigit = true ∧
      (∀ d ∈ run, isIdentRest d = true) ∧
      ((∃ fraction, others = '.' :: fraction ∧ fraction.head?.any Char.isDigit = true ∧
        n = run.length + 1 + runLength isIdentRest fraction) ∨
      (others.head?.any isIdentRest = false ∧
        (∀ fraction, others = '.' :: fraction → fraction.head?.any Char.isDigit = false) ∧
        n = run.length)) := by
  unfold numberExtent at h
  split at h
  · next hdigit =>
    have hpos : 0 < runLength isIdentRest text :=
      runLength_pos_of_head (fun _ => isIdentRest_of_isDigit) hdigit
    have hhead := head_any_take_append hdigit hpos []
    rw [List.append_nil] at hhead
    have hlength := congrArg List.length (take_runLength isIdentRest text)
    refine ⟨_, _, (List.take_append_drop (runLength isIdentRest text) text).symm, hhead,
      all_take_runLength _ _, ?_⟩
    have hothers := head_drop_runLength isIdentRest text
    rw [hlength, ← runLength]
    simp only at h
    split at h
    · next fraction hdrop =>
      by_cases hfraction : fraction.head?.any Char.isDigit = true
      · rw [if_pos hfraction] at h
        exact .inl ⟨fraction, hdrop, hfraction, (Option.some.inj h).symm⟩
      · rw [if_neg hfraction] at h
        refine .inr ⟨hothers, ?_, (Option.some.inj h).symm⟩
        intro fraction' hdrop'
        rw [hdrop] at hdrop'
        cases hdrop'
        exact Bool.eq_false_iff.mpr hfraction
    · next hpoint =>
      refine .inr ⟨hothers, ?_, (Option.some.inj h).symm⟩
      intro fraction hdrop
      exact absurd hdrop (hpoint fraction)
  · cases h

/-- A number ends before a character that cannot be part of it and is no point. -/
theorem numberExtent_take_append {text : List Char} {n : Nat} (h : numberExtent text = some n)
    (after : List Char) (hafter : ∀ c ∈ after.head?, isIdentRest c = false ∧ c ≠ '.') :
    0 < n ∧ n ≤ text.length ∧ numberExtent (text.take n ++ after) = some n := by
  have hrest : ∀ c ∈ after.head?, isIdentRest c = false := fun c hc => (hafter c hc).1
  obtain ⟨run, others, rfl, hdigit, hrun, hcases⟩ := numberExtent_cases h
  rw [List.length_append]
  rcases hcases with ⟨fraction, rfl, hfraction, rfl⟩ | ⟨-, -, rfl⟩
  · have hpos : 0 < runLength isIdentRest fraction :=
      runLength_pos_of_head (fun _ => isIdentRest_of_isDigit) hfraction
    have hle := runLength_le isIdentRest fraction
    have htake : (run ++ '.' :: fraction).take (run.length + 1 + runLength isIdentRest fraction) =
        run ++ '.' :: fraction.take (runLength isIdentRest fraction) := by
      rw [Nat.add_assoc, List.take_length_add_append, Nat.add_comm 1, List.take_succ_cons]
    refine ⟨by omega, by rw [List.length_cons]; omega, ?_⟩
    rw [htake, List.append_assoc, List.cons_append,
      numberExtent_fraction hdigit hrun (head_any_take_append hfraction hpos after),
      runLength_take_append hrest]
  · have hpos : 0 < run.length := by
      cases run with
      | nil => cases hdigit
      | cons c run => exact Nat.succ_pos _
    refine ⟨hpos, Nat.le_add_right _ _, ?_⟩
    rw [List.take_left]
    refine numberExtent_run hdigit hrun hrest ?_
    rintro fraction rfl
    exact absurd rfl (hafter '.' rfl).2

end Microtypes
