import Microtypes.Proofs.Token.Displacement

/-!
# Where the reading of a source stops

A source is read piece by piece (`ComesTo`), up to its end or to a character at which no piece can
be read. Such a character is reported with its place in the source, unless it is a digit of another
script: these are not reported (`located_sourceTokens_iff`).
-/

namespace Microtypes

variable {c : Char} {text rest others : List Char} {reading : Reading}

/-! ## Reading piece by piece -/

/-- Whether the reading of a text comes to the characters `rest`. -/
inductive ComesTo : List Char → List Char → Prop
  | refl (text : List Char) : ComesTo text text
  | next {c : Char} {others rest : List Char} {reading : Reading}
      (hread : readPiece c others = .ok reading)
      (hrest : ComesTo (others.drop reading.more) rest) : ComesTo (c :: others) rest

/-- What cannot be read at a place that the reading comes to cannot be read at all. -/
theorem segments_of_comesTo {cause : LexicalCause} (h : ComesTo text (c :: rest))
    (hread : readPiece c rest = .error cause) : segments text = .error ⟨cause, c :: rest⟩ := by
  generalize hplace : c :: rest = place at h
  induction h with
  | refl text =>
    subst hplace
    rw [segments.eq_def]
    simp only [hread]
  | next hpiece _ ih =>
    have hlater := ih hplace
    rw [segments.eq_def]
    simp only [hpiece, hlater]

/-- The reading comes to every place where it fails. -/
theorem comesTo_of_segments {fault : LexicalFault} (h : segments text = .error fault) :
    ∃ c rest, fault.rest = c :: rest ∧ ComesTo text (c :: rest) ∧
      readPiece c rest = .error fault.cause := by
  fun_induction segments text with
  | case1 => cases h
  | case2 c rest cause hread =>
    cases h
    exact ⟨c, rest, rfl, .refl _, hread⟩
  | case3 c rest reading hread fault' hlater ih =>
    cases h
    obtain ⟨d, more, hrest, hcomes, hfault⟩ := ih hlater
    exact ⟨d, more, hrest, .next hread hcomes, hfault⟩
  | case4 => cases h

/-! ## Characters that begin nothing -/

/-- Whether no token, blank or comment begins with a character. -/
structure BeginsNothing (c : Char) : Prop where
  blank : isBlank c = false
  ident : isIdentStart c = false
  digit : c.isDigit = false
  singleQuote : c ≠ '\''
  doubleQuote : c ≠ '"'
  punct : c ∉ singlePuncts

/-- No operator of two characters begins with what is no operator of one. -/
theorem punctRule_skips (h : c ∉ singlePuncts) : punctRule c rest = none := by
  have hfirst : ∀ p ∈ pairedPuncts, p.1 ∈ singlePuncts := by decide
  have hpaired : rest.head?.any (fun d => pairedPuncts.contains (c, d)) = false := by
    rw [Option.any_eq_false]
    intro d _
    by_cases hpair : (c, d) ∈ pairedPuncts
    · exact absurd (hfirst _ hpair) h
    · rwa [← Bool.not_eq_true, List.contains_iff_mem]
  have hsingle : singlePuncts.contains c = false := by
    rw [← Bool.not_eq_true, List.contains_iff_mem]
    exact h
  rw [punctRule, hpaired, hsingle]
  rfl

/-- A character that begins nothing is refused: as a character that is not expected or, without a
report, as a digit of another script. -/
theorem readPiece_of_beginsNothing (h : BeginsNothing c) : readPiece c rest =
    .error (if isForeignDigit c then .foreignDigit c else .unexpected c) := by
  have hslash : c ≠ '/' := by
    rintro rfl
    exact h.punct (by decide)
  have hr : c ≠ 'r' := by
    rintro rfl
    exact absurd h.ident (by decide)
  have hb : c ≠ 'b' := by
    rintro rfl
    exact absurd h.ident (by decide)
  have hraw : rawStringRule c rest = none :=
    rawStringRule_skips (fun hc => absurd hc hr) fun _ hc => absurd hc hb
  have hstring : stringRule c rest = none :=
    stringRule_skips h.doubleQuote fun hc => absurd hc hb
  have hchar : charRule c rest = none :=
    charRule_skips (fun hc => absurd hc h.singleQuote) fun hc => absurd hc hb
  have hident : identRule c rest = none := identRule_skips h.ident
  have hlifetime : lifetimeRule c rest = none := by rw [lifetimeRule, if_neg h.singleQuote]
  rw [readPiece_of_ne_slash h.blank hslash]
  simp only [List.findSome?_cons, List.findSome?_nil, hraw, hstring, hchar, hident, hlifetime,
    punctRule_skips h.punct]
  by_cases hforeign : isForeignDigit c = true
  · simp [numberRule, hforeign]
  · rw [Bool.not_eq_true] at hforeign
    simp [numberRule_skips hforeign h.digit, hforeign]

/-- A digit of another script begins nothing. -/
theorem beginsNothing_of_isForeignDigit (h : isForeignDigit c = true) : BeginsNothing c := by
  have hlarge : 128 ≤ c.toNat := by
    rcases Nat.lt_or_ge c.toNat 128 with hsmall | hlarge
    · rw [isForeignDigit_of_lt hsmall] at h
      cases h
    · exact hlarge
  have hascii {d : Char} (hd : d.toNat < 128) : c ≠ d := by
    rintro rfl
    omega
  -- The tables of digits leave out all ranges of blanks.
  have hranges : ∀ r ∈ decimalRanges ++ digitSignRanges, 0xA0 < r.1 ∧
      (r.2 < 0x1680 ∨ 0x1680 < r.1) ∧ (r.2 < 0x2000 ∨ 0x205F < r.1) ∧
      (r.2 < 0x3000 ∨ 0x3000 < r.1) := forall_mem_of_all (by decide +kernel)
  obtain ⟨r, hr, hlow, hhigh⟩ : ∃ r ∈ decimalRanges ++ digitSignRanges,
      r.1 ≤ c.toNat ∧ c.toNat ≤ r.2 := by
    rw [isForeignDigit, Bool.or_eq_true, inRanges_eq_true_iff, inRanges_eq_true_iff] at h
    rcases h with ⟨r, hr, hc⟩ | ⟨r, hr, hc⟩
    · exact ⟨r, List.mem_append_left _ hr, hc⟩
    · exact ⟨r, List.mem_append_right _ hr, hc⟩
  have hrange := hranges r hr
  constructor
  · simp only [isBlank, Bool.or_eq_false_iff, Bool.and_eq_false_iff, decide_eq_false_iff_not,
      beq_eq_false_iff_ne]
    omega
  · rw [← Bool.not_eq_true]
    intro hident
    have := toNat_of_isIdentRest (isIdentRest_of_isIdentStart hident)
    omega
  · rw [← Bool.not_eq_true]
    intro hdigit
    have := toNat_of_isDigit hdigit
    omega
  · exact hascii (by decide)
  · exact hascii (by decide)
  · intro hmem
    have hall : ∀ d ∈ singlePuncts, d.toNat < 128 := forall_mem_of_all (by decide)
    have := hall c hmem
    omega

/-! ## How a source is answered -/

/-- Whether a source is answered with tokens, or with a grammar problem at a place inside it. -/
inductive Located (source : List Char) : Except Stop (List Token) → Prop
  | tokens (ts : List Token) : Located source (.ok ts)
  | problem {problem : Problem} {p : Nat} (hkind : problem.cause.kind = .grammar)
      (hp : p < source.length) (hplace : problem.location = .ofOffset source p) :
      Located source (.error (.problem problem))

/-- All causes but one are reported. -/
theorem stop_of_ne_foreignDigit {fault : LexicalFault} (h : ∀ c, fault.cause ≠ .foreignDigit c)
    (source : List Char) :
    fault.stop source = .of (.lexical fault.cause) (fault.location source) := by
  rw [LexicalFault.stop]
  split
  · next c hcause => exact absurd hcause (h c)
  · rfl

theorem offset_of_fault {source before : List Char} (hsource : source = before ++ c :: rest)
    (cause : LexicalCause) :
    (⟨cause, c :: rest⟩ : LexicalFault).location source = .ofOffset source before.length := by
  rw [LexicalFault.location, hsource, List.length_append, Nat.add_sub_cancel]

/-- A source whose reading comes to a digit of another script is not answered. -/
theorem aborts_of_comesTo {source : String} (h : ComesTo source.toList (c :: rest))
    (hforeign : isForeignDigit c = true) : sourceTokens source = .error (.abort .foreignDigit) := by
  have hread : readPiece c rest = .error (.foreignDigit c) := by
    rw [readPiece_of_beginsNothing (beginsNothing_of_isForeignDigit hforeign), if_pos hforeign]
  exact sourceTokens_of_fault (segments_of_comesTo h hread)

/-- A source whose reading fails at another character is answered at its place. -/
theorem located_of_fault {source : String} {fault : LexicalFault}
    (h : segments source.toList = .error fault) (hcause : ∀ c, fault.cause ≠ .foreignDigit c) :
    Located source.toList (sourceTokens source) := by
  obtain ⟨before, c, rest, hsource, hrest, -, -⟩ := segments_take_of_error h
  obtain ⟨cause, place⟩ := fault
  obtain rfl : place = c :: rest := hrest
  rw [sourceTokens_of_fault h, stop_of_ne_foreignDigit hcause, offset_of_fault hsource]
  refine .problem rfl ?_ rfl
  rw [hsource, List.length_append, List.length_cons]
  omega

/-- A source is answered with tokens or with a grammar problem at a place inside it if and only if
its reading comes to no digit of another script. A character that begins nothing is reported as not
expected, at its place, if and only if it is no such digit. -/
theorem located_sourceTokens_iff (source : String) :
    (Located source.toList (sourceTokens source) ↔
      ∀ c rest, ComesTo source.toList (c :: rest) → isForeignDigit c = false) ∧
    ∀ before c rest, source.toList = before ++ c :: rest → ComesTo source.toList (c :: rest) →
      BeginsNothing c →
      (sourceTokens source =
          .error (.of (.lexical (.unexpected c)) (.ofOffset source.toList before.length)) ↔
        isForeignDigit c = false) := by
  refine ⟨⟨?_, ?_⟩, ?_⟩
  · intro h c rest hcomes
    by_cases hforeign : isForeignDigit c = true
    · rw [aborts_of_comesTo hcomes hforeign] at h
      cases h
    · exact Bool.eq_false_iff.mpr hforeign
  · intro h
    cases hsegments : segments source.toList with
    | ok pieces =>
      rw [sourceTokens_of_segments hsegments]
      exact .tokens _
    | error fault =>
      refine located_of_fault hsegments ?_
      intro c hcause
      obtain ⟨d, rest, -, hcomes, hread⟩ := comesTo_of_segments hsegments
      rcases beginsAt_of_readPiece hread with hbegins | ⟨-, hforeign⟩
      · rw [hcause] at hbegins
        cases hbegins
      · rw [h d rest hcomes] at hforeign
        cases hforeign
  · intro before c rest hsource hcomes hnothing
    by_cases hforeign : isForeignDigit c = true
    · rw [aborts_of_comesTo hcomes hforeign, hforeign]
      constructor
      · intro h
        cases h
      · intro h
        cases h
    · have hread : readPiece c rest = .error (.unexpected c) := by
        rw [readPiece_of_beginsNothing hnothing, if_neg hforeign]
      rw [sourceTokens_of_fault (segments_of_comesTo hcomes hread),
        stop_of_ne_foreignDigit (by simp), offset_of_fault hsource]
      exact iff_of_true rfl (Bool.eq_false_iff.mpr hforeign)

/-- A digit of another script stops the reading without a report. -/
theorem located_fails_foreignDigit :
    sourceTokens "٣" = .error (.abort .foreignDigit) ∧
      ¬ Located "٣".toList (sourceTokens "٣") := by
  have hcomes : ComesTo "٣".toList ['٣'] := .refl _
  have habort : sourceTokens "٣" = .error (.abort .foreignDigit) :=
    aborts_of_comesTo hcomes (by decide)
  refine ⟨habort, ?_⟩
  intro h
  rw [habort] at h
  cases h

end Microtypes
