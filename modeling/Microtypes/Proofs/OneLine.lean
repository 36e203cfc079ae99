import Microtypes.Options.Flag
import Microtypes.Output
import Microtypes.Proofs.Diagnosis
import Microtypes.Proofs.Grammar.FaultPlace
import Microtypes.Proofs.Grammar.HiddenName
import Microtypes.Proofs.PassingOn

/-!
# Diagnostics on one line

What a diagnostic says in its own words stands on one line. A line feed can come only from a literal
or a doc comment that it quotes, and does so wherever the quoted token holds one; only then do the
diagnostics of a source take up more lines than there are diagnostics (`printsLines_of_ofSource`).
-/

namespace Microtypes

variable {source label message text : String} {name? : Option String} {features : Features}
  {problem : Problem} {d : Diagnostic} {ts : List Token}

/-! ## Texts without a line feed -/

theorem feed_not_mem_toDigits {base : Nat} (hbase : 1 < base) (n : Nat) :
    '\n' ∉ Nat.toDigits base n := by
  induction n using Nat.strongRecOn with
  | ind n ih =>
    rw [Nat.toDigits_eq_if hbase]
    split
    · simp
    · have hlt : n / base < n := Nat.div_lt_self (by omega) hbase
      simp [ih _ hlt]

theorem feed_not_mem_number (n : Nat) : '\n' ∉ (toString n).toList := by
  rw [Nat.toString_eq_repr, Nat.toList_repr]
  exact feed_not_mem_toDigits (by decide) n

theorem feed_not_mem_codeEscape (c : Char) : '\n' ∉ (codeEscape c).toList := by
  have hhex (width n : Nat) : '\n' ∉ (hexText width n).toList := by
    simp only [hexText, String.toList_ofList, List.mem_append, not_or]
    exact ⟨fun h => absurd (List.eq_of_mem_replicate h) (by decide),
      feed_not_mem_toDigits (by decide) n⟩
  have hcode (mark : String) (width : Nat) (hmark : '\n' ∉ mark.toList) :
      '\n' ∉ (mark ++ hexText width c.toNat).toList :=
    feed_not_mem_append hmark (hhex width c.toNat)
  unfold codeEscape
  split
  · exact hcode "\\x" 2 (feed_not_mem_of_chars rfl (by decide))
  · split
    · exact hcode "\\u" 4 (feed_not_mem_of_chars rfl (by decide))
    · exact hcode "\\U" 8 (feed_not_mem_of_chars rfl (by decide))

/-- A quoted text stands on one line. -/
theorem feed_not_mem_quoted (text : String) : '\n' ∉ (quoted text).toList := by
  have hquote : '\n' ≠ quoteFor text.toList := by
    unfold quoteFor
    split <;> decide
  have hchar (c : Char) : '\n' ∉ (quotedChar (quoteFor text.toList) c).toList := by
    unfold quotedChar
    split
    · next h => rcases h with rfl | rfl <;> simp [hquote]
    · split
      · decide
      · split
        · decide
        · next hfeed =>
          split
          · decide
          · split
            · simpa using Ne.symm hfeed
            · exact feed_not_mem_codeEscape c
  simp [quoted, hquote, hchar]

/-! ## Messages -/

/-- Whether a message says everything on one line but the text that it quotes, if there is one. -/
inductive Worded : Option String → String → Prop
  | fixed {message : String} (h : '\n' ∉ message.toList) : Worded none message
  | quoting (front back : String) {message text : String}
      (hmessage : message = front ++ "`" ++ text ++ "`" ++ back) (hfront : '\n' ∉ front.toList)
      (hback : '\n' ∈ back.toList → '\n' ∈ text.toList) : Worded (some text) message

theorem worded_fixed {chars : List Char} (hmessage : message = String.ofList chars)
    (h : '\n' ∉ chars) : Worded none message :=
  .fixed (feed_not_mem_of_chars hmessage h)

theorem worded_closing (front : String) (hmessage : message = front ++ "`" ++ text ++ "`")
    (hfront : '\n' ∉ front.toList) : Worded (some text) message :=
  .quoting front "" (by rw [hmessage, String.append_empty]) hfront (by simp)

theorem worded_syntaxCause {cause : SyntaxCause}
    (hneeds : ∀ what ∈ cause.needed?, '\n' ∉ what.toList) : Worded cause.cited? cause.message := by
  cases cause with
  | unexpectedEnd | innerAttribute => exact worded_fixed rfl (by decide)
  | reservedName => exact .fixed (by decide +kernel)
  | expected what found =>
    have hneeded : '\n' ∉ ("expected " ++ what).toList :=
      feed_not_mem_append (feed_not_mem_of_chars rfl (by decide)) (hneeds what rfl)
    cases found with
    | none => exact .fixed (feed_not_mem_append hneeded (feed_not_mem_of_chars rfl (by decide)))
    | some found =>
      refine worded_closing ("expected " ++ what ++ ", found ") ?_
        (feed_not_mem_append hneeded (feed_not_mem_of_chars rfl (by decide)))
      show "expected " ++ what ++ ", found `" ++ found ++ "`" = _
      simp only [String.append_assoc, String.reduceAppend]
  | omitted what =>
    have hfront : '\n' ∉ "expected ".toList := feed_not_mem_of_chars rfl (by decide)
    exact .fixed (feed_not_mem_append hfront (hneeds what rfl))
  | unclosed opener =>
    exact worded_closing "unclosed delimiter " rfl (feed_not_mem_of_chars rfl (by decide))
  | mismatched closer =>
    exact worded_closing "mismatched closing delimiter " rfl (feed_not_mem_of_chars rfl (by decide))
  | keyword word =>
    have hhint : '\n' ∉ " is a reserved keyword; use `r#".toList :=
      feed_not_mem_of_chars rfl (by decide)
    refine .quoting "" (" is a reserved keyword; use `r#" ++ word ++ "`") ?_ (by simp)
      (not_imp_not.mp fun hword => ?_)
    · show "`" ++ word ++ ("`" ++ " is a reserved keyword; use `r#") ++ word ++ "`" = _
      simp only [String.append_assoc, String.empty_append]
    · exact feed_not_mem_append (feed_not_mem_append hhint hword) (by decide)
  | afterType found =>
    have hback : '\n' ∉ " after the type".toList := feed_not_mem_of_chars rfl (by decide)
    refine .quoting "unexpected " " after the type" ?_ (feed_not_mem_of_chars rfl (by decide))
      (fun h => absurd h hback)
    show "unexpected `" ++ found ++ "` after the type" = _
    simp only [String.append_assoc, String.reduceAppend]

/-- Apart from the token that it quotes, a message says everything on one line. -/
theorem worded_cause {cause : Cause} (hnames : ∀ name ∈ cause.named?, '\n' ∉ name.toList) :
    Worded cause.cited? cause.message := by
  cases cause with
  | lexical cause =>
    cases cause with
    | unterminatedComment | unterminatedRawString | unterminatedString | strayQuote =>
      exact worded_fixed rfl (by decide)
    | unexpected c =>
      have hfront : '\n' ∉ "unexpected character ".toList := feed_not_mem_of_chars rfl (by decide)
      exact .fixed (feed_not_mem_append hfront (feed_not_mem_quoted _))
    | foreignDigit c => exact worded_fixed rfl List.not_mem_nil
  | grammatical cause => exact worded_syntaxCause hnames
  | control cause =>
    cases cause with
    | duplicate path =>
      have hfront : '\n' ∉ "duplicate `".toList := feed_not_mem_of_chars rfl (by decide)
      have hback : '\n' ∉ "` attribute found".toList := feed_not_mem_of_chars rfl (by decide)
      exact .fixed (feed_not_mem_append (feed_not_mem_append hfront (hnames path rfl)) hback)
    | columnKey found =>
      exact worded_closing "expected `sql_type`, found " rfl (feed_not_mem_of_chars rfl (by decide))
    | bothKinds | secretForm | columnForm | columnType => exact worded_fixed rfl (by decide)
    | columnEquals => exact .fixed (by decide +kernel)
  | unsupported cause => cases cause <;> exact worded_fixed rfl (by decide)

theorem Worded.feed_iff {cited? : Option String} (h : Worded cited? message) :
    '\n' ∈ message.toList ↔ ∃ text ∈ cited?, '\n' ∈ text.toList := by
  cases h with
  | fixed hfeed => simp [hfeed]
  | quoting front back hmessage hfront hback =>
    have hmark : '\n' ∉ "`".toList := by decide
    simp only [hmessage, String.toList_append, List.mem_append, hfront, hmark, false_or, or_false,
      Option.mem_some, exists_eq_left', or_iff_left_iff_imp]
    exact hback

theorem Worded.quotes (h : Worded (some text) message) :
    ("`" ++ text ++ "`").toList <:+: message.toList := by
  cases h with
  | quoting front back hmessage =>
    refine ⟨front.toList, back.toList, ?_⟩
    simp only [hmessage, String.toList_append, List.append_assoc]

/-! ## Tokens -/

theorem ne_feed_of_isIdentRest {c : Char} (h : isIdentRest c = true) : c ≠ '\n' := by
  rintro rfl
  revert h
  decide

theorem feed_not_mem_ident {plain : List Char} (raw : Bool) (h : IsPlainIdent plain) :
    '\n' ∉ (if raw then ['r', '#'] else []) ++ plain := by
  have hmark : '\n' ∉ (if raw then ['r', '#'] else []) := by cases raw <;> decide
  rw [List.mem_append, or_iff_right hmark]
  exact fun hfeed => ne_feed_of_isIdentRest (h.rest _ hfeed) rfl

/-- Only literals and doc comments reach over the end of a line. -/
theorem kind_of_feed {t : Lexeme} (h : t.Shaped) (hfeed : '\n' ∈ t.text.toList) :
    t.kind = .literal ∨ t.kind = .doc := by
  unfold Lexeme.Shaped at h
  cases hkind : t.kind with
  | ident =>
    rw [hkind] at h
    obtain ⟨raw, plain, hplain, htext⟩ := form_of_identExtent h
    rw [htext] at hfeed
    exact absurd hfeed (feed_not_mem_ident raw hplain)
  | lifetime =>
    rw [hkind] at h
    obtain ⟨name, htext, -, hname⟩ := h
    rw [htext] at hfeed
    rcases List.mem_cons.mp hfeed with hfeed | hfeed
    · cases hfeed
    · exact absurd rfl (ne_feed_of_isIdentRest (hname _ hfeed))
  | literal => exact .inl rfl
  | punct =>
    rw [hkind] at h
    have hsingle : '\n' ∉ singlePuncts := by decide
    have hpaired : ∀ pair ∈ pairedPuncts, '\n' ∉ [pair.1, pair.2] := by decide
    generalize t.text.toList = text at h hfeed
    cases h with
    | single hc => exact absurd (List.mem_singleton.mp hfeed ▸ hc) hsingle
    | paired hcd => exact absurd hfeed (hpaired _ hcd)
  | doc => exact .inr rfl

/-! ## Diagnostics -/

/-- Whether a problem quotes no token but one of the source that stands at its place, and what else
is put into its message stands on one line. -/
structure Problem.CitesSource (source : String) (problem : Problem) : Prop where
  quotes : ∀ text ∈ problem.cause.cited?, ∃ ts, sourceTokens source = .ok ts ∧
    ∃ t ∈ ts, t.location = problem.location ∧ t.text = text
  names : ∀ name ∈ problem.cause.named?, '\n' ∉ name.toList

theorem Problem.Cites.citesSource (h : problem.Cites ts) (hts : sourceTokens source = .ok ts) :
    problem.CitesSource source where
  quotes text htext := ⟨ts, hts, h.quotes text htext⟩
  names := h.names

/-- What the line of a diagnostic begins with. -/
def Diagnostic.heading (d : Diagnostic) (label : String) : String :=
  s!"{label}:{d.location.line}:{d.location.column}: error[{d.kind.name}]: "

/-- What the line of a diagnostic says after the message. -/
def Diagnostic.subject (d : Diagnostic) : String :=
  match d.name with
  | none => ""
  | some name => " (in `" ++ name ++ "`)"

/-- Whether a diagnostic quotes the token at its place, and this is a literal or a doc comment that
holds a line feed. -/
def Diagnostic.QuotesFeed (source : String) (d : Diagnostic) : Prop :=
  ∃ ts, sourceTokens source = .ok ts ∧ ∃ t ∈ ts, t.location = d.location ∧
    (t.kind = .literal ∨ t.kind = .doc) ∧ '\n' ∈ t.text.toList ∧
      ("`" ++ t.text ++ "`").toList <:+: d.message.toList

theorem consoleLine_eq (d : Diagnostic) (label : String) :
    d.consoleLine label = d.heading label ++ d.message ++ d.subject := by
  unfold Diagnostic.consoleLine Diagnostic.heading Diagnostic.subject Location.text
  cases d.name with
  | none => simp only [toString, String.append_assoc, String.append_empty]
  | some name => simp only [toString, String.append_assoc]

theorem feed_not_mem_heading (d : Diagnostic) (hlabel : '\n' ∉ label.toList) :
    '\n' ∉ (d.heading label).toList := by
  have hkind : '\n' ∉ d.kind.name.toList := by
    cases d.kind <;> exact feed_not_mem_of_chars rfl (by decide)
  have hcolon : '\n' ∉ ":".toList := by decide
  have hopen : '\n' ∉ ": error[".toList := feed_not_mem_of_chars rfl (by decide)
  have hclose : '\n' ∉ "]: ".toList := feed_not_mem_of_chars rfl (by decide)
  refine feed_not_mem_append (feed_not_mem_append ?_ hkind) hclose
  refine feed_not_mem_append (feed_not_mem_append ?_ (feed_not_mem_number _)) hopen
  refine feed_not_mem_append (feed_not_mem_append ?_ (feed_not_mem_number _)) hcolon
  exact feed_not_mem_append hlabel hcolon

theorem feed_not_mem_subject (hname : ∀ name ∈ d.name, '\n' ∉ name.toList) :
    '\n' ∉ d.subject.toList := by
  unfold Diagnostic.subject
  split
  · decide
  · next name hsome =>
    have hfront : '\n' ∉ " (in `".toList := feed_not_mem_of_chars rfl (by decide)
    exact feed_not_mem_append (feed_not_mem_append hfront (hname name hsome))
      (by decide)

/-- The line of a diagnostic is broken exactly if it quotes a token that is. -/
theorem feed_mem_consoleLine_iff (hlabel : '\n' ∉ label.toList)
    (hname : ∀ name ∈ name?, '\n' ∉ name.toList) (h : problem.CitesSource source) :
    '\n' ∈ ((problem.diagnostic name?).consoleLine label).toList ↔
      (problem.diagnostic name?).QuotesFeed source := by
  have hworded := worded_cause h.names
  rw [consoleLine_eq, String.toList_append, String.toList_append, List.mem_append, List.mem_append,
    or_iff_left (feed_not_mem_subject hname), or_iff_right (feed_not_mem_heading _ hlabel)]
  constructor
  · intro hfeed
    obtain ⟨text, htext, hbreaks⟩ := hworded.feed_iff.mp hfeed
    obtain ⟨ts, hts, t, ht, hplace, rfl⟩ := h.quotes text htext
    have hshaped := shaped_of_tokens (tokens_of_sourceTokens hts) (List.mem_map_of_mem ht)
    rw [Option.mem_def.mp htext] at hworded
    exact ⟨ts, hts, t, ht, hplace, kind_of_feed hshaped hbreaks, hbreaks, hworded.quotes⟩
  · rintro ⟨ts, -, t, -, -, -, hbreaks, hquoted⟩
    refine hquoted.subset ?_
    simp [hbreaks]

/-! ## Lines -/

theorem lineFeeds_unlines_cons (line : String) (lines : List String) :
    lineFeeds (unlines (line :: lines)) = lineFeeds line + 1 + lineFeeds (unlines lines) := by
  have hend : "\n".toList.count '\n' = 1 := rfl
  simp only [lineFeeds, unlines, String.toList_join, List.map_cons, List.flatMap_cons,
    List.count_append, String.toList_append, hend]

theorem length_le_lineFeeds_unlines (lines : List String) :
    lines.length ≤ lineFeeds (unlines lines) := by
  induction lines with
  | nil => exact Nat.zero_le _
  | cons line lines ih =>
    rw [lineFeeds_unlines_cons, List.length_cons]
    omega

/-- Each text is a line of its own exactly if none of them has a line feed. -/
theorem lineFeeds_unlines_eq_iff {lines : List String} :
    lineFeeds (unlines lines) = lines.length ↔ ∀ line ∈ lines, '\n' ∉ line.toList := by
  induction lines with
  | nil => exact ⟨fun _ _ h => absurd h List.not_mem_nil, fun _ => rfl⟩
  | cons line lines ih =>
    have hnone : lineFeeds line = 0 ↔ '\n' ∉ line.toList := List.count_eq_zero
    have hle := length_le_lineFeeds_unlines lines
    rw [lineFeeds_unlines_cons, List.length_cons, List.forall_mem_cons, ← ih, ← hnone]
    omega

/-! ## All diagnostics of a source -/

/-- Whether the diagnostics of an expansion are printed with the place and the kind in front, and on
one line each unless they quote a token that is not on one line. -/
structure Expansion.PrintsLines (e : Expansion) (source label : String) : Prop where
  heading : ∀ d ∈ e.errors, (d.heading label).toList <+: (d.consoleLine label).toList
  broken : ∀ d ∈ e.errors, '\n' ∈ (d.consoleLine label).toList ↔ d.QuotesFeed source
  lines : lineFeeds (unlines (e.errors.map (·.consoleLine label))) = e.errors.length ↔
    ∀ d ∈ e.errors, ¬ d.QuotesFeed source

/-- A source that has no tokens has a lexical problem. -/
theorem lexical_of_sourceTokens (h : sourceTokens source = .error (.problem problem)) :
    ∃ cause, problem.cause = .lexical cause := by
  unfold sourceTokens at h
  cases htokens : tokens source.toList with
  | ok ts =>
    rw [htokens] at h
    cases h
  | error fault =>
    rw [htokens] at h
    have hstop : fault.stop source.toList = .problem problem := Except.error.inj h
    unfold LexicalFault.stop at hstop
    split at hstop
    · cases hstop
    · cases hstop
      exact ⟨_, rfl⟩

theorem citesSource_of_readSource (h : readSource source = .error (.problem problem)) :
    problem.CitesSource source := by
  cases hts : sourceTokens source with
  | error stop =>
    rw [readSource, hts] at h
    cases h
    obtain ⟨cause, hlexical⟩ := lexical_of_sourceTokens hts
    constructor
    · rw [hlexical]
      rintro _ ⟨⟩
    · rw [hlexical]
      rintro _ ⟨⟩
  | ok ts =>
    obtain ⟨fault, hread, hproblem⟩ := tokens_of_readSource_error hts h
    cases hproblem
    have hrest := suffix_of_readBlocks (proper_of_sourceTokens hts) hread
    exact (cites_of_fault (cites_readBlocks hread) hrest _).citesSource hts

/-- Every diagnostic of an expansion quotes only its source. -/
theorem citesSource_of_mem_errors {e : Expansion} (he : Expansion.ofSource source features = .ok e)
    (hd : d ∈ e.errors) : ∃ problem name?, d = Problem.diagnostic problem name? ∧
      problem.CitesSource source ∧ ∀ name ∈ name?, '\n' ∉ name.toList := by
  obtain ⟨outcome, houtcome, hfailed⟩ := List.mem_filterMap.mp hd
  cases outcome with
  | generated => cases hfailed
  | failed =>
    cases hfailed
    rcases origin_of_mem_results he houtcome with ⟨problem, hread, hrefused⟩ |
      ⟨_, hread, -, spec, hspec, hexpand⟩
    · cases hrefused
      exact ⟨problem, none, rfl, citesSource_of_readSource hread, by rintro _ ⟨⟩⟩
    · obtain ⟨problem, a, ts, run, rfl, -, hblamed, hts, hrun, hstands⟩ :=
        exists_blamed_of_expandSpec hread hspec hexpand
      have hcites := hblamed.cites.mono (List.Subset.trans hstands.arguments_subset hrun.subset)
      refine ⟨problem, some spec.name, rfl, hcites.citesSource hts, ?_⟩
      rintro _ ⟨⟩
      obtain ⟨raw, plain, hplain, htext⟩ := (isDeclarable_of_mem_specsOf hread hspec).form
      rw [htext]
      exact feed_not_mem_ident raw hplain

theorem printsLines_of_ofSource {e : Expansion} (hlabel : '\n' ∉ label.toList)
    (he : Expansion.ofSource source features = .ok e) : e.PrintsLines source label := by
  have hbroken : ∀ d ∈ e.errors, '\n' ∈ (d.consoleLine label).toList ↔ d.QuotesFeed source := by
    intro d hd
    obtain ⟨problem, name, rfl, hcites, hname⟩ := citesSource_of_mem_errors he hd
    exact feed_mem_consoleLine_iff hlabel hname hcites
  refine ⟨fun d _ => ?_, hbroken, ?_⟩
  · rw [consoleLine_eq, String.toList_append, String.toList_append, List.append_assoc]
    exact List.prefix_append _ _
  · rw [← List.length_map (·.consoleLine label), lineFeeds_unlines_eq_iff, List.forall_mem_map]
    exact forall₂_congr fun d hd => not_congr (hbroken d hd)

/-- The diagnostic of a malformed attribute, which quotes nothing, takes up one line. -/
theorem printsLines_of_ofSource_malformed :
    '\n' ∉ "a.microtype".toList ∧ ∃ e,
      Expansion.ofSource "A\x7b#[secret(x)]B,C\x7d" .default = .ok e ∧ e.errors.length = 1 ∧
      e.PrintsLines "A\x7b#[secret(x)]B,C\x7d" "a.microtype" := by
  have hlabel : '\n' ∉ "a.microtype".toList := feed_not_mem_of_chars rfl (by decide)
  obtain ⟨blocks, e, -, he, herrors⟩ := exists_ofSource_malformed
  refine ⟨hlabel, e, he, ?_, printsLines_of_ofSource hlabel he⟩
  rw [herrors]
  rfl

/-! ## A string that is broken -/

/-- A string with a line feed in it. -/
def brokenString : Token :=
  ⟨⟨.literal, "\"\n\""⟩, ⟨1, 1⟩, 0, 3⟩

/-- The string is refused where a block should begin. -/
theorem readSource_brokenString : readSource "\"\n\"" =
    .error (.of (.grammatical (.expected "a type" (some "\"\n\""))) ⟨1, 1⟩) := by
  have hsegments : segments "\"\n\"".toList = .ok [⟨some .literal, ['"', '\n', '"']⟩] :=
    segments_cons _ 2 rfl segments_nil
  have htokens : sourceTokens "\"\n\"" = .ok [brokenString] :=
    sourceTokens_of_segments hsegments
  have hattributes : readAttributes "\"\n\"".toList [brokenString] = .ok ([], _) :=
    readAttributes_of_other (by decide) (by decide)
  have hvisibility : readVisibility [brokenString] = .ok ("", _) := rfl
  have hpass :
      Goal.pass [.type] [brokenString] = .error (expectedFault "a type" [brokenString]) := by
    refine pass_of_step rfl (pass_of_step rfl ?_)
    exact pass_cons
  have htype : readType [brokenString] = .error (expectedFault "a type" [brokenString]) := by
    rw [readType, hpass]
  rw [readSource, htokens]
  simp only [bind, Except.bind, readBlocks_cons, readBlock, hattributes, hvisibility, htype]
  rfl

/-- The message about the string is broken where the string is, so that its one diagnostic takes up
two lines. -/
theorem printsLines_fails_brokenString :
    '\n' ∉ "a.microtype".toList ∧ ∃ e d, Expansion.ofSource "\"\n\"" .default = .ok e ∧
      e.errors = [d] ∧ '\n' ∈ (d.consoleLine "a.microtype").toList ∧
      lineFeeds (unlines (e.errors.map (·.consoleLine "a.microtype"))) = 2 := by
  refine ⟨feed_not_mem_of_chars rfl (by decide), ?_⟩
  rw [Expansion.ofSource, readSource_brokenString]
  refine ⟨_, _, rfl, rfl, ?_, ?_⟩
  · decide +kernel
  · decide +kernel

end Microtypes
