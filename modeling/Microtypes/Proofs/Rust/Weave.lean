import Mathlib.Data.List.Infix
import Microtypes.Proofs.Grammar.TypeEnds
import Microtypes.Rust.Impl

/-!
# Lines woven from fixed pieces and given texts

A generated line alternates between pieces that are the same in every wrapper and texts that are
given, such as names and types. The fixed pieces can be looked at one by one. At a seam a piece ends
so that anything may follow, or the next one begins with a mark that may be put behind a type. So a
woven line is read piece by piece (`Woven.reads`), and no word that gives a value away arises at a
seam if it is in none of the pieces (`Woven.avoids`).
-/

namespace Microtypes

open Lexeme (punct ident)

variable {kind : TokenKind} {cs more rest after : List Char} {ts us : List Lexeme}
  {discreet begins opens : Bool} {given : String → Prop} {a b c outer : List Delimiter}
  {text line head path type : String} {lines body : List String}

/-! ## Fixed pieces -/

/-- The characters that anything may follow. -/
def openers : List Char := [' ', '<', '&', '(']

/-- Whether a piece ends so that anything may follow. -/
def opensUp (cs : List Char) : Bool :=
  cs.getLast?.all openers.contains

/-- Whether a token of a fixed piece stays what it is in front of the rest of the piece. At the end
of the piece it has to stay what it is in front of all that may follow. -/
def staysApart (kind : TokenKind) (text : List Char) : List Char → Bool
  | [] =>
    match kind with
    | .doc => false
    | .punct => !([[':'], [':', ':'], ['-'], ['=']].contains text)
    | .ident | .lifetime | .literal => !opensUp text
  | d :: _ =>
    match kind, text with
    | .doc, _ => false
    | .ident, _ => !isIdentRest d && !(['#', '"', '\''].contains d)
    | .punct, [c] => !pairedPuncts.contains (c, d) && (c != '/' || !(['/', '*'].contains d))
    | .punct, _ => true
    | .lifetime, _ | .literal, _ => separators.contains d

/-- Whether a reading at the front of a fixed piece is a space, or a token that stays what it is. -/
def Reading.stays (reading : Reading) (c : Char) (rest : List Char) : Bool :=
  match reading.kind with
  | none => c == ' ' && reading.more == 0
  | some kind => staysApart kind (c :: rest.take reading.more) (rest.drop reading.more)

/-- The tokens of a fixed piece behind its first characters, if they stay what they are. -/
def fixedLexemes : Nat → List Char → Option (List Lexeme)
  | _, [] => some []
  | skip + 1, _ :: rest => fixedLexemes skip rest
  | 0, c :: rest =>
    ((readPiece c rest).toOption.filter (·.stays c rest)).bind fun reading =>
      (fixedLexemes reading.more rest).map fun later =>
        (Segment.lexeme? ⟨reading.kind, c :: rest.take reading.more⟩).toList ++ later

theorem eq_ok_of_toOption {ε α : Type} {result : Except ε α} {x : α}
    (h : result.toOption = some x) : result = .ok x := by
  cases result with
  | error e => cases h
  | ok y =>
    cases h
    rfl

theorem opensUp_of_suffix (h : opensUp cs = true) (hrest : rest <:+ cs) : opensUp rest = true := by
  obtain ⟨front, rfl⟩ := hrest
  by_cases hne : rest = []
  · rw [hne]
    rfl
  · rwa [opensUp, List.getLast?_append_of_ne_nil _ hne] at h

/-- The last token of a piece stays what it is in front of what may follow the piece. -/
theorem setApart_of_staysApart (hshaped : ShapedAs kind more) (h : staysApart kind more [] = true)
    (hafter : opensUp more = true ∨ parted after = true) : SetApart kind more after := by
  have hfinal (hnoDoc : kind ≠ .doc)
      (hnoMark : kind = .punct → more ∉ [[':'], [':', ':'], ['-'], ['=']])
      (hparted : parted after = true) : SetApart kind more after := by
    have ht : (⟨kind, String.ofList more⟩ : Lexeme).Final := by
      by_cases hk : kind = .punct
      · refine ⟨hnoDoc, fun hmem => hnoMark hk ?_⟩
        have hall : ∀ t ∈ [punct ":", punct "::", punct "-", punct "="],
            t.text.toList ∈ [[':'], [':', ':'], ['-'], ['=']] := by decide +kernel
        have hmark := hall _ hmem
        rwa [String.toList_ofList] at hmark
      · exact final_of_kind hk hnoDoc
    have hapart := ht.setApart hparted
    rwa [String.toList_ofList] at hapart
  have hother (hkind : staysApart kind more [] = !opensUp more) : parted after = true := by
    rw [hkind, Bool.not_eq_true'] at h
    exact hafter.resolve_left (by rw [h]; decide)
  cases kind with
  | doc => cases h
  | ident => exact hfinal (by decide) (fun hk => by cases hk) (hother rfl)
  | lifetime => exact hfinal (by decide) (fun hk => by cases hk) (hother rfl)
  | literal => exact hfinal (by decide) (fun hk => by cases hk) (hother rfl)
  | punct =>
    rcases hafter with hopens | hparted
    · intro c d htext hd
      subst htext
      have hall : ∀ c ∈ openers, c ≠ '/' ∧ ∀ p ∈ pairedPuncts, p.1 ≠ c :=
        forall_mem_of_all (by decide)
      have hc : c ∈ openers := List.contains_iff_mem.mp hopens
      exact ⟨fun hpair => (hall c hc).2 _ hpair rfl, fun hslash => absurd hslash (hall c hc).1⟩
    · refine hfinal (by decide) (fun _ hmem => ?_) hparted
      have hno : (!([[':'], [':', ':'], ['-'], ['=']].contains more)) = true := h
      rw [List.contains_iff_mem.mpr hmem] at hno
      cases hno

/-- A token that stays what it is in its piece is read back there. -/
theorem readPiece_of_staysApart {c : Char} (hshaped : ShapedAs kind (c :: more))
    (h : staysApart kind (c :: more) rest = true)
    (hafter : opensUp (c :: (more ++ rest)) = true ∨ parted after = true) :
    readPiece c (more ++ (rest ++ after)) = .ok ⟨some kind, more.length⟩ := by
  cases rest with
  | nil =>
    rw [List.append_nil] at hafter
    exact readPiece_of_shaped hshaped (setApart_of_staysApart hshaped h hafter)
  | cons d rest =>
    have hhead {p : Char → Prop} (hd : p d) : ∀ e ∈ (d :: rest ++ after).head?, p e := by
      rintro e ⟨⟩
      exact hd
    cases kind with
    | doc => cases h
    | ident =>
      simp only [staysApart, Bool.and_eq_true, Bool.not_eq_true'] at h
      have hmarks : d ≠ '#' ∧ d ≠ '"' ∧ d ≠ '\'' := by simpa using h.2
      exact readPiece_ident hshaped (hhead ⟨h.1, hmarks.1, hmarks.2.1, hmarks.2.2⟩)
    | lifetime =>
      exact readPiece_lifetime hshaped (hhead (List.contains_iff_mem.mp h))
    | literal =>
      exact readPiece_literal hshaped (hhead (List.contains_iff_mem.mp h))
    | punct =>
      refine readPiece_punct hshaped fun e f htext hf => ?_
      obtain ⟨rfl, rfl⟩ := List.cons.inj htext
      obtain rfl : d = f := Option.some.inj hf
      simp only [staysApart, Bool.and_eq_true, Bool.not_eq_true', Bool.or_eq_true,
        List.contains_eq_mem, decide_eq_false_iff_not, bne_iff_ne] at h
      refine ⟨h.1, fun hslash => ?_⟩
      simpa [hslash] using h.2

/-- A space or a token at the front of a fixed piece is read there. -/
theorem lexedBefore_of_stays {c : Char} {reading : Reading} (hread : readPiece c rest = .ok reading)
    (hstays : reading.stays c rest = true)
    (hafter : opensUp (c :: rest) = true ∨ parted after = true) :
    LexedBefore (c :: rest.take reading.more)
      (Segment.lexeme? ⟨reading.kind, c :: rest.take reading.more⟩).toList
      (rest.drop reading.more ++ after) := by
  obtain ⟨kind, more⟩ := reading
  cases kind with
  | none =>
    simp only [Reading.stays, Bool.and_eq_true, beq_iff_eq] at hstays
    obtain ⟨rfl, rfl⟩ := hstays
    exact (lexedBefore_nil _).space
  | some kind =>
    have hshaped : ShapedAs kind (c :: rest.take more) := takesShape_of_readPiece hread kind rfl
    exact lexedBefore_piece (readPiece_of_staysApart hshaped hstays
      (by rwa [List.take_append_drop]))

/-- The tokens of a fixed piece are read in front of what may follow. -/
theorem lexedBefore_of_fixedLexemes {skip : Nat} (h : fixedLexemes skip cs = some ts)
    (hafter : opensUp cs = true ∨ parted after = true) : LexedBefore (cs.drop skip) ts after := by
  induction cs generalizing skip ts with
  | nil =>
    cases h
    rw [List.drop_nil]
    exact lexedBefore_nil after
  | cons c rest ih =>
    have hrest : opensUp rest = true ∨ parted after = true :=
      hafter.imp_left fun ho => opensUp_of_suffix ho (List.suffix_cons c rest)
    cases skip with
    | succ skip =>
      rw [fixedLexemes] at h
      exact ih h hrest
    | zero =>
      rw [fixedLexemes] at h
      obtain ⟨reading, hreading, hlater⟩ := Option.bind_eq_some_iff.mp h
      obtain ⟨us, hus, rfl⟩ := Option.map_eq_some_iff.mp hlater
      obtain ⟨hread, hstays⟩ := Option.filter_eq_some_iff.mp hreading
      have hall := (lexedBefore_of_stays (eq_ok_of_toOption hread) hstays hafter).append
        (ih hus hrest)
      rwa [List.cons_append, List.take_append_drop] at hall

/-- The words of code that gives away the value of a wrapper. -/
def exposingWords : List String :=
  ["into_inner", "inner_mut", "Deref", "AsRef", "Display", "::microtype::Microtype"]

/-- The characters of the words that give a value away. -/
def exposing : List (List Char) :=
  exposingWords.map String.toList

/-- Whether a fixed piece is read as tokens behind which the brackets `behind` are open if `before`
are open in front. A discreet piece also holds no word that gives a value away. -/
def fits (discreet : Bool) (before behind : List Delimiter) (cs : List Char) : Bool :=
  (fixedLexemes 0 cs).bind (nest before) == some behind &&
    (!discreet || exposing.all fun word => !decide (word <:+: cs))

/-! ## Woven text -/

/-- A text woven from fixed pieces and given texts: the open brackets in front of it and behind it,
whether it begins with a mark that may be put behind a type, and whether anything may follow. -/
inductive Woven (discreet : Bool) (given : String → Prop) :
    List Delimiter → List Delimiter → Bool → Bool → String → Prop
  | fixed (before behind : List Delimiter) {outer : List Delimiter} {cs : List Char}
      (h : fits discreet before behind cs = true) :
      Woven discreet given (before ++ outer) (behind ++ outer) (!cs.isEmpty && parted cs)
        (opensUp cs) (String.ofList cs)
  | given {outer : List Delimiter} {text : String} (h : given text) :
      Woven discreet given outer outer false false text
  | append {a b c : List Delimiter} {begins seam seam' opens : Bool} {text text' : String}
      (h : Woven discreet given a b begins seam text)
      (h' : Woven discreet given b c seam' opens text') (hseam : (seam || seam') = true) :
      Woven discreet given a c begins opens (text ++ text')

theorem fits_true (h : fits true a b cs = true) (discreet : Bool) :
    fits discreet a b cs = true := by
  rw [fits, Bool.and_eq_true] at h ⊢
  refine ⟨h.1, ?_⟩
  cases discreet with
  | false => rfl
  | true => exact h.2

theorem parted_append (h : (!cs.isEmpty && parted cs) = true) (after : List Char) :
    cs ≠ [] ∧ parted (cs ++ after) = true := by
  obtain ⟨hne, hparted⟩ := Bool.and_eq_true_iff.mp h
  cases cs with
  | nil => cases hne
  | cons c cs =>
    refine ⟨List.cons_ne_nil c cs, ?_⟩
    unfold parted at hparted
    split at hparted
    · cases ‹_ :: _ = []›
    · next heq =>
      cases heq
      rw [beq_iff_eq] at hparted
      cases cs with
      | nil => cases hparted
      | cons d cs =>
        cases hparted
        rfl
    · next hcolon heq =>
      cases heq
      rw [List.cons_append, parted]
      · exact hparted
      · rintro rfl
        exact hcolon rfl

namespace Woven

/-- A discreet piece may stand in any text. -/
theorem quiet (before behind : List Delimiter) (h : fits true before behind cs = true) :
    Woven discreet given (before ++ outer) (behind ++ outer) (!cs.isEmpty && parted cs)
      (opensUp cs) (String.ofList cs) :=
  .fixed before behind (fits_true h discreet)

/-- A given text between two fixed pieces. -/
theorem around (before between behind : List Delimiter) {front back : List Char} (h : given text)
    (hfront : fits discreet before between front = true)
    (hback : fits discreet between behind back = true) (hopens : opensUp front = true)
    (hparted : (!back.isEmpty && parted back) = true) :
    Woven discreet given (before ++ outer) (behind ++ outer) (!front.isEmpty && parted front)
      (opensUp back) (String.ofList front ++ text ++ String.ofList back) :=
  .append (.append (.fixed before between hfront) (.given h) (by rw [hopens]; rfl))
    (.fixed between behind hback) hparted

/-- What begins with a mark that may be put behind a type. -/
theorem begins_parted (h : Woven discreet given a b begins opens text) (hbegins : begins = true)
    (after : List Char) : text.toList ≠ [] ∧ parted (text.toList ++ after) = true := by
  induction h generalizing after with
  | fixed before behind h =>
    rw [String.toList_ofList]
    exact parted_append hbegins after
  | given h => cases hbegins
  | append h h' hseam ih ih' =>
    rw [String.toList_append, List.append_assoc]
    exact ⟨List.append_ne_nil_of_left_ne_nil (ih hbegins after).1 _, (ih hbegins _).2⟩

/-- What ends so that anything may follow. -/
theorem opens_up (h : Woven discreet given a b begins opens text) (hopens : opens = true) :
    opensUp text.toList = true := by
  induction h with
  | fixed before behind h => rwa [String.toList_ofList]
  | given h => cases hopens
  | @append a b c begins seam seam' opens text text' h h' hseam ih ih' =>
    rw [String.toList_append]
    by_cases hne : text'.toList = []
    · have hseam' : seam' ≠ true := fun hbegins => (h'.begins_parted hbegins []).1 hne
      rw [Bool.eq_false_iff.mpr hseam', Bool.or_false] at hseam
      rw [hne, List.append_nil]
      exact ih hseam
    · rw [opensUp, List.getLast?_append_of_ne_nil _ hne]
      exact ih' hopens

/-- A woven text is read as tokens that leave the brackets open which it says. -/
theorem reads (h : Woven discreet given a b begins opens text)
    (hgiven : ∀ text, given text → Inserts text) (hafter : opens = true ∨ parted after = true) :
    ∃ ts, nest a ts = some b ∧ LexedBefore text.toList ts after := by
  induction h generalizing after with
  | fixed before behind h =>
    rw [String.toList_ofList]
    obtain ⟨ts, hts, hnest⟩ :=
      Option.bind_eq_some_iff.mp (beq_iff_eq.mp (Bool.and_eq_true_iff.mp h).1)
    exact ⟨ts, nest_outer hnest _, lexedBefore_of_fixedLexemes hts hafter⟩
  | @given outer text h =>
    have hparted : parted after = true := hafter.resolve_left Bool.false_ne_true
    obtain ⟨ts, hbalanced, hlexed⟩ := hgiven text h after hparted
    exact ⟨ts, nest_of_balanced hbalanced outer, hlexed⟩
  | @append a b c begins seam seam' opens text text' h h' hseam ih ih' =>
    have hnext : seam = true ∨ parted (text'.toList ++ after) = true :=
      (Bool.or_eq_true_iff.mp hseam).imp_right fun hbegins => (h'.begins_parted hbegins after).2
    obtain ⟨us, hus, hlexed'⟩ := ih' hafter
    obtain ⟨ts, hts, hlexed⟩ := ih hnext
    refine ⟨ts ++ us, ?_, ?_⟩
    · rw [nest_append, hts]
      exact hus
    · rw [String.toList_append]
      exact hlexed.append hlexed'

/-- A woven text without open brackets can itself be put into other text. -/
theorem inserts (h : Woven discreet given [] [] begins opens text)
    (hgiven : ∀ text, given text → Inserts text) : Inserts text := by
  intro after hafter
  obtain ⟨ts, hnest, hlexed⟩ := h.reads hgiven (Or.inr hafter)
  exact ⟨ts, balanced_iff_nest.mpr hnest, hlexed⟩

/-- A discreet text is a text like any other. -/
theorem mono (h : Woven true given a b begins opens text) (discreet : Bool) :
    Woven discreet given a b begins opens text := by
  induction h with
  | fixed before behind h => exact .quiet before behind h
  | given h => exact .given h
  | append h h' hseam ih ih' => exact .append ih ih' hseam

end Woven

/-! ## Words at seams -/

/-- The marks on either side of a seam. -/
def seamMarks : List Char := [' ', '<', '&', '(', ',', ';', '>', ')']

/-- A word at the end of a piece that anything may follow holds a mark. -/
theorem exists_mark_of_opensUp {word : List Char} (h : opensUp cs = true) (hsuffix : word <:+ cs)
    (hne : word ≠ []) : ∃ c ∈ seamMarks, c ∈ word := by
  obtain ⟨front, rfl⟩ := hsuffix
  rw [opensUp, List.getLast?_append_of_ne_nil _ hne, List.getLast?_eq_some_getLast hne,
    Option.all_some, List.contains_iff_mem] at h
  exact ⟨word.getLast hne, List.mem_append_left [',', ';', '>', ')'] h, List.getLast_mem hne⟩

/-- A word at the front of a text that may be put behind a type holds a mark, or is a colon. -/
theorem exists_mark_of_parted {word : List Char} (h : parted cs = true) (hstarts : word <+: cs)
    (hne : word ≠ []) : (∃ c ∈ seamMarks, c ∈ word) ∨ word = [':'] := by
  obtain ⟨c, word, rfl⟩ := List.exists_cons_of_ne_nil hne
  obtain ⟨rest, rfl⟩ := hstarts
  have hmem := head_of_parted h rfl
  by_cases hc : c = ':'
  · subst hc
    cases word with
    | nil => exact Or.inr rfl
    | cons d word =>
      have hspace : d = ' ' := by simpa [parted] using h
      exact Or.inl ⟨' ', by decide, by simp [hspace]⟩
  · have hall : ∀ c ∈ partingMarks, c = ':' ∨ c ∈ seamMarks := forall_mem_of_all (by decide)
    exact Or.inl ⟨c, (hall c hmem).resolve_left hc, List.mem_cons_self⟩

/-- No word that gives a value away holds such a mark or ends with a colon. -/
theorem exposing_guarded {word : List Char} (h : word ∈ exposing) :
    (∀ c ∈ seamMarks, c ∉ word) ∧ word.getLast? ≠ some ':' := by
  have hall : ∀ word ∈ exposing,
      (seamMarks.all fun c => decide (c ∉ word)) = true ∧ word.getLast? ≠ some ':' :=
    forall_mem_of_all (by decide)
  obtain ⟨hmarks, hcolon⟩ := hall word h
  exact ⟨forall_mem_of_all hmarks, hcolon⟩

/-- A word that gives a value away is in a discreet text only if it is in a given one. -/
theorem Woven.avoids {word : List Char} (h : Woven true given a b begins opens text)
    (hword : word ∈ exposing) (hgiven : ∀ text, given text → ¬ word <:+: text.toList) :
    ¬ word <:+: text.toList := by
  induction h with
  | fixed before behind h =>
    have hnone : (exposing.all fun word => !decide (word <:+: _)) = true :=
      (Bool.and_eq_true_iff.mp h).2
    rw [String.toList_ofList]
    simpa using List.all_eq_true.mp hnone word hword
  | given h => exact hgiven _ h
  | append h h' hseam ih ih' =>
    obtain ⟨hmarks, hcolon⟩ := exposing_guarded hword
    rw [String.toList_append, List.infix_append_iff_ne_nil]
    rintro (hwithin | hwithin | ⟨left, right, hleft, hright, rfl, hsuffix, hstarts⟩)
    · exact ih hwithin
    · exact ih' hwithin
    · rcases Bool.or_eq_true_iff.mp hseam with hopens | hbegins
      · obtain ⟨c, hc, hmem⟩ := exists_mark_of_opensUp (h.opens_up hopens) hsuffix hleft
        exact hmarks c hc (List.mem_append_left right hmem)
      · have hparted := (h'.begins_parted hbegins []).2
        rw [List.append_nil] at hparted
        rcases exists_mark_of_parted hparted hstarts hright with ⟨c, hc, hmem⟩ | rfl
        · exact hmarks c hc (List.mem_append_right left hmem)
        · exact hcolon List.getLast?_concat

/-! ## Woven lines -/

/-- Lines that are woven, with the open brackets in front of them and behind them. -/
inductive WovenLines (discreet : Bool) (given : String → Prop) :
    List Delimiter → List Delimiter → List String → Prop
  | nil {outer : List Delimiter} : WovenLines discreet given outer outer []
  | cons {a b c : List Delimiter} {begins opens : Bool} {line : String} {lines : List String}
      (h : Woven discreet given a b begins opens line)
      (hrest : WovenLines discreet given b c lines) : WovenLines discreet given a c (line :: lines)

namespace WovenLines

theorem append {more : List String} (h : WovenLines discreet given a b lines)
    (hmore : WovenLines discreet given b c more) :
    WovenLines discreet given a c (lines ++ more) := by
  induction h with
  | nil => exact hmore
  | cons h _ ih => exact .cons h (ih hmore)

theorem mono (h : WovenLines true given a b lines) (discreet : Bool) :
    WovenLines discreet given a b lines := by
  induction h with
  | nil => exact .nil
  | cons h _ ih => exact .cons (h.mono discreet) ih

/-- The pieces that layout puts in. -/
theorem fits_layout (discreet : Bool) : fits discreet [] [] [] = true ∧
    fits discreet [] [] [' ', ' ', ' ', ' '] = true ∧ fits discreet [] [.curly] [' ', '{'] = true ∧
    fits discreet [.curly] [] ['}'] = true ∧ fits discreet [] [] ['i', 'm', 'p', 'l', ' '] = true ∧
    fits discreet [] [] [' ', 'f', 'o', 'r', ' '] = true := by
  cases discreet <;> decide +kernel

/-- A word that gives a value away is in a discreet line only if it is in a given text. -/
theorem avoids {word : List Char} (h : WovenLines true given a b lines) (hword : word ∈ exposing)
    (hgiven : ∀ text, given text → ¬ word <:+: text.toList) :
    ∀ line ∈ lines, ¬ word <:+: line.toList := by
  induction h with
  | nil => exact List.forall_mem_nil _
  | cons h _ ih => exact List.forall_mem_cons.mpr ⟨h.avoids hword hgiven, ih⟩

theorem indented (h : WovenLines discreet given a b lines) :
    WovenLines discreet given a b (lines.map indentLine) := by
  induction h with
  | nil => exact .nil
  | @cons a b c begins opens line lines h _ ih =>
    rw [List.map_cons, indentLine]
    split
    · exact .cons h ih
    · have hindent := (fits_layout discreet).2.1
      exact .cons (.append (.fixed [] [] hindent) h rfl) ih

/-- Lines in curly brackets, below a head that may close brackets of its own. -/
theorem braced (hhead : Woven discreet given a outer begins opens head)
    (hbody : WovenLines discreet given (.curly :: outer) (.curly :: outer) body) :
    WovenLines discreet given a outer (braced head body) := by
  obtain ⟨-, -, hopen, hclose, -⟩ := fits_layout discreet
  have hfirst : Woven discreet given a (.curly :: outer) begins false (head ++ " \x7b") :=
    .append hhead (.fixed [] [.curly] hopen) (Bool.or_true opens)
  exact .append (.cons hfirst hbody.indented) (.cons (.fixed [.curly] [] hclose) .nil)

/-- A fixed line in curly brackets, below a fixed head. -/
theorem fixedBlock {front line : List Char} (hfront : fits discreet [] [] front = true)
    (hline : fits discreet [] [] line = true) : WovenLines discreet given outer outer
      (Microtypes.braced (String.ofList front) [String.ofList line]) :=
  braced (.fixed [] [] hfront) (.cons (.fixed [] [] hline) .nil)

/-- Blocks of lines with blank lines in between. -/
theorem spacedOut {blocks : List (List String)}
    (h : blocks.Forall (WovenLines discreet given outer outer)) :
    WovenLines discreet given outer outer (spacedOut blocks) := by
  have hblank := (fits_layout discreet).1
  rw [Microtypes.spacedOut]
  induction blocks with
  | nil => exact .nil
  | cons block blocks ih =>
    obtain ⟨hblock, hblocks⟩ := (List.forall_cons _ block blocks).mp h
    cases blocks with
    | nil => simpa using hblock
    | cons next blocks =>
      rw [List.intercalate_cons_cons]
      exact (hblock.append (.cons (.fixed [] [] hblank) .nil)).append (ih hblocks)

/-- An implementation of a trait. -/
theorem implBlock {begins' opens' : Bool}
    (hpath : Woven discreet given outer outer begins opens path)
    (htype : Woven discreet given outer outer begins' opens' type)
    (hbody : WovenLines discreet given (.curly :: outer) (.curly :: outer) body) :
    WovenLines discreet given outer outer (implBlock path type body) := by
  obtain ⟨-, -, -, -, himpl, hfor⟩ := fits_layout discreet
  have hhead : Woven discreet given outer outer false opens' (s!"impl {path} for {type}") :=
    .append (.append (.append (.fixed [] [] himpl) hpath rfl) (.fixed [] [] hfor)
      (Bool.or_true opens)) htype rfl
  exact braced hhead hbody

end WovenLines

end Microtypes
