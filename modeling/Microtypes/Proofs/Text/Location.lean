import Mathlib.Data.List.Induction
import Mathlib.Data.List.TakeWhile
import Microtypes.Text.Location
import Microtypes.Text.Split

/-!
# Positions and offsets

The position of an offset is walked to one character at a time. It is what one counts from the whole
text as well: the line is the number of line feeds before the offset, and the column is measured
from where the line of the offset begins. Each step of the walk leads to a later position, so
positions are in the order of the offsets and no two offsets share one.

The walk comes to what is looked up in the table of where lines begin, and its end to what the lines
of the text say (`ordered_ofOffset`). For the table it is enough to know how many of its entries lie
at or before an offset, since a binary search finds that number in any list where those come first.
-/

namespace Microtypes

variable {source : List Char} {a b offset start : Nat} {c : Char}

/-! ## The lines of a text -/

/-- A character at the end of a text goes to the last piece, and a separator begins a new one. -/
theorem splitOnChar_append_singleton (separator : Char) (text : List Char) (c : Char) :
    ∃ pieces last, splitOnChar separator text = pieces ++ [last] ∧
      splitOnChar separator (text ++ [c]) =
        if c = separator then pieces ++ [last, []] else pieces ++ [last ++ [c]] := by
  induction text with
  | nil =>
    refine ⟨[], [], rfl, ?_⟩
    simp only [List.nil_append, splitOnChar]
  | cons d text ih =>
    obtain ⟨pieces, last, htext, hlonger⟩ := ih
    simp only [List.cons_append, splitOnChar, htext, hlonger]
    by_cases hd : d = separator
    · refine ⟨[] :: pieces, last, by simp [hd], ?_⟩
      split_ifs <;> rfl
    · rw [if_neg hd]
      cases pieces with
      | nil =>
        refine ⟨[], d :: last, by simp, ?_⟩
        split_ifs <;> rfl
      | cons piece pieces =>
        refine ⟨(d :: piece) :: pieces, last, by simp, ?_⟩
        split_ifs <;> rfl

/-- A binary search finds the number of the entries up to `key`, where these come first. -/
theorem bisectRight_eq {table : List Nat} {key cut low high : Nat}
    (hcut : ∀ i < table.length, table.getD i 0 ≤ key ↔ i < cut) (hlow : low ≤ cut)
    (hhigh : cut ≤ high) (hlength : high ≤ table.length) :
    bisectRight table key low high = cut := by
  fun_induction bisectRight table key low high with
  | case1 low high hwindow middle hbehind ih =>
    have hmiddle := hcut middle (by omega)
    exact ih hlow (by omega) (by omega)
  | case2 low high hwindow middle hbefore ih =>
    have hmiddle := hcut middle (by omega)
    exact ih (by omega) hhigh hlength
  | case3 low high hempty => omega

theorem length_startsBehind (offset : Nat) (text : List Char) :
    (startsBehind offset text).length = text.count '\n' := by
  induction text generalizing offset with
  | nil => rfl
  | cons c text ih =>
    rw [startsBehind, List.count_cons, ← ih (offset + 1)]
    by_cases hfeed : c = '\n' <;> simp [hfeed]

theorem lt_getD_startsBehind {text : List Char} {i : Nat}
    (h : i < (startsBehind offset text).length) : offset < (startsBehind offset text).getD i 0 := by
  induction text generalizing offset i with
  | nil => cases h
  | cons c text ih =>
    rw [startsBehind] at h ⊢
    by_cases hfeed : c = '\n'
    · rw [if_pos hfeed] at h ⊢
      cases i with
      | zero => exact Nat.lt_succ_self _
      | succ i => exact Nat.lt_of_succ_lt (ih (Nat.lt_of_succ_lt_succ h))
    · rw [if_neg hfeed] at h ⊢
      exact Nat.lt_of_succ_lt (ih h)

/-- The entries of the table up to a place in the text are as many as the line feeds before it. -/
theorem getD_startsBehind_le_iff {text : List Char} (n : Nat) {i : Nat}
    (h : i < (startsBehind offset text).length) :
    (startsBehind offset text).getD i 0 ≤ offset + n ↔ i < (text.take n).count '\n' := by
  induction text generalizing offset n i with
  | nil => cases h
  | cons c text ih =>
    cases n with
    | zero => simpa using lt_getD_startsBehind h
    | succ n =>
      have hshift : offset + (n + 1) = offset + 1 + n := by omega
      rw [startsBehind] at h ⊢
      rw [List.take_succ_cons, List.count_cons, hshift]
      by_cases hfeed : c = '\n'
      · rw [if_pos hfeed] at h ⊢
        cases i with
        | zero => simp [hfeed]
        | succ i => simpa [hfeed] using ih n (Nat.lt_of_succ_lt_succ h)
      · rw [if_neg hfeed] at h ⊢
        simpa [hfeed] using ih n h

/-- The search comes to the line of the offset. -/
theorem bisectRight_lineStarts (source : List Char) (offset : Nat) :
    bisectRight (lineStarts source) offset 0 (lineStarts source).length =
      (source.take offset).count '\n' + 1 := by
  refine bisectRight_eq ?_ (Nat.zero_le _) ?_ (Nat.le_refl _)
  · intro i hi
    cases i with
    | zero => simp [lineStarts]
    | succ i =>
      simpa [lineStarts] using getD_startsBehind_le_iff offset (Nat.lt_of_succ_lt_succ hi)
  · rw [lineStarts, List.length_cons, length_startsBehind]
    exact Nat.succ_le_succ ((List.take_sublist _ _).count_le _)

namespace Location

variable {here there later : Location}

/-! ## The order of positions -/

theorem lt_trans (h : here < there) (h' : there < later) : here < later := by
  rcases h with hline | ⟨hline, hcolumn⟩ <;> rcases h' with hline' | ⟨hline', hcolumn'⟩
  · exact .inl (Nat.lt_trans hline hline')
  · exact .inl (hline' ▸ hline)
  · exact .inl (hline ▸ hline')
  · exact .inr ⟨hline.trans hline', Nat.lt_trans hcolumn hcolumn'⟩

/-- Every character leads to a later position. -/
theorem lt_advance (here : Location) (c : Char) : here < here.advance c := by
  unfold advance
  split
  · exact .inl (Nat.lt_succ_self _)
  · exact .inr ⟨rfl, Nat.lt_succ_self _⟩

/-! ## Walking to an offset -/

theorem ofOffset_of_le (h : offset ≤ source.length) :
    ofOffset source offset = Location.start.advanceBy (source.take offset) := by
  rw [ofOffset, Nat.sub_eq_zero_of_le h]
  rfl

/-- The position just past a character. -/
theorem ofOffset_succ (h : source[offset]? = some c) :
    ofOffset source (offset + 1) = (ofOffset source offset).advance c := by
  have hlt : offset < source.length := (List.getElem?_eq_some_iff.mp h).1
  rw [ofOffset_of_le hlt, ofOffset_of_le (Nat.le_of_lt hlt), List.take_add_one, h,
    advanceBy_append]
  rfl

theorem ofOffset_lt_of_lt (hlt : a < b) (hb : b ≤ source.length) :
    ofOffset source a < ofOffset source b := by
  induction b, hlt using Nat.le_induction with
  | base =>
    rw [ofOffset_succ (List.getElem?_eq_getElem hb)]
    exact lt_advance _ _
  | succ b _ ih =>
    rw [ofOffset_succ (List.getElem?_eq_getElem hb)]
    exact lt_trans (ih (Nat.le_of_lt hb)) (lt_advance _ _)

theorem line_advanceBy (here : Location) (text : List Char) :
    (here.advanceBy text).line = here.line + text.count '\n' := by
  induction text generalizing here with
  | nil => rfl
  | cons c text ih =>
    rw [advanceBy_cons, ih, advance, List.count_cons]
    split
    · next hc => simp [hc]; omega
    · next hc => simp [hc]

/-! ## The line of an offset -/

/-- Whether the line of an offset begins at `start`: behind a line feed or with the text, and with
no line feed from there up to the offset. -/
structure BeginsLine (source : List Char) (offset start : Nat) : Prop where
  le : start ≤ offset
  behind : start = 0 ∨ source[start - 1]? = some '\n'
  unbroken : ∀ i, start ≤ i → i < offset → source[i]? ≠ some '\n'

theorem beginsLine_zero (source : List Char) : BeginsLine source 0 0 where
  le := Nat.le_refl 0
  behind := .inl rfl
  unbroken _ _ h := absurd h (Nat.not_lt_zero _)

/-- A line feed ends the line, and the next one begins behind it. -/
theorem beginsLine_succ_of_feed (h : source[offset]? = some '\n') :
    BeginsLine source (offset + 1) (offset + 1) where
  le := Nat.le_refl _
  behind := .inr h
  unbroken _ hle hlt := absurd hlt (Nat.not_lt.mpr hle)

theorem BeginsLine.succ (hline : BeginsLine source offset start) (h : source[offset]? = some c)
    (hc : c ≠ '\n') : BeginsLine source (offset + 1) start where
  le := Nat.le_succ_of_le hline.le
  behind := hline.behind
  unbroken i hle hlt := by
    rcases Nat.lt_succ_iff_lt_or_eq.mp hlt with hlt | rfl
    · exact hline.unbroken i hle hlt
    · rw [h]
      exact fun hfeed => hc (Option.some.inj hfeed)

/-- The position of an offset is counted in line feeds before it and in characters of its line. -/
theorem exists_beginsLine (h : offset ≤ source.length) :
    ∃ start, BeginsLine source offset start ∧
      ofOffset source offset = ⟨1 + (source.take offset).count '\n', 1 + (offset - start)⟩ := by
  induction offset with
  | zero => exact ⟨0, beginsLine_zero source, ofOffset_of_le h⟩
  | succ offset ih =>
    obtain ⟨start, hline, hplace⟩ := ih (Nat.le_of_lt h)
    have hc : source[offset]? = some source[offset] := List.getElem?_eq_getElem h
    have hcount : (source.take (offset + 1)).count '\n' =
        (source.take offset).count '\n' + [source[offset]].count '\n' := by
      rw [List.take_add_one, hc, List.count_append]
      rfl
    rw [ofOffset_succ hc, hplace, hcount, advance]
    by_cases hfeed : source[offset] = '\n'
    · refine ⟨offset + 1, beginsLine_succ_of_feed (hc.trans (congrArg some hfeed)), ?_⟩
      rw [if_pos hfeed, hfeed, List.count_singleton_self, Nat.sub_self]
      rfl
    · have hcolumn : 1 + (offset - start) + 1 = 1 + (offset + 1 - start) := by
        have hle := hline.le
        omega
      refine ⟨start, hline.succ hc hfeed, ?_⟩
      rw [if_neg hfeed, List.count_singleton, if_neg (by simpa using hfeed), hcolumn]
      rfl

/-! ## The end of a text -/

theorem ofEnd_append_singleton (source : List Char) (c : Char) :
    ofEnd (source ++ [c]) = (ofEnd source).advance c := by
  have hlast : lastLine (source ++ [c]) = if c = '\n' then [] else lastLine source ++ [c] := by
    rw [lastLine, List.reverse_append, List.reverse_singleton, List.singleton_append,
      List.takeWhile_cons]
    by_cases hfeed : c = '\n'
    · simp [hfeed]
    · simp [hfeed, lastLine]
  rw [ofEnd, ofEnd, hlast, List.count_append, advance]
  by_cases hfeed : c = '\n'
  · rw [if_pos hfeed, if_pos hfeed, hfeed, List.count_singleton_self]
    rfl
  · rw [if_neg hfeed, if_neg hfeed, List.count_singleton, if_neg (by simpa using hfeed),
      List.length_append]
    rfl

/-- The walk to the last character comes to the end that is counted. -/
theorem advanceBy_start (source : List Char) : Location.start.advanceBy source = ofEnd source := by
  induction source using List.reverseRecOn with
  | nil => rfl
  | append_singleton source c ih =>
    rw [advanceBy_append, ih, ofEnd_append_singleton]
    rfl

theorem ofLines_append_singleton (source : List Char) (c : Char) :
    ofLines (splitOnChar '\n' (source ++ [c])) = (ofLines (splitOnChar '\n' source)).advance c := by
  obtain ⟨lines, last, hsource, hlonger⟩ := splitOnChar_append_singleton '\n' source c
  rw [hsource, hlonger, advance]
  by_cases hfeed : c = '\n'
  · simp [hfeed, ofLines]
  · simp [hfeed, ofLines]

/-- The lines of a text say where it ends. -/
theorem ofLines_splitOnChar (source : List Char) :
    ofLines (splitOnChar '\n' source) = ofEnd source := by
  rw [← advanceBy_start]
  induction source using List.reverseRecOn with
  | nil => rfl
  | append_singleton source c ih =>
    rw [ofLines_append_singleton, ih, advanceBy_append]
    rfl

/-! ## The table of lines -/

/-- A walk of `n` characters, in a text that stands at `offset` in a line that begins at `start`,
stays in that line until the table has a later one. -/
theorem column_advanceBy_take (text : List Char) (line n : Nat) (h : start ≤ offset) :
    (advanceBy ⟨line, offset - start + 1⟩ (text.take n)).column + (n - text.length) =
      offset + n - (start :: startsBehind offset text).getD ((text.take n).count '\n') 0 + 1 := by
  induction text generalizing offset start line n with
  | nil =>
    simp [startsBehind]
    omega
  | cons c text ih =>
    cases n with
    | zero => simp
    | succ n =>
      have hshift : offset + (n + 1) = offset + 1 + n := by omega
      have hpast : n + 1 - (c :: text).length = n - text.length := by simp
      rw [List.take_succ_cons, List.count_cons, advanceBy_cons, advance, startsBehind, hshift,
        hpast]
      by_cases hfeed : c = '\n'
      · have hwalk := ih (line + 1) n (Nat.le_refl (offset + 1))
        rw [Nat.sub_self] at hwalk
        simpa [hfeed] using hwalk
      · have hwalk := ih line n (h.trans (Nat.le_add_right offset 1))
        rw [Nat.sub_add_comm h] at hwalk
        simpa [hfeed] using hwalk

/-- The walk to an offset comes to what is looked up in the table. -/
theorem lookUp_lineStarts (source : List Char) (offset : Nat) :
    lookUp (lineStarts source) offset = ofOffset source offset := by
  have hcolumn := column_advanceBy_take source 1 offset (Nat.le_refl 0)
  simp only [Nat.zero_add] at hcolumn
  rw [lookUp, bisectRight_lineStarts, ofOffset, Nat.add_sub_cancel, lineStarts, mk.injEq,
    line_advanceBy]
  exact ⟨Nat.add_comm _ _, hcolumn.symm⟩

/-- Positions are counted from the text, they are in the order of the offsets, and the last one is
the end of the text. They are what the table of lines and the lines themselves say. -/
theorem ordered_ofOffset (source : List Char) :
    (∀ offset ≤ source.length, ∃ start, BeginsLine source offset start ∧
      ofOffset source offset = ⟨1 + (source.take offset).count '\n', 1 + (offset - start)⟩) ∧
    (∀ a b, a < b → b ≤ source.length → ofOffset source a < ofOffset source b) ∧
    ofOffset source source.length = ofEnd source ∧
    (∀ offset, lookUp (lineStarts source) offset = ofOffset source offset) ∧
    ofLines (splitOnChar '\n' source) = ofEnd source := by
  refine ⟨fun offset h => exists_beginsLine h, fun a b hlt hb => ofOffset_lt_of_lt hlt hb, ?_,
    lookUp_lineStarts source, ofLines_splitOnChar source⟩
  rw [ofOffset_of_le (Nat.le_refl _), List.take_length, advanceBy_start]

theorem ordered_ofOffset_feed :
    (2 ≤ ['a', '\n', 'b'].length ∧ ∃ start, BeginsLine ['a', '\n', 'b'] 2 start ∧
      ofOffset ['a', '\n', 'b'] 2 = ⟨1 + ['a', '\n'].count '\n', 1 + (2 - start)⟩) ∧
    1 < 2 ∧ ofOffset ['a', '\n', 'b'] 1 < ofOffset ['a', '\n', 'b'] 2 := by
  obtain ⟨hplace, horder, -⟩ := ordered_ofOffset ['a', '\n', 'b']
  exact ⟨⟨by decide, hplace 2 (by decide)⟩, by decide, horder 1 2 (by decide) (by decide)⟩

end Location

end Microtypes
