import Mathlib.Algebra.Group.Nat.Even
import Mathlib.Data.List.DropRight
import Mathlib.Order.Bounds.Image
import Microtypes.Grammar.Attribute
import Microtypes.Token.Extent

/-!
# Where strings end

A string ends at its first double quote with an even number of backslashes in a row before it. Each
backslash takes the character behind it along, so an even row of them leaves nothing escaped behind
it (`closes_stringStop`).
-/

namespace Microtypes

variable {source text rest : List Char} {c : Char} {pos quote : Nat}

/-! ## Backslashes in a row -/

/-- The number of backslashes in a row at the end of a text. -/
def trailingBackslashes (text : List Char) : Nat :=
  (text.rtakeWhile (· == '\\')).length

/-- A character in front counts where it is a backslash and nothing else follows it. -/
theorem trailingBackslashes_cons (c : Char) (front : List Char) :
    trailingBackslashes (c :: front) =
      if trailingBackslashes front = front.length ∧ c = '\\' then front.length + 1
      else trailingBackslashes front := by
  have hlength (text : List Char) :
      trailingBackslashes text = (text.reverse.takeWhile (· == '\\')).length := by
    rw [trailingBackslashes, List.rtakeWhile, List.length_reverse]
  rw [hlength, hlength, List.reverse_cons, List.takeWhile_append, List.length_reverse]
  by_cases hall : (front.reverse.takeWhile (· == '\\')).length = front.length
  · by_cases hc : c = '\\'
    · simp [hall, hc]
    · simp [hall, hc]
  · simp [hall]

/-- A backslash and the character behind it change nothing about what is escaped behind them. -/
theorem even_trailingBackslashes_escape (c : Char) (front : List Char) :
    Even (trailingBackslashes ('\\' :: c :: front)) ↔ Even (trailingBackslashes front) := by
  rw [trailingBackslashes_cons, trailingBackslashes_cons, List.length_cons]
  by_cases hall : trailingBackslashes front = front.length ∧ c = '\\'
  · rw [if_pos hall, if_pos ⟨rfl, rfl⟩, hall.1, Nat.even_add_one, Nat.even_add_one, not_not]
  · rw [if_neg hall, if_neg]
    -- no row is longer than the text
    rintro ⟨hlong, -⟩
    have hle : trailingBackslashes front ≤ front.length :=
      (List.rtakeWhile_suffix _ _).length_le
    omega

/-! ## The closing quotes of a string -/

/-- Whether a string whose inside begins at the offset `pos` may end with the character at `quote`:
a double quote that the backslashes in a row before it, back to `pos` at most, do not escape. -/
structure ClosingQuote (source : List Char) (pos quote : Nat) : Prop where
  le : pos ≤ quote
  isQuote : source[quote]? = some '"'
  unescaped : Even (trailingBackslashes (slice source pos quote))

/-- The offsets of the characters that a string may end with. -/
def closingQuotes (source : List Char) (pos : Nat) : Set Nat :=
  {quote | ClosingQuote source pos quote}

theorem mem_closingQuotes_iff : quote ∈ closingQuotes text 0 ↔
    text[quote]? = some '"' ∧ Even (trailingBackslashes (text.take quote)) :=
  ⟨fun h => ⟨h.isQuote, h.unescaped⟩, fun h => ⟨Nat.zero_le _, h.1, h.2⟩⟩

/-- What stands before the inside of a string does not matter. -/
theorem closingQuotes_drop (source : List Char) (pos : Nat) :
    closingQuotes source pos = (· + pos) '' closingQuotes (source.drop pos) 0 := by
  ext quote
  constructor
  · rintro ⟨hle, hquote, heven⟩
    obtain ⟨inner, rfl⟩ := Nat.exists_eq_add_of_le' hle
    rw [slice, Nat.add_sub_cancel] at heven
    refine ⟨inner, mem_closingQuotes_iff.mpr ⟨?_, heven⟩, rfl⟩
    rwa [List.getElem?_drop, Nat.add_comm]
  · rintro ⟨inner, h, rfl⟩
    obtain ⟨hquote, heven⟩ := mem_closingQuotes_iff.mp h
    rw [List.getElem?_drop, Nat.add_comm] at hquote
    refine ⟨Nat.le_add_left _ _, hquote, ?_⟩
    rwa [slice, Nat.add_sub_cancel]

/-- A text that no string ends in, and that changes nothing about what is escaped behind it, is gone
past. -/
theorem closingQuotes_append (front : List Char)
    (hnone : ∀ quote < front.length, quote ∉ closingQuotes (front ++ rest) 0)
    (hparity : ∀ text, Even (trailingBackslashes (front ++ text)) ↔
      Even (trailingBackslashes text)) :
    closingQuotes (front ++ rest) 0 = (· + front.length) '' closingQuotes rest 0 := by
  have hshift (inner : Nat) : inner + front.length ∈ closingQuotes (front ++ rest) 0 ↔
      inner ∈ closingQuotes rest 0 := by
    rw [mem_closingQuotes_iff, mem_closingQuotes_iff, Nat.add_comm,
      List.take_length_add_append, hparity, List.getElem?_append_right (Nat.le_add_right _ _),
      Nat.add_sub_cancel_left]
  ext quote
  constructor
  · intro h
    have hle : front.length ≤ quote := Nat.not_lt.mp fun hlt => hnone quote hlt h
    obtain ⟨inner, rfl⟩ := Nat.exists_eq_add_of_le' hle
    exact ⟨inner, (hshift inner).mp h, rfl⟩
  · rintro ⟨inner, h, rfl⟩
    exact (hshift inner).mpr h

theorem closingQuotes_nil : closingQuotes [] 0 = ∅ := by
  ext quote
  simp [mem_closingQuotes_iff]

theorem closingQuotes_backslash : closingQuotes ['\\'] 0 = ∅ := by
  ext quote
  cases quote <;> simp [mem_closingQuotes_iff]

/-- A backslash escapes the character behind it, whatever it is. -/
theorem closingQuotes_escape (c : Char) (rest : List Char) :
    closingQuotes ('\\' :: c :: rest) 0 = (· + 2) '' closingQuotes rest 0 := by
  refine closingQuotes_append ['\\', c] ?_ (even_trailingBackslashes_escape c)
  intro quote hquote h
  obtain ⟨hfound, heven⟩ := mem_closingQuotes_iff.mp h
  match quote with
  | 0 => simp at hfound
  | 1 =>
    have hodd : ¬ Even (trailingBackslashes ['\\']) := by decide
    exact hodd heven
  | quote + 2 => exact absurd (Nat.lt_of_add_lt_add_right hquote) (Nat.not_lt_zero quote)

theorem closingQuotes_plain (hescape : c ≠ '\\') (hquote : c ≠ '"') (rest : List Char) :
    closingQuotes (c :: rest) 0 = (· + 1) '' closingQuotes rest 0 := by
  refine closingQuotes_append [c] ?_ fun text => ?_
  · intro quote hlt h
    obtain rfl : quote = 0 := Nat.lt_one_iff.mp hlt
    exact hquote (Option.some.inj (mem_closingQuotes_iff.mp h).1)
  · rw [List.singleton_append, trailingBackslashes_cons, if_neg fun h => hescape h.2]

theorem isLeast_closingQuotes (rest : List Char) : IsLeast (closingQuotes ('"' :: rest) 0) 0 :=
  ⟨mem_closingQuotes_iff.mpr ⟨rfl, by simp [trailingBackslashes]⟩, fun _ _ => Nat.zero_le _⟩

/-! ## The end of a string -/

/-- Where a string ends whose inside begins at the offset `pos`. -/
inductive StringEnds (source : List Char) (pos : Nat) : Option Nat → Prop
  | closed {quote : Nat} (h : IsLeast (closingQuotes source pos) quote) :
      StringEnds source pos (some (quote + 1))
  | unclosed (h : closingQuotes source pos = ∅) : StringEnds source pos none

/-- A string ends with the one whose closing quotes are the same some characters on. -/
theorem StringEnds.shift {result : Option Nat} {k : Nat}
    (hshift : closingQuotes source pos = (· + k) '' closingQuotes text 0)
    (h : StringEnds text 0 result) : StringEnds source pos (result.map (· + k)) := by
  cases h with
  | @closed quote hleast =>
    have hmono : Monotone fun m : Nat => m + k := fun _ _ hle => Nat.add_le_add_right hle k
    have hquote := hmono.map_isLeast hleast
    rw [← hshift] at hquote
    rw [Option.map_some, Nat.add_right_comm]
    exact .closed hquote
  | unclosed hempty =>
    rw [hempty, Set.image_empty] at hshift
    exact .unclosed hshift

theorem stringEnds_stringExtent (text : List Char) : StringEnds text 0 (stringExtent text) := by
  fun_induction stringExtent text with
  | case1 => exact .unclosed closingQuotes_nil
  | case2 => exact .unclosed closingQuotes_backslash
  | case3 c rest ih => exact .shift (closingQuotes_escape c rest) ih
  | case4 rest => exact .closed (isLeast_closingQuotes rest)
  | case5 c rest hlast hescape hquote ih =>
    have hc : c ≠ '\\' := by
      rintro rfl
      cases rest with
      | nil => exact hlast rfl rfl
      | cons d others => exact hescape d others rfl rfl
    exact .shift (closingQuotes_plain hc hquote rest) ih

/-- The offset just past the string whose inside begins at an offset. -/
def stringStop (source : List Char) (pos : Nat) : Option Nat :=
  (stringExtent (source.drop pos)).map (· + pos)

theorem stringEnds_stringStop (source : List Char) (pos : Nat) :
    StringEnds source pos (stringStop source pos) :=
  .shift (closingQuotes_drop source pos) (stringEnds_stringExtent (source.drop pos))

/-- A string ends with its first double quote that an even number of backslashes in a row stands
before. It does not end if there is none, and its end lies within the source. -/
theorem closes_stringStop (source : List Char) (pos : Nat) :
    (∀ stop, stringStop source pos = some stop ↔
      ∃ quote, IsLeast {quote | ClosingQuote source pos quote} quote ∧ stop = quote + 1) ∧
    (stringStop source pos = none ↔ ∀ quote, ¬ ClosingQuote source pos quote) ∧
    ∀ stop, stringStop source pos = some stop → stop ≤ source.length := by
  have hends := stringEnds_stringStop source pos
  generalize stringStop source pos = result at hends
  cases hends with
  | @closed quote hleast =>
    refine ⟨fun stop => ⟨?_, ?_⟩, ?_, ?_⟩
    · rintro ⟨⟩
      exact ⟨quote, hleast, rfl⟩
    · rintro ⟨quote', hleast', rfl⟩
      rw [hleast.unique hleast']
    · exact iff_of_false (by simp) fun hnone => hnone quote hleast.1
    · rintro stop ⟨⟩
      exact (List.getElem?_eq_some_iff.mp hleast.1.isQuote).1
  | unclosed hempty =>
    have hnone : ∀ quote, ¬ ClosingQuote source pos quote :=
      Set.eq_empty_iff_forall_notMem.mp hempty
    refine ⟨fun stop => iff_of_false (by simp) ?_, iff_of_true rfl hnone, by simp⟩
    rintro ⟨quote, hleast, -⟩
    exact hnone quote hleast.1

/-- Three backslashes escape the quote behind them, unless the string begins after the first. -/
theorem closes_stringStop_cutRow :
    (∀ quote, ¬ ClosingQuote "\\\\\\\"".toList 0 quote) ∧
      stringStop "\\\\\\\"".toList 1 = some 4 ∧ 4 ≤ "\\\\\\\"".toList.length := by
  obtain ⟨-, hnone, -⟩ := closes_stringStop "\\\\\\\"".toList 0
  obtain ⟨-, -, hwithin⟩ := closes_stringStop "\\\\\\\"".toList 1
  have hstop : stringStop "\\\\\\\"".toList 1 = some 4 := by decide
  exact ⟨hnone.mp (by decide), hstop, hwithin 4 hstop⟩

end Microtypes
