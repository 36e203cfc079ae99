/-!
# Cutting a text at a character

A separator ends a piece and begins the next, so a text with `n` separators has `n + 1` pieces, and
pieces may be empty. Nothing is lost: the pieces joined by the separator are the text again
(`intercalate_splitOnChar`).
-/

namespace Microtypes

/-- The pieces of a text between the occurrences of `separator`, of which there is always at least
one. -/
def splitOnChar (separator : Char) : List Char → List (List Char)
  | [] => [[]]
  | c :: rest =>
    if c = separator then [] :: splitOnChar separator rest
    else
      match splitOnChar separator rest with
      | [] => [[c]]
      | piece :: pieces => (c :: piece) :: pieces

theorem splitOnChar_ne_nil (separator : Char) (text : List Char) :
    splitOnChar separator text ≠ [] := by
  cases text with
  | nil => simp [splitOnChar]
  | cons c rest =>
    simp only [splitOnChar]
    split
    · exact List.cons_ne_nil _ _
    · split <;> exact List.cons_ne_nil _ _

/-- The pieces, joined by the separator, are the text again. -/
theorem intercalate_splitOnChar (separator : Char) (text : List Char) :
    [separator].intercalate (splitOnChar separator text) = text := by
  induction text with
  | nil => rfl
  | cons c rest ih =>
    have hne := splitOnChar_ne_nil separator rest
    simp only [splitOnChar]
    split
    · next heq =>
      subst heq
      cases hs : splitOnChar c rest with
      | nil => exact absurd hs hne
      | cons piece pieces =>
        rw [hs] at ih
        simpa [List.intercalate, List.intersperse] using ih
    · cases hs : splitOnChar separator rest with
      | nil => exact absurd hs hne
      | cons piece pieces =>
        rw [hs] at ih
        cases pieces <;> simpa [List.intercalate, List.intersperse] using ih

/-- A character that is not in the separator stands in joined texts exactly if it stands in one of
them. -/
theorem mem_intercalate {c : Char} {separator : String} {texts : List String}
    (h : c ∉ separator.toList) :
    c ∈ (separator.intercalate texts).toList ↔ ∃ text ∈ texts, c ∈ text.toList := by
  induction texts with
  | nil => simp
  | cons text texts ih =>
    cases texts with
    | nil => simp
    | cons next texts =>
      rw [String.intercalate_cons_cons, String.toList_append, String.toList_append, List.mem_append,
        List.mem_append, or_iff_left h, ih]
      simp [or_and_right, exists_or]

end Microtypes
