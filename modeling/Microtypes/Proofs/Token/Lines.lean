import Mathlib.Data.List.TakeWhile
import Microtypes.Proofs.Grammar.Nesting
import Microtypes.Proofs.Token.Displacement
import Microtypes.Proofs.Token.Legibility

/-!
# Lines that are read one by one

A line end leaves the tokens in front of it and behind it as they are. So lines that can each be
read by itself can be read as one text, and its tokens are theirs (`lexed_of_lexedLines`).
-/

namespace Microtypes

variable {a b c outer : List Delimiter} {ts : List Lexeme} {upper : List Char} {line : String}
  {lines more : List String}

/-- Whether each of some lines can be read by itself, with the open brackets in front of the lines
and behind them. -/
inductive LexedLines : List Delimiter → List Delimiter → List String → Prop
  | nil {outer : List Delimiter} : LexedLines outer outer []
  | cons {a b c : List Delimiter} {ts : List Lexeme} {line : String} {lines : List String}
      (hline : lexed line.toList = .ok ts) (hnest : nest a ts = some b)
      (hlines : LexedLines b c lines) : LexedLines a c (line :: lines)

namespace LexedLines

theorem append (h : LexedLines a b lines) (hmore : LexedLines b c more) :
    LexedLines a c (lines ++ more) := by
  induction h with
  | nil => exact hmore
  | cons hline hnest _ ih => exact .cons hline hnest (ih hmore)

/-- Brackets match in a line that leaves those open which it finds open. -/
theorem cons_balanced (hline : lexed line.toList = .ok ts) (hts : Balanced ts)
    (h : LexedLines a b lines) : LexedLines a b (line :: lines) :=
  .cons hline (nest_of_balanced hts a) h

/-- A blank line holds no token. -/
theorem cons_blank (h : LexedLines a b lines) : LexedLines a b ("" :: lines) :=
  .cons_balanced lexed_nil .nil h

theorem of_forall (h : ∀ line ∈ lines, ∃ ts, lexed line.toList = .ok ts ∧ Balanced ts) :
    LexedLines outer outer lines := by
  induction lines with
  | nil => exact .nil
  | cons line lines ih =>
    obtain ⟨⟨ts, hline, hts⟩, hlines⟩ := List.forall_mem_cons.mp h
    exact .cons_balanced hline hts (ih hlines)

end LexedLines

/-- Below a text that can be read, another one is read by itself. -/
theorem lexed_below (h : lexed upper = .ok ts) (lower : List Char) :
    lexed (upper ++ '\n' :: lower) = (lexed lower).map (ts ++ ·) := by
  unfold lexed at h
  cases hpieces : segments upper with
  | error fault =>
    rw [hpieces] at h
    cases h
  | ok pieces =>
    rw [hpieces] at h
    cases h
    rw [lexed, lexed, segments_below hpieces]
    cases segments lower with
    | error fault => rfl
    | ok below =>
      have hfeed : Segment.lexeme? ⟨none, ['\n']⟩ = none := rfl
      simp only [Except.map, List.filterMap_append, List.filterMap_cons_none hfeed]

theorem toList_lastLine (line : String) :
    ("\n".intercalate [line] ++ "\n").toList = line.toList ++ '\n' :: [] := by
  simp

theorem toList_line (line next : String) (lines : List String) :
    ("\n".intercalate (line :: next :: lines) ++ "\n").toList =
      line.toList ++ '\n' :: ("\n".intercalate (next :: lines) ++ "\n").toList := by
  rw [String.intercalate_cons_cons]
  simp

/-- The text of lines that can be read one by one can be read, and leaves the brackets open which
they do. -/
theorem lexed_of_lexedLines (h : LexedLines a b lines) :
    ∃ ts, lexed ("\n".intercalate lines ++ "\n").toList = .ok ts ∧ nest a ts = some b := by
  induction h with
  | nil =>
    refine ⟨[], ?_, rfl⟩
    have hblank := lexed_below lexed_nil []
    rw [lexed_nil] at hblank
    exact hblank
  | @cons a b c ts line lines hline hnest hlines ih =>
    cases hlines with
    | nil =>
      refine ⟨ts, ?_, hnest⟩
      rw [toList_lastLine, lexed_below hline, lexed_nil]
      exact congrArg Except.ok (List.append_nil ts)
    | @cons _ _ _ _ next lines _ _ _ =>
      obtain ⟨later, hlater, hnestLater⟩ := ih
      refine ⟨ts ++ later, ?_, ?_⟩
      · rw [toList_line, lexed_below hline, hlater]
        rfl
      · rw [nest_append, hnest]
        exact hnestLater

/-- An ordinary line comment holds no token. -/
theorem lexed_lineComment {body : List Char} (h : '\n' ∉ body) :
    lexed ('/' :: '/' :: ' ' :: body) = .ok [] := by
  have hall : ∀ c ∈ '/' :: ' ' :: body, decide (c ≠ '\n') = true := by
    intro c hc
    refine decide_eq_true ?_
    rintro rfl
    simp [h] at hc
  have hline : ('/' :: ' ' :: body).takeWhile (· ≠ '\n') = '/' :: ' ' :: body :=
    List.takeWhile_eq_self_iff.mpr hall
  have hread : readPiece '/' ('/' :: ' ' :: body) = .ok ⟨none, ('/' :: ' ' :: body).length⟩ := by
    have hblank : blankRule '/' ('/' :: ' ' :: body) = none := blankRule_skips rfl
    have hcomment : lineCommentRule '/' ('/' :: ' ' :: body) =
        some (.ok (.skip ('/' :: ' ' :: body).length)) := by
      have hdoc : opensDoc '/' ('/' :: ' ' :: body) = false := rfl
      rw [lineCommentRule, if_pos ⟨rfl, rfl⟩]
      simp only [hline, hdoc]
      rfl
    rw [readPiece_eq_ok_iff]
    simp only [lexicalRules, List.findSome?_cons, hblank, hcomment]
    rfl
  rw [lexed_cons hread, List.drop_length, lexed_nil]
  rfl

end Microtypes
