import Microtypes.Proofs.Grammar.Normalisation
import Microtypes.Proofs.WellFormedOutput

/-!
# Messages inside generated code

A diagnostic is written as an item of the generated code with its message in a string literal.
Whatever the message holds, the item is read back as it is meant, and the literal stands for the
message (`readsBack_rustLines`).
-/

namespace Microtypes

open Lexeme (punct ident)

/-- The text that a string literal stands for, from what it has between its quotes: a backslash in
front of a backslash or of a quote is no part of it. -/
def unescaped : List Char → List Char
  | [] => []
  | '\\' :: '\\' :: rest => '\\' :: unescaped rest
  | '\\' :: '"' :: rest => '"' :: unescaped rest
  | c :: rest => c :: unescaped rest

/-- The tokens of an item that stops a build, with a literal for its message. -/
def compileErrorTokens (literal : String) : List Lexeme :=
  [punct "::", ident "core", punct "::", ident "compile_error", punct "!", punct "(",
    ⟨.literal, literal⟩, punct ")", punct ";"]

/-- What is escaped comes back as it was. -/
theorem unescaped_rustStringChars (text : List Char) : unescaped (rustStringChars text) = text := by
  induction text with
  | nil => rfl
  | cons c text ih =>
    rw [rustStringChars_cons]
    split
    · next hc =>
      rcases hc with rfl | rfl
      · rw [List.cons_append, List.singleton_append, unescaped, ih]
      · rw [List.cons_append, List.singleton_append, unescaped, ih]
    · next hc =>
      rw [not_or] at hc
      rw [List.singleton_append, unescaped, ih]
      · exact fun _ hslash _ => hc.1 hslash
      · exact fun _ hslash _ => hc.1 hslash

/-- What stands in front of the literal is read by itself. -/
theorem lexedBefore_opening (inside : List Char) :
    LexedBefore "::core::compile_error!(".toList
      [punct "::", ident "core", punct "::", ident "compile_error", punct "!", punct "("]
      ('"' :: inside) := by
  have hbracket : LexedBefore ['('] [punct "("] ('"' :: inside) :=
    @lexedBefore_piece ('"' :: inside) [] '(' .punct rfl
  have hbang : LexedBefore ['!'] [punct "!"] ('(' :: '"' :: inside) :=
    @lexedBefore_piece ('(' :: '"' :: inside) [] '!' .punct rfl
  have hname : LexedBefore "compile_error".toList [ident "compile_error"]
      ('!' :: '(' :: '"' :: inside) :=
    @lexedBefore_piece ('!' :: '(' :: '"' :: inside) "ompile_error".toList 'c' .ident rfl
  have hcore : LexedBefore "core".toList [ident "core"]
      (':' :: ':' :: ("compile_error".toList ++ '!' :: '(' :: '"' :: inside)) :=
    @lexedBefore_piece (':' :: ':' :: ("compile_error".toList ++ '!' :: '(' :: '"' :: inside))
      "ore".toList 'c' .ident rfl
  have hmark : (':', ':') ∈ pairedPuncts := by decide
  exact (lexedBefore_paired hmark _).append (hcore.append ((lexedBefore_paired hmark _).append
    (hname.append (hbang.append hbracket))))

/-- The literal for a message ends where the closing bracket stands. -/
theorem lexed_rustString (message : String) : lexed ((rustString message).toList ++ [')', ';']) =
    .ok [⟨.literal, rustString message⟩, punct ")", punct ";"] := by
  have hafter : SetApart .literal (rustString message).toList [')', ';'] := by
    intro d hd
    cases hd
    decide
  have hend : lexed [')', ';'] = .ok [punct ")", punct ";"] := by
    rw [lexed, segments_cons _ 0 rfl (segments_cons _ 0 rfl segments_nil)]
    rfl
  have hlexed := @lexed_append ⟨.literal, rustString message⟩ _ (shaped_rustString message) hafter
  rw [hlexed, hend]
  rfl

/-- The item for a diagnostic is read back as one literal with the tokens around it, and the literal
stands for the message. -/
theorem readsBack_rustLines (d : Diagnostic) : ∃ line literal inside, d.rustLines = [line] ∧
    ReadsBack line (compileErrorTokens literal) ∧ literal.toList = '"' :: inside ++ ['"'] ∧
      unescaped inside = d.message.toList := by
  refine ⟨_, rustString d.message, rustStringChars d.message.toList, rfl, ?_,
    String.toList_ofList, unescaped_rustStringChars _⟩
  have hliteral : (rustString d.message).toList ++ [')', ';'] =
      '"' :: (rustStringChars d.message.toList ++ ['"', ')', ';']) := by
    rw [rustString, String.toList_ofList, List.cons_append, List.cons_append, List.append_assoc]
    rfl
  have hopening := lexedBefore_opening (rustStringChars d.message.toList ++ ['"', ')', ';'])
  rw [LexedBefore, ← hliteral, lexed_rustString] at hopening
  rw [readsBack_iff, String.toList_append, String.toList_append, List.append_assoc]
  exact hopening

end Microtypes
