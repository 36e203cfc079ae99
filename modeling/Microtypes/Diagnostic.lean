import Microtypes.Problem

/-!
# Diagnostics

A diagnostic is printed as one line for the console, and written into generated code as an item that
stops the build with its message.
-/

namespace Microtypes

/-- A problem put into words. -/
structure Diagnostic where
  kind : ErrorKind
  message : String
  /-- The place of the offending token or attribute. -/
  location : Location
  /-- The microtype that it belongs to; none for a problem of the source as a whole. -/
  name : Option String
deriving DecidableEq, Repr

/-- The diagnostic of a problem of the microtype `name`. -/
def Problem.diagnostic (problem : Problem) (name : Option String) : Diagnostic :=
  ⟨problem.cause.kind, problem.cause.message, problem.location, name⟩

/-- A text with `new` in the place of every `old` character. -/
def replaceChar (old : Char) (new text : List Char) : List Char :=
  text.flatMap fun c => if c = old then new else [c]

/-- The characters of a Rust string literal for a text: backslashes are doubled, then every double
quote gets a backslash. All else stands as it is. -/
def rustStringChars (text : List Char) : List Char :=
  replaceChar '"' ['\\', '"'] (replaceChar '\\' ['\\', '\\'] text)

/-- The first replacement writes no quote and the second one reads no backslash, so together they
escape one character after another. -/
theorem rustStringChars_eq_flatMap (text : List Char) :
    rustStringChars text = text.flatMap fun c => if c = '\\' ∨ c = '"' then ['\\', c] else [c] := by
  rw [rustStringChars, replaceChar, replaceChar, List.flatMap_assoc]
  congr 1
  funext c
  by_cases hslash : c = '\\'
  · simp [hslash]
  · by_cases hquote : c = '"'
    · simp [hquote]
    · simp [hslash, hquote]

theorem rustStringChars_cons (c : Char) (text : List Char) : rustStringChars (c :: text) =
    (if c = '\\' ∨ c = '"' then ['\\', c] else [c]) ++ rustStringChars text := by
  rw [rustStringChars_eq_flatMap, List.flatMap_cons, ← rustStringChars_eq_flatMap]

/-- A text as a Rust string literal. -/
def rustString (text : String) : String :=
  String.ofList ('"' :: rustStringChars text.toList ++ ['"'])

namespace Diagnostic

/-- The Rust item that reports a diagnostic when the generated code is built. -/
def rustLines (d : Diagnostic) : List String :=
  ["::core::compile_error!(" ++ rustString d.message ++ ");"]

/-- The console line of a diagnostic of the source called `label`. -/
def consoleLine (d : Diagnostic) (label : String) : String :=
  let place := label ++ ":" ++ d.location.text
  let line := place ++ ": error[" ++ d.kind.name ++ "]: " ++ d.message
  match d.name with
  | none => line
  | some name => line ++ " (in `" ++ name ++ "`)"

end Diagnostic
end Microtypes
