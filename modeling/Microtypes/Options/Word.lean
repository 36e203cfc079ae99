import Microtypes.Options.Flag
import Microtypes.Text.Digit

/-!
# The words of a command line

Each word is taken for an operand, a flag, or a flag that is not known. A flag may be shortened as
long as only one spelling begins so; a value may be attached to it, after an equals sign or directly
after a flag of one letter. After a word of two dashes every word is an operand.

A word that begins with a dash is still an operand if it is a dash, a negative number, or, unless it
begins like a flag, if it holds a space.
-/

namespace Microtypes

/-- A value in the same word as its flag. -/
structure Attached where
  value : List Char
  /-- Whether the flag is spelled with one dash. -/
  oneDash : Bool
deriving DecidableEq, Repr

/-- A word of the command line. -/
inductive Word where
  | operand (text : String)
  | separator
  /-- A flag, perhaps with a value attached. -/
  | flag (flag : Flag) (attached : Option Attached)
  /-- It looks like a flag and is none. -/
  | unknown (text : String)
deriving DecidableEq, Repr

/-- Whether a text is a negative number, perhaps with a line feed after it. -/
def isNegativeNumber : List Char → Bool
  | '-' :: rest =>
    let number := if rest.getLast? = some '\n' then rest.dropLast else rest
    let fraction := (number.dropWhile isDecimal).drop 1
    (number ≠ [] && number.all isDecimal) ||
      ((number.dropWhile isDecimal).head? == some '.' && fraction ≠ [] && fraction.all isDecimal)
  | _ => false

/-- What a word can mean as a flag that is shortened or has a value attached. -/
def flagReadings (word : List Char) : List (String × Word) :=
  let name := word.takeWhile (· ≠ '=')
  let value := (word.drop name.length).drop 1
  match word with
  | '-' :: '-' :: _ =>
    let attached : Option Attached :=
      if '=' ∈ word then some ⟨value, false⟩ else none
    Flag.spellings.filterMap fun (spelling, flag) =>
      if name.isPrefixOf spelling.toList then some (spelling, .flag flag attached) else none
  | '-' :: letter :: rest =>
    Flag.spellings.filterMap fun (spelling, flag) =>
      if spelling.toList = ['-', letter] then
        some (spelling, .flag flag (some ⟨rest, true⟩))
      else none
  | _ => []

/-- The flag that is spelled in full before an equals sign, with its value. -/
def assignedFlag? (word : List Char) : Option Word :=
  let name := word.takeWhile (· ≠ '=')
  if '=' ∈ word then
    (Flag.spelled? (String.ofList name)).map fun flag =>
      .flag flag (some ⟨(word.drop name.length).drop 1, name.length = 2⟩)
  else none

/-- What a word before the separator is taken for. -/
def classifyWord (text : String) : Except UsageFault Word :=
  let word := text.toList
  if word.head? ≠ some '-' ∨ word.length = 1 then .ok (.operand text)
  else
    match Flag.spelled? text with
    | some flag => .ok (.flag flag none)
    | none =>
      match assignedFlag? word with
      | some assigned => .ok assigned
      | none =>
        match flagReadings word with
        | [(_, reading)] => .ok reading
        | [] =>
          if isNegativeNumber word || word.contains ' ' then .ok (.operand text)
          else .ok (.unknown text)
        | readings => .error (.ambiguous text (readings.map (·.1)))

/-- What the words of a command line are taken for. -/
def classifyWords : List String → Except UsageFault (List Word)
  | [] => .ok []
  | text :: rest =>
    if text = "--" then .ok (.separator :: rest.map .operand)
    else do return (← classifyWord text) :: (← classifyWords rest)

end Microtypes
