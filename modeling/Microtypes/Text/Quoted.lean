import Microtypes.Text.Printable

/-!
# Quoted text

A text is shown in a message between quotes, on one line: the backslash and the quote itself are
escaped, the common line characters have short escapes, and every other character that does not
print is written with its code in lower-case hexadecimal. Single quotes are used unless the text
has single quotes and no double ones.
-/

namespace Microtypes

/-- The lower-case hexadecimal digits of a number, with at least `width` places. -/
def hexText (width n : Nat) : String :=
  let digits := Nat.toDigits 16 n
  String.ofList (List.replicate (width - digits.length) '0' ++ digits)

/-- The escape of a character by its code: two, four or eight digits, whichever suffice. -/
def codeEscape (c : Char) : String :=
  if c.toNat < 0x100 then "\\x" ++ hexText 2 c.toNat
  else if c.toNat < 0x10000 then "\\u" ++ hexText 4 c.toNat
  else "\\U" ++ hexText 8 c.toNat

/-- One character inside quotes of the kind `quote`. -/
def quotedChar (quote c : Char) : String :=
  if c = quote ∨ c = '\\' then String.ofList ['\\', c]
  else if c = '\t' then "\\t"
  else if c = '\n' then "\\n"
  else if c = '\r' then "\\r"
  else if isPrintable c then String.singleton c
  else codeEscape c

/-- The quote that a text is put into. -/
def quoteFor (text : List Char) : Char :=
  if '\'' ∈ text ∧ '"' ∉ text then '"' else '\''

/-- A text between quotes. -/
def quoted (text : String) : String :=
  let quote := quoteFor text.toList
  let inside := String.join (text.toList.map (quotedChar quote))
  String.singleton quote ++ inside ++ String.singleton quote

end Microtypes
