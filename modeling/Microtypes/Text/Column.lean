/-!
# Text in columns

Padding to a width, counted in characters, and decimal numbers with their thousands separated.
-/

namespace Microtypes

/-- A text filled up with spaces on the right. -/
def padRight (width : Nat) (text : String) : String :=
  text ++ String.ofList (List.replicate (width - text.length) ' ')

/-- A text filled up with spaces on the left. -/
def padLeft (width : Nat) (text : String) : String :=
  String.ofList (List.replicate (width - text.length) ' ') ++ text

/-- Digits, given from the last to the first, with a comma after every third one. -/
def separateThousands : List Char → List Char
  | a :: b :: c :: d :: rest => a :: b :: c :: ',' :: separateThousands (d :: rest)
  | rest => rest

/-- A number with commas between its thousands. -/
def groupedNumber (n : Int) : String :=
  let digits := (Nat.toDigits 10 n.natAbs).reverse
  let body := String.ofList (separateThousands digits).reverse
  if n < 0 then "-" ++ body else body

end Microtypes
