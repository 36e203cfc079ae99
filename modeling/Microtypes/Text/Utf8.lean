import Microtypes.Text.Quoted

/-!
# Reading UTF-8

Bytes are decoded strictly: no overlong forms, no surrogates, nothing above the last code point. A
fault covers the valid beginning of the sequence that is broken, or all that is left when the bytes
end inside a sequence.
-/

namespace Microtypes

/-- Why bytes are not UTF-8. -/
inductive Utf8Cause where
  | invalidStart
  /-- A sequence is broken by a byte that does not continue it. -/
  | invalidContinuation
  | unexpectedEnd
deriving DecidableEq, Repr

/-- Where and why bytes are not UTF-8. -/
structure Utf8Fault where
  cause : Utf8Cause
  /-- The offset of the first byte of the broken sequence. -/
  start : Nat
  first : UInt8
  length : Nat
deriving DecidableEq, Repr

/-- The wording of the cause. -/
def Utf8Cause.message : Utf8Cause → String
  | .invalidStart => "invalid start byte"
  | .invalidContinuation => "invalid continuation byte"
  | .unexpectedEnd => "unexpected end of data"

/-- The wording of a fault. -/
def Utf8Fault.message (fault : Utf8Fault) : String :=
  let place :=
    if fault.length = 1 then s!"byte 0x{hexText 2 fault.first.toNat} in position {fault.start}"
    else s!"bytes in position {fault.start}-{fault.start + fault.length - 1}"
  "'utf-8' codec can't decode " ++ place ++ ": " ++ fault.cause.message

/-- What the first byte of a sequence says about the rest. -/
structure Utf8Lead where
  more : Nat
  /-- The bits of the code point that the first byte holds. -/
  bits : Nat
  low : Nat
  high : Nat

/-- What a byte says as the first one of a sequence; nothing if no sequence begins with it. -/
def utf8Lead? (byte : UInt8) : Option Utf8Lead :=
  let b := byte.toNat
  if b < 0x80 then some ⟨0, b, 0x80, 0xBF⟩
  else if b < 0xC2 then none
  else if b < 0xE0 then some ⟨1, b - 0xC0, 0x80, 0xBF⟩
  else if b < 0xF0 then
    some ⟨2, b - 0xE0, if b = 0xE0 then 0xA0 else 0x80, if b = 0xED then 0x9F else 0xBF⟩
  else if b < 0xF5 then
    some ⟨3, b - 0xF0, if b = 0xF0 then 0x90 else 0x80, if b = 0xF4 then 0x8F else 0xBF⟩
  else none

/-- Reads `more` further bytes of a sequence whose code point so far is `bits`. Returns the code
point, or the cause and the number of bytes that were still valid. -/
def utf8Rest (more bits low high : Nat) (bytes : List UInt8) : Except (Utf8Cause × Nat) Nat :=
  match more, bytes with
  | 0, _ => .ok bits
  | _ + 1, [] => .error (.unexpectedEnd, 0)
  | more + 1, byte :: rest =>
    if low ≤ byte.toNat ∧ byte.toNat ≤ high then
      (utf8Rest more (bits * 0x40 + (byte.toNat - 0x80)) 0x80 0xBF rest).mapError
        fun (cause, valid) => (cause, valid + 1)
    else .error (.invalidContinuation, 0)

/-- The characters that bytes encode, when the first byte is at the offset `start`. -/
def decodeUtf8From (start : Nat) (bytes : List UInt8) : Except Utf8Fault (List Char) :=
  match bytes with
  | [] => .ok []
  | first :: rest =>
    match utf8Lead? first with
    | none => .error ⟨.invalidStart, start, first, 1⟩
    | some lead =>
      match utf8Rest lead.more lead.bits lead.low lead.high rest with
      | .error (cause, valid) => .error ⟨cause, start, first, valid + 1⟩
      | .ok code =>
        match decodeUtf8From (start + lead.more + 1) (rest.drop lead.more) with
        | .error fault => .error fault
        | .ok chars => .ok (Char.ofNat code :: chars)
termination_by bytes.length
decreasing_by simp only [List.length_drop, List.length_cons]; omega

/-- The characters that bytes encode. -/
def decodeUtf8 (bytes : List UInt8) : Except Utf8Fault (List Char) :=
  decodeUtf8From 0 bytes

/-- The bytes that encode a text. -/
def encodeUtf8 (text : String) : List UInt8 :=
  text.toUTF8.data.toList

/-- A text with every line end, also a carriage return by itself or before a line feed, as a line
feed. -/
def unifyLineEnds : List Char → List Char
  | '\r' :: '\n' :: rest => '\n' :: unifyLineEnds rest
  | '\r' :: rest => '\n' :: unifyLineEnds rest
  | c :: rest => c :: unifyLineEnds rest
  | [] => []

end Microtypes
