import Microtypes.Output
import Microtypes.Text.Utf8

/-!
# The bytes of a text

Every character is written as one to four bytes, and only the line feed with the byte of the line
feed (`count_utf8EncodeChar`), so that the lines of a file can be counted on its bytes as well as on
its text. Reading the bytes of a text gives the text (`decodeUtf8_encodeUtf8`): the first byte of a
character says how many follow, and the bounds that it sets for the second are met.
-/

namespace Microtypes

/-! ## Line feeds -/

theorem encodeUtf8_eq (text : String) :
    encodeUtf8 text = text.toList.flatMap String.utf8EncodeChar := by
  rw [encodeUtf8, String.toUTF8, ← String.utf8Encode_toList, List.utf8Encode,
    List.toList_data_toByteArray]

theorem ofNat_eq_lineFeed_iff {n : Nat} (hn : n < 256) : UInt8.ofNat n = 10 ↔ n = 10 := by
  rw [← UInt8.toNat_inj, UInt8.toNat_ofNat_of_lt' hn]
  rfl

/-- The byte of the line feed stands in the encoding of no other character. -/
theorem count_utf8EncodeChar (c : Char) :
    (String.utf8EncodeChar c).count 10 = if c = '\n' then 1 else 0 := by
  have hchar : c = '\n' ↔ c.val.toNat = 10 := by
    rw [← Char.val_inj, ← UInt32.toNat_inj]
    rfl
  simp only [hchar]
  rw [String.utf8EncodeChar]
  generalize c.val.toNat = v
  by_cases hone : v ≤ 127
  · rw [if_pos hone, List.count_singleton]
    simp [ofNat_eq_lineFeed_iff (show v < 256 by omega)]
  · rw [if_neg (by omega : v ≠ 10), List.count_eq_zero, if_neg hone]
    have hhigh {n : Nat} (hlow : 10 < n) (hn : n < 256) : 10 ≠ UInt8.ofNat n :=
      fun h => Nat.ne_of_gt hlow ((ofNat_eq_lineFeed_iff hn).mp h.symm)
    intro hmem
    split at hmem
    · simp only [List.mem_cons, List.not_mem_nil, or_false] at hmem
      rcases hmem with hmem | hmem <;> exact hhigh (by omega) (by omega) hmem
    · split at hmem <;> simp only [List.mem_cons, List.not_mem_nil, or_false] at hmem
      · rcases hmem with hmem | hmem | hmem <;> exact hhigh (by omega) (by omega) hmem
      · rcases hmem with hmem | hmem | hmem | hmem <;> exact hhigh (by omega) (by omega) hmem

/-- A text has as many line feeds as its bytes. -/
theorem count_encodeUtf8 (text : String) : (encodeUtf8 text).count 10 = lineFeeds text := by
  rw [encodeUtf8_eq, lineFeeds]
  induction text.toList with
  | nil => rfl
  | cons c rest ih =>
    rw [List.flatMap_cons, List.count_append, count_utf8EncodeChar, ih, List.count_cons]
    simp [Nat.add_comm]

/-! ## Reading what was written -/

section Decoding

variable {more bits low high n code start : Nat} {first : UInt8} {rest : List UInt8} {c : Char}

theorem utf8Lead?_one (hhigh : n < 0x80) :
    utf8Lead? (UInt8.ofNat n) = some ⟨0, n, 0x80, 0xBF⟩ := by
  rw [utf8Lead?, UInt8.toNat_ofNat_of_lt' (show n < 256 by omega)]
  simp only [if_pos hhigh]

theorem utf8Lead?_two (hlow : 0xC2 ≤ n) (hhigh : n < 0xE0) :
    utf8Lead? (UInt8.ofNat n) = some ⟨1, n - 0xC0, 0x80, 0xBF⟩ := by
  rw [utf8Lead?, UInt8.toNat_ofNat_of_lt' (show n < 256 by omega)]
  simp only [if_neg (by omega : ¬n < 0x80), if_neg (by omega : ¬n < 0xC2), if_pos hhigh]

theorem utf8Lead?_three (hlow : 0xE0 ≤ n) (hhigh : n < 0xF0) :
    utf8Lead? (UInt8.ofNat n) =
      some ⟨2, n - 0xE0, if n = 0xE0 then 0xA0 else 0x80, if n = 0xED then 0x9F else 0xBF⟩ := by
  rw [utf8Lead?, UInt8.toNat_ofNat_of_lt' (show n < 256 by omega)]
  simp only [if_neg (by omega : ¬n < 0x80), if_neg (by omega : ¬n < 0xC2),
    if_neg (by omega : ¬n < 0xE0), if_pos hhigh]

theorem utf8Lead?_four (hlow : 0xF0 ≤ n) (hhigh : n < 0xF5) :
    utf8Lead? (UInt8.ofNat n) =
      some ⟨3, n - 0xF0, if n = 0xF0 then 0x90 else 0x80, if n = 0xF4 then 0x8F else 0xBF⟩ := by
  rw [utf8Lead?, UInt8.toNat_ofNat_of_lt' (show n < 256 by omega)]
  simp only [if_neg (by omega : ¬n < 0x80), if_neg (by omega : ¬n < 0xC2),
    if_neg (by omega : ¬n < 0xE0), if_neg (by omega : ¬n < 0xF0), if_pos hhigh]

theorem utf8Rest_zero (hbits : bits = code) : utf8Rest 0 bits low high rest = .ok code := by
  rw [utf8Rest, hbits]

theorem utf8Rest_succ (hn : n < 256) (hlow : low ≤ n) (hhigh : n ≤ high)
    (hrest : utf8Rest more (bits * 0x40 + (n - 0x80)) 0x80 0xBF rest = .ok code) :
    utf8Rest (more + 1) bits low high (UInt8.ofNat n :: rest) = .ok code := by
  rw [utf8Rest, UInt8.toNat_ofNat_of_lt' hn, if_pos ⟨hlow, hhigh⟩, hrest]
  rfl

theorem decodeUtf8From_cons (hlead : utf8Lead? first = some ⟨more, bits, low, high⟩)
    (hrest : utf8Rest more bits low high rest = .ok c.toNat) :
    decodeUtf8From start (first :: rest) =
      (decodeUtf8From (start + more + 1) (rest.drop more)).map (c :: ·) := by
  rw [decodeUtf8From]
  simp only [hlead, hrest]
  cases decodeUtf8From (start + more + 1) (rest.drop more) with
  | error fault => rfl
  | ok chars => simp [Except.map]

/-- The bytes of a character are read as this character. -/
theorem decodeUtf8From_encode (start : Nat) (c : Char) (rest : List UInt8) :
    ∃ next, decodeUtf8From start (String.utf8EncodeChar c ++ rest) =
      (decodeUtf8From next rest).map (c :: ·) := by
  have hrange : c.toNat < 0xD800 ∨ 0xDFFF < c.toNat ∧ c.toNat < 0x110000 := c.valid
  have hcode : c.val.toNat = c.toNat := rfl
  simp only [String.utf8EncodeChar, hcode]
  by_cases hone : c.toNat ≤ 0x7F
  · rw [if_pos hone]
    exact ⟨_, decodeUtf8From_cons (utf8Lead?_one (by omega)) (utf8Rest_zero rfl)⟩
  rw [if_neg hone]
  by_cases htwo : c.toNat ≤ 0x7FF
  · rw [if_pos htwo]
    refine ⟨_, decodeUtf8From_cons (utf8Lead?_two (by omega) (by omega)) ?_⟩
    refine utf8Rest_succ (by omega) (by omega) (by omega) (utf8Rest_zero ?_)
    omega
  rw [if_neg htwo]
  by_cases hthree : c.toNat ≤ 0xFFFF
  · rw [if_pos hthree]
    refine ⟨_, decodeUtf8From_cons (utf8Lead?_three (by omega) (by omega)) ?_⟩
    refine utf8Rest_succ (by omega) ?_ ?_ ?_
    · split <;> omega
    · split <;> omega
    · refine utf8Rest_succ (by omega) (by omega) (by omega) (utf8Rest_zero ?_)
      omega
  · rw [if_neg hthree]
    refine ⟨_, decodeUtf8From_cons (utf8Lead?_four (by omega) (by omega)) ?_⟩
    refine utf8Rest_succ (by omega) ?_ ?_ ?_
    · split <;> omega
    · split <;> omega
    · refine utf8Rest_succ (by omega) (by omega) (by omega) ?_
      refine utf8Rest_succ (by omega) (by omega) (by omega) (utf8Rest_zero ?_)
      omega

end Decoding

/-- What is read from the bytes of a text is the text. -/
theorem decodeUtf8_encodeUtf8 (text : String) : decodeUtf8 (encodeUtf8 text) = .ok text.toList := by
  have hall (start : Nat) (chars : List Char) :
      decodeUtf8From start (chars.flatMap String.utf8EncodeChar) = .ok chars := by
    induction chars generalizing start with
    | nil =>
      rw [List.flatMap_nil, decodeUtf8From]
    | cons c rest ih =>
      obtain ⟨next, hnext⟩ := decodeUtf8From_encode start c (rest.flatMap String.utf8EncodeChar)
      rw [List.flatMap_cons, hnext, ih]
      rfl
  rw [encodeUtf8_eq]
  exact hall 0 text.toList

end Microtypes
