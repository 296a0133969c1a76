import ReadOnlyViews.Text.Utf8

/-!
A text that is written as UTF-8 is read back as it was.  The bytes of one character are taken apart
by the length of its form, and the reader comes out between characters again.
-/

namespace ReadOnlyViews.Utf8

variable {c : Char} {offset : Nat} {rest : Bytes}

private theorem toNat_ofNat {n : Nat} (small : n < 256) : (UInt8.ofNat n).toNat = n := by
  rw [UInt8.toNat_ofNat', Nat.mod_eq_of_lt small]

/-- The first byte of a character of several bytes. -/
private theorem decodeFrom_lead {byte : UInt8} {follow low high bits : Nat}
    (leads : lead? byte = some ⟨follow + 1, low, high, bits⟩) :
    decodeFrom .between offset (byte :: rest) =
      decodeFrom (.inside offset byte (follow + 1) low high bits) (offset + 1) rest := by
  rw [decodeFrom, leads]

/-- A byte inside a character that is not its last. -/
private theorem decodeFrom_inside {start n follow low high bits : Nat} {first : UInt8}
    (small : n < 256) (fits : low ≤ n ∧ n ≤ high) :
    decodeFrom (.inside start first (follow + 2) low high bits) offset (UInt8.ofNat n :: rest) =
      decodeFrom (.inside start first (follow + 1) 0x80 0xbf (bits * 64 + (n - 0x80))) (offset + 1)
        rest := by
  rw [decodeFrom, toNat_ofNat small, if_pos fits]
  dsimp only
  rw [if_neg (by omega)]
  rfl

/-- The last byte of a character. -/
private theorem decodeFrom_last {start n low high bits : Nat} {first : UInt8} (small : n < 256)
    (fits : low ≤ n ∧ n ≤ high) (whole : bits * 64 + (n - 0x80) = c.toNat) :
    decodeFrom (.inside start first 1 low high bits) offset (UInt8.ofNat n :: rest) =
      (c :: ·) <$> decodeFrom .between (offset + 1) rest := by
  rw [decodeFrom, toNat_ofNat small, if_pos fits]
  dsimp only
  rw [if_pos (by omega), whole, Char.ofNat_toNat]

private theorem lead?_one {n : Nat} (last : n < 0x80) :
    lead? (UInt8.ofNat n) = some ⟨0, 0x80, 0xbf, n⟩ := by
  rw [lead?, toNat_ofNat (by omega), if_pos last]

private theorem lead?_two {n : Nat} (first : 0xc2 ≤ n) (last : n < 0xe0) :
    lead? (UInt8.ofNat n) = some ⟨1, 0x80, 0xbf, n - 0xc0⟩ := by
  rw [lead?, toNat_ofNat (by omega), if_neg (by omega), if_neg (by omega), if_pos last]

private theorem lead?_three {n : Nat} (first : 0xe0 ≤ n) (last : n < 0xf0) :
    lead? (UInt8.ofNat n) =
      some ⟨2, if n = 0xe0 then 0xa0 else 0x80, if n = 0xed then 0x9f else 0xbf, n - 0xe0⟩ := by
  rw [lead?, toNat_ofNat (by omega), if_neg (by omega), if_neg (by omega), if_neg (by omega), if_pos last]

private theorem lead?_four {n : Nat} (first : 0xf0 ≤ n) (last : n < 0xf5) :
    lead? (UInt8.ofNat n) =
      some ⟨3, if n = 0xf0 then 0x90 else 0x80, if n = 0xf4 then 0x8f else 0xbf, n - 0xf0⟩ := by
  rw [lead?, toNat_ofNat (by omega), if_neg (by omega), if_neg (by omega), if_neg (by omega),
    if_neg (by omega), if_pos last]

/-- The bytes of one character are read back as that character. -/
private theorem decodeFrom_encodeChar (c : Char) (offset : Nat) (rest : Bytes) :
    ∃ later, decodeFrom .between offset (String.utf8EncodeChar c ++ rest) =
      (c :: ·) <$> decodeFrom .between later rest := by
  -- a code point is below the surrogates or above them, and no further than the last one
  have valid : c.toNat < 0xd800 ∨ 0xdfff < c.toNat ∧ c.toNat < 0x110000 := c.valid
  have value : c.val.toNat = c.toNat := rfl
  unfold String.utf8EncodeChar
  rw [value]
  dsimp only
  split
  · refine ⟨offset + 1, ?_⟩
    rw [List.singleton_append, decodeFrom, lead?_one (by omega)]
    dsimp only
    rw [Char.ofNat_toNat]
  · split
    · refine ⟨offset + 1 + 1, ?_⟩
      rw [List.cons_append, List.singleton_append,
        decodeFrom_lead (lead?_two (by omega) (by omega))]
      exact decodeFrom_last (by omega) (by omega) (by omega)
    · split
      · refine ⟨offset + 1 + 1 + 1, ?_⟩
        rw [List.cons_append, List.cons_append, List.singleton_append,
          decodeFrom_lead (lead?_three (by omega) (by omega)),
          decodeFrom_inside (by omega) (by split <;> split <;> omega)]
        exact decodeFrom_last (by omega) (by omega) (by omega)
      · refine ⟨offset + 1 + 1 + 1 + 1, ?_⟩
        rw [List.cons_append, List.cons_append, List.cons_append, List.singleton_append,
          decodeFrom_lead (lead?_four (by omega) (by omega)),
          decodeFrom_inside (by omega) (by split <;> split <;> omega),
          decodeFrom_inside (by omega) (by omega)]
        exact decodeFrom_last (by omega) (by omega) (by omega)

/-- What is written is read back. -/
theorem decode_encode (text : Text) : decode (encode text) = .ok text := by
  suffices read : ∀ offset, decodeFrom .between offset (encode text) = .ok text from read 0
  induction text with
  | nil => exact fun _ => rfl
  | cons c rest ih =>
    intro offset
    obtain ⟨later, read⟩ := decodeFrom_encodeChar c offset (encode rest)
    rw [encode, List.flatMap_cons]
    exact read.trans (by rw [ih later]; rfl)

end ReadOnlyViews.Utf8
