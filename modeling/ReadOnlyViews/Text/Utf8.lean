import ReadOnlyViews.Text.Basic

/-!
UTF-8: text to bytes, and bytes to text with the place and the kind of the first fault.
-/

namespace ReadOnlyViews

/-- The content of a file. -/
abbrev Bytes := List UInt8

namespace Utf8

/-- The bytes of a text. -/
def encode (text : Text) : Bytes := text.flatMap String.utf8EncodeChar

/-- The number of bytes of a text. -/
def size (text : Text) : Nat := (encode text).length

/-- What is wrong at the first fault. -/
inductive FaultKind where
  /-- The byte cannot begin a character. -/
  | start
  /-- A byte that should continue a character does not. -/
  | continuation
  /-- The bytes end inside a character. -/
  | truncated
  deriving DecidableEq, Repr

/-- The first fault of a byte sequence: its offset, how many bytes it spans, and its kind. -/
structure Fault where
  offset : Nat
  length : Nat
  first : UInt8
  kind : FaultKind
  deriving DecidableEq, Repr

/-- What a first byte announces: how many bytes follow, the bounds of the first of them, and the
bits that the first byte itself contributes. -/
structure Lead where
  follow : Nat
  low : Nat
  high : Nat
  bits : Nat
  deriving DecidableEq, Repr

/-- The reading of a first byte; the bounds exclude overlong forms, surrogates and what lies beyond
the last code point. -/
def lead? (byte : UInt8) : Option Lead :=
  let n := byte.toNat
  if n < 0x80 then some ⟨0, 0x80, 0xbf, n⟩
  else if n < 0xc2 then none
  else if n < 0xe0 then some ⟨1, 0x80, 0xbf, n - 0xc0⟩
  else if n < 0xf0 then
    some ⟨2, if n = 0xe0 then 0xa0 else 0x80, if n = 0xed then 0x9f else 0xbf, n - 0xe0⟩
  else if n < 0xf5 then
    some ⟨3, if n = 0xf0 then 0x90 else 0x80, if n = 0xf4 then 0x8f else 0xbf, n - 0xf0⟩
  else none

/-- The reader between two bytes: between characters, or inside one with bytes still to come. -/
inductive State where
  | between
  | inside (start : Nat) (first : UInt8) (follow low high bits : Nat)
  deriving DecidableEq, Repr

/-- The text of a byte sequence, read on from a state; `offset` counts the bytes already read. -/
def decodeFrom : State → (offset : Nat) → Bytes → Except Fault Text
  | .between, _, [] => .ok []
  | .inside start first _ _ _ _, offset, [] => .error ⟨start, offset - start, first, .truncated⟩
  | .between, offset, byte :: rest =>
    match lead? byte with
    | none => .error ⟨offset, 1, byte, .start⟩
    | some ⟨0, _, _, bits⟩ => (Char.ofNat bits :: ·) <$> decodeFrom .between (offset + 1) rest
    | some ⟨follow + 1, low, high, bits⟩ =>
      decodeFrom (.inside offset byte (follow + 1) low high bits) (offset + 1) rest
  | .inside start first follow low high bits, offset, byte :: rest =>
    if low ≤ byte.toNat ∧ byte.toNat ≤ high then
      let bits := bits * 64 + (byte.toNat - 0x80)
      if follow ≤ 1 then (Char.ofNat bits :: ·) <$> decodeFrom .between (offset + 1) rest
      else decodeFrom (.inside start first (follow - 1) 0x80 0xbf bits) (offset + 1) rest
    else .error ⟨start, offset - start, first, .continuation⟩

/-- The text of a byte sequence, or its first fault. -/
def decode (bytes : Bytes) : Except Fault Text := decodeFrom .between 0 bytes

end Utf8

end ReadOnlyViews
