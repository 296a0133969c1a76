import ReadOnlyViews.Text.Quoted

/-!
Texts as code points.  An escape can spell half of a surrogate pair by itself, which is a code point but
no character; a text with one cannot be encoded.
-/

namespace ReadOnlyViews.Text

/-- The code points of a text. -/
def points (text : Text) : List Nat := text.map Char.toNat

/-- Whether a code point is half of a surrogate pair. -/
def isHalf (point : Nat) : Bool := 0xd800 ≤ point && point < 0xe000

/-- The first half of a surrogate pair among code points, with its position. -/
def half? (points : List Nat) : Option (Nat × Nat) := points.zipIdx.find? fun (point, _) => isHalf point

/-- The text of code points; the replacement character stands for half of a surrogate pair. -/
def ofPoints (points : List Nat) : Text :=
  points.map fun point => if isHalf point then '\ufffd' else Char.ofNat point

/-- One code point inside quotes of the given kind. -/
def quotedPoint (quote : Char) (point : Nat) : Text :=
  if isHalf point then "\\u" ++ hexPadded 4 point else quotedChar quote (Char.ofNat point)

/-- Code points in quotes, as their text is shown in quotes. -/
def quotedPoints (points : List Nat) : Text :=
  let quote := if points.contains '\''.toNat && !points.contains '"'.toNat then '"' else '\''
  quote :: points.flatMap (quotedPoint quote) ++ [quote]

end ReadOnlyViews.Text
