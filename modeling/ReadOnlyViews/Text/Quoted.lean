import ReadOnlyViews.Text.Basic
import ReadOnlyViews.Text.Printable

/-!
Text shown in quotes, as messages and value texts show it.
-/

namespace ReadOnlyViews.Text

/-- The digits of a code point in base sixteen, with leading zeros up to the given width. -/
def hexPadded (width n : Nat) : Text :=
  let digits := Nat.toDigits 16 n
  List.replicate (width - digits.length) '0' ++ digits

/-- One character inside quotes of the given kind: the backslash, the quote and the three common
controls have short escapes, and what has no printed form is written by its code point. -/
def quotedChar (quote c : Char) : Text :=
  if c = '\\' then "\\\\"
  else if c = quote then ['\\', c]
  else if c = '\n' then "\\n"
  else if c = '\r' then "\\r"
  else if c = '\t' then "\\t"
  else if isPrintable c then [c]
  else if c.toNat < 0x100 then "\\x" ++ hexPadded 2 c.toNat
  else if c.toNat < 0x10000 then "\\u" ++ hexPadded 4 c.toNat
  else "\\U" ++ hexPadded 8 c.toNat

/-- Text in single quotes, or in double quotes when it holds a single quote and no double one. -/
def quoted (text : Text) : Text :=
  let quote := if text.contains '\'' && !text.contains '"' then '"' else '\''
  quote :: text.flatMap (quotedChar quote) ++ [quote]

end ReadOnlyViews.Text
