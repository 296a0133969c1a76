import ReadOnlyViews.Text.Basic

/-!
White space: the characters that trimming removes and that separate words.
-/

namespace ReadOnlyViews

/-- White space: the ASCII controls tab to carriage return and the four separators before the
blank, the blank itself, and the Unicode spaces and line separators.  The zero-width space and the
byte-order mark are not among them. -/
def isBlank (c : Char) : Bool :=
  let n := c.toNat
  (0x9 ≤ n && n ≤ 0xd) || (0x1c ≤ n && n ≤ 0x20) ||
  (0x85 ≤ n && (n == 0x85 || n == 0xa0 || n == 0x1680 || (0x2000 ≤ n && n ≤ 0x200a) ||
    n == 0x2028 || n == 0x2029 || n == 0x202f || n == 0x205f || n == 0x3000))

/-- A blank or a tab. -/
def isBlankOrTab (c : Char) : Bool := c == ' ' || c == '\t'

namespace Text

/-- The text without its leading white space. -/
def trimStart (text : Text) : Text := text.dropWhile isBlank

/-- The text without its trailing white space. -/
def trimEnd (text : Text) : Text := (text.reverse.dropWhile isBlank).reverse

/-- The text without the white space at either end. -/
def trim (text : Text) : Text := trimEnd (trimStart text)

/-- The leading white space of a line. -/
def indentation (line : Text) : Text := line.takeWhile isBlank

end Text

end ReadOnlyViews
