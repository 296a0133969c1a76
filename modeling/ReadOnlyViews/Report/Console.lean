import ReadOnlyViews.Text.Basic

/-!
A console and how it shows text: tabs become blanks, some controls show nothing, and blanks at the
end of a line are not kept.
-/

namespace ReadOnlyViews

/-- The lines that a console has shown. -/
abbrev Console := List Text

namespace Console

/-- Whether a console shows nothing for a character: the bell, the backspace, the vertical tab, the
form feed and the carriage return. -/
def isSilent (c : Char) : Bool :=
  c == '\x07' || c == '\x08' || c == '\x0b' || c == '\x0c' || c == '\r'

/-- The characters of a text that a console shows. -/
def visible (text : Text) : Text := text.filter (!isSilent ·)

/-- The distance of tab stops. -/
def tabWidth : Nat := 8

/-- A line with its tabs as blanks up to the next stop. -/
def expandTabs : (column : Nat) → Text → Text
  | _, [] => []
  | column, c :: rest =>
    if c = '\t' then
      let blanks := tabWidth - column % tabWidth
      List.replicate blanks ' ' ++ expandTabs (column + blanks) rest
    else c :: expandTabs (column + 1) rest

/-- A line as it is kept: what is visible of it, without blanks at its end. -/
def line (text : Text) : Text :=
  ((expandTabs 0 (visible text)).reverse.dropWhile (· == ' ')).reverse

/-- Shows a text, which may have several lines. -/
def print (console : Console) (text : Text) : Console :=
  console ++ (Text.pieces '\n' text).map line

/-- Shows lines. -/
def printLines (console : Console) (lines : List Text) : Console := console ++ lines.map line

end Console

end ReadOnlyViews
