import ReadOnlyViews.Text.Basic

/-!
A file's text as lines.  Lines end with a line feed, alone or behind a carriage return; a text that
was not changed is rendered as it was, whatever mixture of line ends it has.
-/

namespace ReadOnlyViews.Document

/-- The line end that new lines of a text get: the long one if it occurs at all. -/
def newline (text : Text) : Text := if Text.includes "\r\n" text then "\r\n" else "\n"

/-- The lines of a text, without their line ends; the last one may be empty. -/
def lines : Text → List Text
  | [] => [[]]
  | '\r' :: '\n' :: rest => [] :: lines rest
  | '\n' :: rest => [] :: lines rest
  | c :: rest =>
    match lines rest with
    | [] => [[c]]
    | line :: others => (c :: line) :: others

theorem lines_ne_nil (text : Text) : lines text ≠ [] := by
  fun_cases lines text <;> simp

/-- There is one line more than there are line feeds. -/
theorem length_lines (text : Text) : (lines text).length = Text.lineFeeds text + 1 := by
  fun_induction lines text with
  | case1 => rfl
  | case2 rest ih => simp [Text.lineFeeds] at ih ⊢; exact ih
  | case3 rest ih => simp [Text.lineFeeds] at ih ⊢; exact ih
  | case4 c rest _ plain none ih => exact absurd none (lines_ne_nil rest)
  | case5 c rest _ plain line others cut ih =>
    simpa [cut, Text.lineFeeds, List.count_cons, show c ≠ '\n' from plain] using ih

/-- The text of changed lines; lines that are those of `text` give `text` itself. -/
def render (text : Text) (changed : List Text) : Text :=
  if changed = lines text then text else Text.join (newline text) changed

@[simp] theorem render_lines (text : Text) : render text (lines text) = text := by
  simp [render]

/-- The number of the line, from zero, that holds the character at an offset. -/
def lineOf (text : Text) (offset : Nat) : Nat := Text.lineFeeds (text.take offset)

/-- The lines with a block of lines put in at a position. -/
def insertAt (position : Nat) (block lines : List Text) : List Text :=
  lines.take position ++ block ++ lines.drop position

end ReadOnlyViews.Document
