import ReadOnlyViews.Document
import ReadOnlyViews.Edit
import ReadOnlyViews.Text.Pattern

/-!
Lines that are inserted once.  A witness in the text proves that they are already there; otherwise
they go next to the first anchor that matches, or to the end of an aggregating file.
-/

namespace ReadOnlyViews

/-- What proves that lines are already there. -/
inductive Witness where
  /-- A text. -/
  | literal (part : Text)
  /-- A pattern, and how a message shows it. -/
  | pattern (p : Pattern) (shown : Text)

namespace Witness

/-- A literal is its own witness. -/
instance : Coe Text Witness := ⟨literal⟩

/-- Whether a text has the witness. -/
def presentIn (text : Text) : Witness → Bool
  | literal part => Text.includes part text
  | pattern p _ => p.occursIn text

/-- The witness in a message. -/
def shown : Witness → Text
  | literal part => Text.quoted part
  | pattern _ shown => shown

end Witness

/-- Which side of the anchor the lines go to. -/
inductive Side where
  | before
  | after
  deriving DecidableEq, Repr

/-- Where lines may be inserted: next to the line of the target, which may need a lead in front. -/
structure Anchor where
  lead : Pattern := .nothing
  target : Pattern
  side : Side := .before

/-- How a literal anchor has to stand in its line. -/
inductive Lead where
  /-- Anywhere. -/
  | anywhere
  /-- At the start of a line. -/
  | lineStart
  /-- Behind nothing but blanks and tabs. -/
  | blanks
  /-- Behind nothing but white space, which may span lines. -/
  | space
  deriving DecidableEq, Repr

namespace Anchor

/-- A literal anchor, optionally only as a whole word at its end. -/
def ofLiteral (lead : Lead) (part : Text) (wordEnd : Bool) (side : Side) : Anchor :=
  let front : Pattern := match lead with
    | .anywhere => .nothing
    | .lineStart => .lineStart
    | .blanks => .lineStart ++ .run isBlankOrTab
    | .space => .lineStart ++ .blanks
  let back : Pattern := if wordEnd then .wordEdge else .nothing
  { target := front ++ .exactly part ++ back, side }

/-- The line of the anchor's first match and the position for new lines: before the line where the
target starts, or after the one that holds its last character. -/
def place? (anchor : Anchor) (text : Text) : Option (Nat × Nat) :=
  (Probe.find? { lead := anchor.lead, target := anchor.target } text).map fun found =>
    match anchor.side with
    | .before =>
      let line := Document.lineOf text found.start.offset
      (line, line)
    | .after =>
      let line := Document.lineOf text (max found.start.offset (found.stop.offset - 1))
      (line, line + 1)

end Anchor

/-- Inserts lines at the first anchor that matches, unless the witness is present.  Each line that
is not empty takes the indentation of the anchor's line.  Without any match the edit is skipped, or
fails when the lines are required. -/
def insertOnce (witness : Witness) (insertion : List Text) (anchors : List Anchor)
    (required : Bool) (text : Text) : Except Failure Edit :=
  if witness.presentIn text then .ok { outcome := .alreadyPresent, text }
  else match anchors.findSome? (·.place? text) with
    | some (line, position) =>
      let lines := Document.lines text
      let indent := Text.indentation (lines.getD line [])
      let block := insertion.map fun new => if new.isEmpty then new else indent ++ new
      .ok { outcome := .applied,
            text := Document.render text (Document.insertAt position block lines) }
    | none =>
      if required then
        .error (.noAnchor (match insertion with
          | first :: _ => Text.quoted (Text.trim first)
          | [] => witness.shown))
      else .ok { outcome := .noAnchor, text, reason := "anchor not found" }

/-- A block of lines for an aggregating file, with the witness that it is there. -/
structure Fragment where
  lines : List Text
  witness : Witness
  blankAfter : Bool := false

/-- Puts a fragment before the line that holds the first anchor found; the anchor stays, so later
fragments land between earlier ones and it.  Without any anchor the fragment goes to the end. -/
def splice (fragment : Fragment) (anchors : List Text) (text : Text) : Edit :=
  if fragment.witness.presentIn text then { outcome := .alreadyPresent, text }
  else
    let lines := Document.lines text
    match anchors.findSome? (Text.offsetOf? · text) with
    | some offset =>
      let block := fragment.lines ++ if fragment.blankAfter then [[]] else []
      { outcome := .applied,
        text := Document.render text
          (Document.insertAt (Document.lineOf text offset) block lines) }
    | none =>
      let kept := if lines.getLast? = some [] then lines.dropLast else lines
      let missing : Text := if anchors.isEmpty then "none given" else Text.join ", " anchors
      { outcome := .applied,
        text := Document.render text (kept ++ [[]] ++ fragment.lines ++ [[]]),
        reason := "anchor not found (" ++ missing ++ "); appended at end of file",
        fallback := true }

end ReadOnlyViews
