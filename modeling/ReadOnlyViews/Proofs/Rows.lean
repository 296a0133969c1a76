import ReadOnlyViews.Proofs.LineMatches

/-!
The lines of a text, each with its own line end.  The lines of a document forget how they ended; the
rows here do not, so a text is exactly its rows, and what an edit does to the untouched part of a text
can be said row by row.
-/

namespace ReadOnlyViews.Document

/-- A line with the line end behind it, if there is one. -/
structure Row where
  line : Text
  ending : Text
  deriving DecidableEq, Repr

/-- The characters of a row. -/
def Row.text (row : Row) : Text := row.line ++ row.ending

/-- The characters of rows. -/
def textOf (rows : List Row) : Text := rows.flatMap Row.text

/-- The rows of a text; the last one has no line end, and may be empty. -/
def rows : Text → List Row
  | [] => [⟨[], []⟩]
  | c :: rest =>
    if c = '\n' then ⟨[], ['\n']⟩ :: rows rest
    else if c = '\r' ∧ rest.head? = some '\n' then
      (rows rest).modifyHead fun row => { row with ending := c :: row.ending }
    else (rows rest).modifyHead fun row => { row with line := c :: row.line }

private theorem rows_cons_plain {c : Char} {rest : Text} (plain : c ≠ '\n')
    (unended : c = '\r' → rest.head? ≠ some '\n') :
    rows (c :: rest) = (rows rest).modifyHead fun row => { row with line := c :: row.line } := by
  rw [rows, if_neg plain, if_neg fun ended => unended ended.1 ended.2]

theorem rows_ne_nil (text : Text) : rows text ≠ [] := by
  induction text with
  | nil => simp [rows]
  | cons c rest ih =>
    rw [rows]
    split
    · simp
    · split <;> simpa using ih

@[simp] theorem textOf_nil : textOf [] = [] := rfl

@[simp] theorem textOf_cons (row : Row) (others : List Row) :
    textOf (row :: others) = row.line ++ (row.ending ++ textOf others) := by
  simp [textOf, Row.text]

@[simp] theorem textOf_append (front back : List Row) :
    textOf (front ++ back) = textOf front ++ textOf back := by
  simp [textOf]

theorem IsLineEnd.ne_nil {ending : Text} (isEnd : IsLineEnd ending) : ending ≠ [] := by
  rcases isEnd with rfl | rfl <;> simp

/-- A text splits at its first line end, if it has one. -/
theorem rows_cases (text : Text) :
    (rows text = [⟨text, []⟩] ∧ lines text = [text]) ∨
      ∃ line ending rest, IsLineEnd ending ∧ text = line ++ (ending ++ rest) ∧
        rows text = ⟨line, ending⟩ :: rows rest ∧ lines text = line :: lines rest := by
  induction text with
  | nil => exact .inl ⟨rfl, rfl⟩
  | cons c text ih =>
    by_cases fed : c = '\n'
    · subst fed
      exact .inr ⟨[], ['\n'], text, .inl rfl, rfl, rfl, by rw [lines]⟩
    by_cases ended : c = '\r' ∧ text.head? = some '\n'
    · obtain ⟨rfl, next⟩ := ended
      obtain ⟨rest, rfl⟩ := List.head?_eq_some_iff.mp next
      exact .inr ⟨[], ['\r', '\n'], rest, .inr rfl, rfl, rfl, by rw [lines]⟩
    have unended : c = '\r' → text.head? ≠ some '\n' := fun isReturn next => ended ⟨isReturn, next⟩
    rw [rows_cons_plain fed unended, lines_cons_plain fed unended]
    rcases ih with ⟨cutRows, cutLines⟩ | ⟨line, ending, rest, isEnd, rfl, cutRows, cutLines⟩
    · exact .inl ⟨by rw [cutRows]; rfl, by rw [cutLines]; rfl⟩
    · exact .inr ⟨c :: line, ending, rest, isEnd, rfl, by rw [cutRows]; rfl, by rw [cutLines]; rfl⟩

/-- What holds of a text without line ends, and of a text with one more line in front, holds of every
text. -/
theorem rows_induction {motive : Text → Prop}
    (last : ∀ text, rows text = [⟨text, []⟩] → lines text = [text] → motive text)
    (ahead : ∀ line ending rest, IsLineEnd ending →
      rows (line ++ (ending ++ rest)) = ⟨line, ending⟩ :: rows rest →
      lines (line ++ (ending ++ rest)) = line :: lines rest → motive rest →
      motive (line ++ (ending ++ rest)))
    (text : Text) : motive text := by
  rcases rows_cases text with ⟨cutRows, cutLines⟩ | ⟨line, ending, rest, isEnd, whole, cutRows, cutLines⟩
  · exact last text cutRows cutLines
  · have shorter : rest.length < text.length := by
      have := List.length_pos_iff.mpr (IsLineEnd.ne_nil isEnd)
      simp only [whole, List.length_append]
      omega
    rw [whole] at cutRows cutLines ⊢
    exact ahead line ending rest isEnd cutRows cutLines (rows_induction last ahead rest)
termination_by text.length

/-- Nothing of a text is lost in its rows. -/
@[simp] theorem textOf_rows (text : Text) : textOf (rows text) = text := by
  induction text using rows_induction with
  | last text cut _ => simp [cut]
  | ahead line ending rest _ cut _ ih => rw [cut, textOf_cons, ih]

@[simp] theorem map_line_rows (text : Text) : (rows text).map Row.line = lines text := by
  induction text using rows_induction with
  | last text cut cutLines => simp [cut, cutLines]
  | ahead line ending rest _ cut cutLines ih => rw [cut, cutLines, List.map_cons, ih]

/-- Rows of which only the last may be without a line end. -/
structure Tied (rows : List Row) : Prop where
  inside : rows.Pairwise fun row _ => IsLineEnd row.ending
  ended : ∀ row ∈ rows, row.ending = [] ∨ IsLineEnd row.ending

theorem Tied.sublist {all kept : List Row} (tied : Tied all) (sub : kept.Sublist all) : Tied kept :=
  ⟨tied.inside.sublist sub, fun row member => tied.ended row (sub.subset member)⟩

theorem tied_rows (text : Text) : Tied (rows text) := by
  induction text using rows_induction with
  | last text cut _ =>
    rw [cut]
    exact ⟨List.pairwise_singleton _ _, by simp⟩
  | ahead line ending rest isEnd cut _ ih =>
    rw [cut]
    refine ⟨List.pairwise_cons.mpr ⟨fun _ _ => isEnd, ih.inside⟩, ?_⟩
    intro row member
    rcases List.mem_cons.mp member with rfl | later
    · exact .inr isEnd
    · exact ih.ended row later

theorem line_mem_lines {text : Text} {row : Row} (member : row ∈ rows text) : row.line ∈ lines text := by
  rw [← map_line_rows]
  exact List.mem_map_of_mem member

end ReadOnlyViews.Document
