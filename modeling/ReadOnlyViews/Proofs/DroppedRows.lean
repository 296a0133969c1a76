import ReadOnlyViews.Proofs.ReadOnlySources
import ReadOnlyViews.Proofs.Rows

/-!
Rows that are dropped from a text.  What is left are rows again, each with its own line end, so a
text that has lost some of its rows can be told apart by rows as the text itself can: a line with its
line end is one of them, and a part of a line lies within one of them.
-/

namespace ReadOnlyViews.Document

/-- Rows as a text has them; some of the text's rows may be missing. -/
structure AreRows (rows : List Row) : Prop where
  tied : Tied rows
  free : ∀ row ∈ rows, '\n' ∉ row.line
  /-- A carriage return before a line feed belongs to the line end. -/
  whole : ∀ row ∈ rows, row.ending = ['\n'] → row.line.getLast? ≠ some '\r'

theorem AreRows.sublist {all kept : List Row} (areRows : AreRows all) (sub : kept.Sublist all) :
    AreRows kept :=
  ⟨areRows.tied.sublist sub, fun row member => areRows.free row (sub.subset member),
    fun row member => areRows.whole row (sub.subset member)⟩

theorem AreRows.tail {row : Row} {others : List Row} (areRows : AreRows (row :: others)) :
    AreRows others :=
  areRows.sublist (List.sublist_cons_self _ _)

theorem areRows_rows (text : Text) : AreRows (rows text) := by
  refine ⟨tied_rows text, fun row member => lineFeed_notMem_of_mem_lines (line_mem_lines member), ?_⟩
  induction text using rows_induction with
  | last text cut _ =>
    intro row member
    rw [cut, List.mem_singleton] at member
    subst member
    rintro ⟨⟩
  | ahead line ending rest _ cut cutLines ih =>
    have free : '\n' ∉ line :=
      @lineFeed_notMem_of_mem_lines (line ++ (ending ++ rest)) line (by rw [cutLines]; simp)
    rw [cut]
    intro row member short last
    rcases List.mem_cons.mp member with rfl | later
    · -- The return would be part of the line end, and the line one character shorter.
      obtain ⟨front, rfl⟩ := List.getLast?_eq_some_iff.mp last
      have shorter := lines_append_crlf (fun fed => free (List.mem_append_left _ fed) : '\n' ∉ front) rest
      simp only at short
      rw [short, List.append_assoc, List.singleton_append, List.singleton_append, shorter] at cutLines
      simpa using (List.cons.inj cutLines).1
    · exact ih row later short last

/-- The first row ends with a line end, or there are no more rows. -/
theorem AreRows.ended_or {row : Row} {others : List Row} (areRows : AreRows (row :: others)) :
    IsLineEnd row.ending ∨ row.ending = [] ∧ others = [] := by
  rcases areRows.tied.ended row (by simp) with none | isEnd
  · cases others with
    | nil => exact .inr ⟨none, rfl⟩
    | cons next others =>
      have isEnd := (List.pairwise_cons.mp areRows.tied.inside).1 next (by simp)
      exact absurd none isEnd.ne_nil
  · exact .inl isEnd

theorem IsLineEnd.getLast?_eq {ending : Text} (isEnd : IsLineEnd ending) : ending.getLast? = some '\n' := by
  rcases isEnd with rfl | rfl <;> rfl

/-- What stands in front of a row ends with a line. -/
theorem AreRows.ended_textOf {front back : List Row} {row : Row} (areRows : AreRows (front ++ row :: back)) :
    textOf front = [] ∨ (textOf front).getLast? = some '\n' := by
  rcases List.eq_nil_or_concat front with rfl | ⟨others, last, rfl⟩
  · exact .inl rfl
  · right
    have isEnd : IsLineEnd last.ending :=
      (List.pairwise_append.mp areRows.tied.inside).2.2 last (by simp) row (by simp)
    rw [List.concat_eq_append, textOf_append, textOf_cons, textOf_nil, List.append_nil,
      List.getLast?_append_of_ne_nil _ (by simp [isEnd.ne_nil]), List.getLast?_append_of_ne_nil _ isEnd.ne_nil,
      isEnd.getLast?_eq]

/-- Another line without any part of a line end can stand in a row. -/
theorem AreRows.replace {front back : List Row} {row : Row} (areRows : AreRows (front ++ row :: back))
    {line : Text} (single : line.IsSingleLine) : AreRows (front ++ ⟨line, row.ending⟩ :: back) := by
  obtain ⟨inFront, inBack, across⟩ := List.pairwise_append.mp areRows.tied.inside
  have isNew_or {other : Row} (member : other ∈ front ++ ⟨line, row.ending⟩ :: back) :
      other = ⟨line, row.ending⟩ ∨ other ∈ front ++ row :: back := by
    simp only [List.mem_append, List.mem_cons] at member ⊢
    tauto
  refine ⟨⟨?_, ?_⟩, ?_, ?_⟩
  · have inBack' := List.pairwise_cons.mp inBack
    refine List.pairwise_append.mpr ⟨inFront, List.pairwise_cons.mpr ⟨inBack'.1, inBack'.2⟩, ?_⟩
    intro other member _ _
    exact across other member row (by simp)
  · intro other member
    rcases isNew_or member with rfl | old
    · exact areRows.tied.ended row (by simp)
    · exact areRows.tied.ended other old
  · intro other member
    rcases isNew_or member with rfl | old
    · exact single.1
    · exact areRows.free other old
  · intro other member short last
    rcases isNew_or member with rfl | old
    · exact single.2 (List.mem_of_getLast? last)
    · exact areRows.whole other old short last

/-- No character of a part of a line is one of a line end. -/
theorem AreRows.notMem_ending {all : List Row} (areRows : AreRows all) {row : Row} (member : row ∈ all)
    {part : Text} (single : part.IsSingleLine) {c : Char} (inside : c ∈ part) : c ∉ row.ending := by
  have fed : c ≠ '\n' := fun same => single.1 (same ▸ inside)
  have returned : c ≠ '\r' := fun same => single.2 (same ▸ inside)
  rcases areRows.tied.ended row member with none | short | long
  · simp [none]
  · simp [short, fed]
  · simp [long, fed, returned]

/-- A part of a line lies within one of the rows. -/
theorem AreRows.exists_row_of_part {all : List Row} (areRows : AreRows all) {before part after : Text}
    (single : part.IsSingleLine) (some_ : part ≠ []) (same : textOf all = before ++ (part ++ after)) :
    ∃ front row back left right, all = front ++ row :: back ∧ row.line = left ++ (part ++ right) ∧
      before = textOf front ++ left ∧ after = right ++ (row.ending ++ textOf back) := by
  induction all generalizing before with
  | nil =>
    rw [textOf_nil, eq_comm, List.append_eq_nil_iff, List.append_eq_nil_iff] at same
    exact absurd same.2.1 some_
  | cons row others ih =>
    obtain ⟨first, more, rfl⟩ := List.exists_cons_of_ne_nil some_
    rw [textOf_cons] at same
    rcases List.append_eq_append_iff.mp same with ⟨gap, rfl, behind⟩ | ⟨rest, inLine, cut⟩
    · -- The part starts behind the line, so it starts behind the line end.
      have further : ∃ gap', gap = row.ending ++ gap' ∧ textOf others = gap' ++ (first :: more ++ after) := by
        rcases List.append_eq_append_iff.mp behind with ⟨gap', rfl, tail⟩ | ⟨half, inEnd, tail⟩
        · exact ⟨gap', rfl, tail⟩
        · cases half with
          | nil => exact ⟨[], by simpa using inEnd.symm, by simpa using tail.symm⟩
          | cons c half =>
            obtain rfl := (List.cons.inj tail).1
            have outside : first ∉ row.ending :=
              areRows.notMem_ending List.mem_cons_self single List.mem_cons_self
            exact absurd (by simp [inEnd]) outside
      obtain ⟨gap', rfl, tail⟩ := further
      obtain ⟨front, found, back, left, right, rfl, inside, rfl, rfl⟩ := ih areRows.tail tail
      exact ⟨row :: front, found, back, left, right, rfl, inside, by simp, rfl⟩
    · -- It starts within the line, so it ends there.
      rcases List.append_eq_append_iff.mp cut with ⟨right, rfl, rfl⟩ | ⟨over_, parts, tail⟩
      · exact ⟨[], row, others, before, right, rfl, inLine, rfl, rfl⟩
      · cases over_ with
        | nil =>
          refine ⟨[], row, others, before, [], rfl, ?_, rfl, ?_⟩
          · simpa [parts] using inLine
          · simpa using tail.symm
        | cons c over_ =>
          have inside : c ∈ first :: more := by simp [parts]
          rcases areRows.ended_or with isEnd | ⟨none, rfl⟩
          · obtain ⟨d, others', ended⟩ := List.exists_cons_of_ne_nil isEnd.ne_nil
            rw [ended] at tail
            obtain rfl := (List.cons.inj tail).1
            have outside : d ∉ row.ending := areRows.notMem_ending List.mem_cons_self single inside
            exact absurd (by simp [ended]) outside
          · simp [none] at tail

/-- A text of rows includes a part of a line exactly if one of its lines does. -/
theorem AreRows.includes_textOf_iff {all : List Row} (areRows : AreRows all) {part : Text}
    (single : part.IsSingleLine) (some_ : part ≠ []) :
    Text.includes part (textOf all) = true ↔ ∃ row ∈ all, Text.includes part row.line = true := by
  simp only [Text.includes_iff]
  constructor
  · rintro ⟨before, after, same⟩
    rw [List.append_assoc] at same
    obtain ⟨front, row, back, left, right, rfl, inLine, -, -⟩ :=
      areRows.exists_row_of_part single some_ same.symm
    exact ⟨row, by simp, left, right, by rw [inLine, List.append_assoc]⟩
  · rintro ⟨row, member, inside⟩
    obtain ⟨front, back, rfl⟩ := List.append_of_mem member
    refine inside.trans ⟨textOf front, row.ending ++ textOf back, by simp⟩

/-- What follows a line within its row is nothing. -/
theorem AreRows.eq_nil_of_endsLine {row : Row} {back : List Row} (areRows : AreRows (row :: back))
    {left right ending after : Text} (ends : EndsLine ending after) (inLine : row.line = left ++ right)
    (same : ending ++ after = right ++ (row.ending ++ textOf back)) : right = [] := by
  have free : '\n' ∉ right := fun fed => areRows.free row List.mem_cons_self (by simp [inLine, fed])
  cases right with
  | nil => rfl
  | cons c right =>
    exfalso
    rcases ends with rfl | rfl | ⟨rfl, rfl⟩
    · obtain rfl := (List.cons.inj same).1
      exact free List.mem_cons_self
    · obtain ⟨rfl, behind⟩ := List.cons.inj same
      cases right with
      | cons d right =>
        obtain rfl := (List.cons.inj behind).1
        exact free (by simp)
      | nil =>
        -- The line feed behind the return is the row's line end, which then takes the return.
        rcases areRows.ended_or with short | ⟨none, rfl⟩
        · rcases short with short | long
          · exact areRows.whole row List.mem_cons_self short (by simp [inLine])
          · simp [long] at behind
        · simp [none] at behind
    · cases same

/-- A part at the start of a line starts one of the rows. -/
theorem AreRows.exists_row_of_start {all : List Row} (areRows : AreRows all) {before part after : Text}
    (single : part.IsSingleLine) (some_ : part ≠ []) (starts : before = [] ∨ before.getLast? = some '\n')
    (same : textOf all = before ++ (part ++ after)) :
    ∃ front row back right, all = front ++ row :: back ∧ row.line = part ++ right ∧ before = textOf front ∧
      after = right ++ (row.ending ++ textOf back) := by
  obtain ⟨front, row, back, left, right, rfl, inLine, rfl, behind⟩ :=
    areRows.exists_row_of_part single some_ same
  have noLeft : left = [] := by
    by_contra nonempty
    rcases starts with none | fed
    · exact nonempty (List.append_eq_nil_iff.mp none).2
    · rw [List.getLast?_append_of_ne_nil _ nonempty] at fed
      exact areRows.free row (by simp) (by simp [inLine, List.mem_of_getLast? fed])
  subst noLeft
  exact ⟨front, row, back, right, rfl, inLine, by simp, behind⟩

/-- A line at the start of a line, with its line end, is one of the rows. -/
theorem AreRows.exists_row_of_line {all : List Row} (areRows : AreRows all)
    {before line ending after : Text} (single : line.IsSingleLine) (some_ : line ≠ [])
    (starts : before = [] ∨ before.getLast? = some '\n') (ends : EndsLine ending after)
    (same : textOf all = before ++ (line ++ (ending ++ after))) :
    ∃ front back, all = front ++ ⟨line, ending⟩ :: back ∧ before = textOf front ∧ after = textOf back := by
  obtain ⟨front, row, back, right, rfl, inLine, rfl, behind⟩ :=
    areRows.exists_row_of_start single some_ starts same
  have areRest : AreRows (row :: back) := areRows.sublist (List.sublist_append_right _ _)
  have noRight : right = [] := areRest.eq_nil_of_endsLine ends inLine behind
  subst noRight
  rw [List.append_nil] at inLine
  rw [List.nil_append] at behind
  have sameEnd : ending = row.ending ∧ after = textOf back := by
    rcases ends with rfl | rfl | ⟨rfl, rfl⟩
    · rcases areRest.ended_or with (short | long) | ⟨none, rfl⟩
      · exact ⟨short.symm, by simpa [short] using behind⟩
      · simp [long] at behind
      · simp [none] at behind
    · rcases areRest.ended_or with (short | long) | ⟨none, rfl⟩
      · simp [short] at behind
      · exact ⟨long.symm, by simpa [long] using behind⟩
      · simp [none] at behind
    · obtain ⟨none, empty⟩ := List.append_eq_nil_iff.mp behind.symm
      exact ⟨none.symm, empty.symm⟩
  refine ⟨front, back, ?_, rfl, sameEnd.2⟩
  rw [← inLine, sameEnd.1]

/-! ## Rows that are dropped -/

/-- Some of the rows that pass a test are dropped, and the others are left. -/
inductive Drops (test : Row → Prop) : (all kept : List Row) → Prop
  | nil : Drops test [] []
  | keep {all kept : List Row} (row : Row) (rest : Drops test all kept) :
      Drops test (row :: all) (row :: kept)
  | drop {all kept : List Row} {row : Row} (passes : test row) (rest : Drops test all kept) :
      Drops test (row :: all) kept

namespace Drops

variable {test : Row → Prop} {all kept fewer : List Row}

theorem refl (test : Row → Prop) (all : List Row) : Drops test all all := by
  induction all with
  | nil => exact .nil
  | cons row all ih => exact ih.keep row

theorem sublist (drops : Drops test all kept) : kept.Sublist all := by
  induction drops with
  | nil => exact List.Sublist.refl []
  | keep row _ ih => exact ih.cons_cons row
  | drop _ _ ih => exact ih.cons _

theorem mono {weaker : Row → Prop} (drops : Drops test all kept)
    (implies : ∀ row ∈ all, test row → weaker row) : Drops weaker all kept := by
  induction drops with
  | nil => exact .nil
  | keep row _ ih => exact (ih fun other member => implies other (by simp [member])).keep row
  | drop passes _ ih =>
    exact (ih fun other member => implies other (by simp [member])).drop (implies _ (by simp) passes)

theorem trans (first : Drops test all kept) (second : Drops test kept fewer) : Drops test all fewer := by
  induction first generalizing fewer with
  | nil => exact second
  | keep row _ ih =>
    cases second with
    | keep _ rest => exact (ih rest).keep row
    | drop passes rest => exact (ih rest).drop passes
  | drop passes _ ih => exact (ih second).drop passes

theorem one {row : Row} (passes : test row) (front back : List Row) :
    Drops test (front ++ row :: back) (front ++ back) := by
  induction front with
  | nil => exact (refl test back).drop passes
  | cons first front ih => exact ih.keep first

/-- A row that is left has the rows that it had around it, less those that were dropped. -/
theorem exists_of_left {before behind : List Row} {row : Row} (drops : Drops test all (before ++ row :: behind)) :
    ∃ front back, all = front ++ row :: back ∧ Drops test front before ∧ Drops test back behind := by
  generalize same : before ++ row :: behind = kept at drops
  induction drops generalizing before with
  | nil => simp at same
  | @keep all kept first rest ih =>
    cases before with
    | nil =>
      obtain ⟨rfl, rfl⟩ := List.cons.inj same
      exact ⟨[], all, rfl, .nil, rest⟩
    | cons other before =>
      obtain ⟨rfl, tail⟩ := List.cons.inj same
      obtain ⟨front, back, rfl, inFront, inBack⟩ := ih tail
      exact ⟨other :: front, back, rfl, inFront.keep other, inBack⟩
  | @drop all kept first passes _ ih =>
    obtain ⟨front, back, rfl, inFront, inBack⟩ := ih same
    exact ⟨first :: front, back, rfl, inFront.drop passes, inBack⟩

/-- The rows that are left are determined if all rows that pass are dropped. -/
theorem unique {others : List Row} (first : Drops test all kept) (second : Drops test all others)
    (noneKept : ∀ row ∈ kept, ¬ test row) (noneOther : ∀ row ∈ others, ¬ test row) : kept = others := by
  induction first generalizing others with
  | nil =>
    cases second
    rfl
  | @keep all kept row _ ih =>
    cases second with
    | keep _ rest =>
      rw [ih rest (fun other member => noneKept other (by simp [member]))
        fun other member => noneOther other (by simp [member])]
    | drop passes _ => exact absurd passes (noneKept row (by simp))
  | @drop all kept row passes _ ih =>
    cases second with
    | keep _ _ => exact absurd passes (noneOther row (by simp))
    | drop _ rest => exact ih rest noneKept noneOther

/-- A row among others is dropped or left, and the others lose rows on both sides of it. -/
theorem around {front back : List Row} {row : Row} (drops : Drops test (front ++ row :: back) kept) :
    ∃ before behind, Drops test front before ∧ Drops test back behind ∧
      (kept = before ++ row :: behind ∨ test row ∧ kept = before ++ behind) := by
  induction front generalizing kept with
  | nil =>
    cases drops with
    | keep _ rest => exact ⟨[], _, .nil, rest, .inl rfl⟩
    | drop passes rest => exact ⟨[], _, .nil, rest, .inr ⟨passes, rfl⟩⟩
  | cons first front ih =>
    cases drops with
    | keep _ rest =>
      obtain ⟨before, behind, inFront, inBack, left⟩ := ih rest
      refine ⟨first :: before, behind, inFront.keep first, inBack, ?_⟩
      rcases left with rfl | ⟨passes, rfl⟩
      · exact .inl rfl
      · exact .inr ⟨passes, rfl⟩
    | drop passes rest =>
      obtain ⟨before, behind, inFront, inBack, left⟩ := ih rest
      exact ⟨before, behind, inFront.drop passes, inBack, left⟩

end Drops

end ReadOnlyViews.Document
