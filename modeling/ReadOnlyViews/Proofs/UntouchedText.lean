import Mathlib.Data.List.Sublists
import ReadOnlyViews.Insertion
import ReadOnlyViews.Proofs.Comments
import ReadOnlyViews.Proofs.Rows

/-!
What an edit leaves alone.  A removal cuts rows out of a text and an insertion puts one block of lines
between two of its rows; all other rows stay character by character, their line ends included.  This
holds of texts whose line ends are all of one kind: in other texts the rows that stay get new ends.
-/

namespace ReadOnlyViews

namespace Document

/-- The line ends of a text are all of one kind. -/
def EvenEnds (text : Text) : Prop :=
  ∀ row ∈ rows text, row.ending = [] ∨ row.ending = newline text

instance (text : Text) : Decidable (EvenEnds text) :=
  inferInstanceAs (Decidable (∀ row ∈ rows text, row.ending = [] ∨ row.ending = newline text))

/-- Rows without the line end behind the last one. -/
def unended : List Row → List Row
  | [] => []
  | [row] => [⟨row.line, []⟩]
  | row :: next :: others => row :: unended (next :: others)

/-- Lines joined with the line end that their rows have are the rows again. -/
theorem join_map_line {ending : Text} {kept : List Row} (tied : Tied kept)
    (even : ∀ row ∈ kept, row.ending = [] ∨ row.ending = ending) :
    Text.join ending (kept.map Row.line) = textOf (unended kept) := by
  induction kept with
  | nil => rfl
  | cons row others ih =>
    cases others with
    | nil => simp [unended, Text.join]
    | cons next others =>
      obtain ⟨isEnd, inside⟩ := List.pairwise_cons.mp tied.inside
      have same : row.ending = ending :=
        (even row (by simp)).resolve_left (isEnd next (by simp)).ne_nil
      have rest := ih (tied.sublist (List.sublist_cons_self _ _))
        fun other member => even other (by simp [member])
      rw [List.map_cons] at rest
      rw [List.map_cons, List.map_cons, Text.join, rest, unended, textOf_cons, same, List.append_assoc]

private theorem unended_rows (text : Text) : unended (rows text) = rows text := by
  induction text using rows_induction with
  | last text cut _ => rw [cut, unended]
  | ahead line ending rest _ cut _ ih =>
    obtain ⟨next, others, cutRest⟩ := List.exists_cons_of_ne_nil (rows_ne_nil rest)
    rw [cutRest] at ih
    rw [cut, cutRest, unended, ih]

/-- A text with one kind of line end is its lines joined with that end, so rendering always joins. -/
theorem EvenEnds.render_eq {text : Text} (even : EvenEnds text) (changed : List Text) :
    render text changed = Text.join (newline text) changed := by
  have whole : Text.join (newline text) (lines text) = text := by
    rw [← map_line_rows, join_map_line (tied_rows text) even, unended_rows, textOf_rows]
  unfold render
  split
  · rename_i same
    rw [same, whole]
  · rfl

/-- Lines in front of others have a line end each. -/
theorem join_append_of_ne_nil (ending : Text) (front : List Text) {back : List Text} (some_ : back ≠ []) :
    Text.join ending (front ++ back) = front.flatMap (· ++ ending) ++ Text.join ending back := by
  induction front with
  | nil => rfl
  | cons line front ih =>
    obtain ⟨next, others, more⟩ := List.exists_cons_of_ne_nil
      (List.append_ne_nil_of_right_ne_nil front some_)
    rw [List.cons_append, more, Text.join, ← more, ih, List.flatMap_cons, List.append_assoc,
      List.append_assoc, List.append_assoc]

private theorem join_cons (ending line : Text) (others : List Text) :
    Text.join ending (line :: others) = line ++ others.flatMap (ending ++ ·) := by
  induction others generalizing line with
  | nil => simp [Text.join]
  | cons next others ih => rw [Text.join, ih, List.flatMap_cons, List.append_assoc, List.append_assoc]

/-- Lines behind others have a line end in front each. -/
theorem join_append_behind (ending : Text) {front : List Text} (some_ : front ≠ []) (back : List Text) :
    Text.join ending (front ++ back) = Text.join ending front ++ back.flatMap (ending ++ ·) := by
  obtain ⟨line, others, rfl⟩ := List.exists_cons_of_ne_nil some_
  rw [List.cons_append, join_cons, join_cons, List.flatMap_append, List.append_assoc]

/-- Some rows of a text are cut out, and these lines are left; the row that is then the last one has
no line end. -/
def CutsTo (text : Text) (left : List Text) (result : Text) : Prop :=
  ∃ kept, kept.Sublist (rows text) ∧ kept.map Row.line = left ∧ result = textOf (unended kept)

/-- A block of lines is put between two rows of a text, or behind the last one. -/
def PutsIn (text : Text) (block : List Text) (result : Text) : Prop :=
  ∃ position ≤ (rows text).length, result = textOf ((rows text).take position) ++
    (if position < (rows text).length then block.flatMap (· ++ newline text)
      else block.flatMap (newline text ++ ·)) ++ textOf ((rows text).drop position)

instance (text : Text) (left : List Text) (result : Text) : Decidable (CutsTo text left result) :=
  decidable_of_iff (∃ kept ∈ (rows text).sublists, kept.map Row.line = left ∧
      result = textOf (unended kept))
    ⟨fun ⟨kept, member, same⟩ => ⟨kept, List.mem_sublists.mp member, same⟩,
      fun ⟨kept, sub, same⟩ => ⟨kept, List.mem_sublists.mpr sub, same⟩⟩

instance (text : Text) (block : List Text) (result : Text) : Decidable (PutsIn text block result) :=
  decidable_of_iff (∃ position < (rows text).length + 1, result =
      textOf ((rows text).take position) ++
      (if position < (rows text).length then block.flatMap (· ++ newline text)
        else block.flatMap (newline text ++ ·)) ++ textOf ((rows text).drop position))
    (exists_congr fun _ => and_congr_left fun _ => Nat.lt_succ_iff)

private theorem EvenEnds.cutsTo {text : Text} (even : EvenEnds text) {left : List Text}
    (sub : left.Sublist (lines text)) : CutsTo text left (render text left) := by
  rw [← map_line_rows] at sub
  obtain ⟨kept, within, rfl⟩ := List.sublist_map_iff.mp sub
  refine ⟨kept, within, rfl, ?_⟩
  rw [even.render_eq]
  exact join_map_line ((tied_rows text).sublist within) fun row member => even row (within.subset member)

private theorem EvenEnds.putsIn {text : Text} (even : EvenEnds text) (block : List Text) {position : Nat}
    (inside : position ≤ (lines text).length) :
    PutsIn text block (render text (insertAt position block (lines text))) := by
  have count : (rows text).length = (lines text).length := by rw [← map_line_rows, List.length_map]
  refine ⟨position, count ▸ inside, ?_⟩
  rw [even.render_eq, insertAt]
  have whole : Text.join (newline text) (lines text) = text := by
    rw [← even.render_eq, render_lines]
  split
  · rename_i before
    -- the rows in front have their line ends, and what follows is joined as it was
    have behind : (lines text).drop position ≠ [] := by simpa [← count] using before
    have front : ((lines text).take position).flatMap (· ++ newline text) =
        textOf ((rows text).take position) := by
      have ended : ∀ row ∈ (rows text).take position, row.ending = newline text := by
        intro row member
        obtain ⟨last, others, rest⟩ := List.exists_cons_of_ne_nil
          (show (rows text).drop position ≠ [] by simpa using before)
        have tied := (tied_rows text).inside
        rw [← List.take_append_drop position (rows text), List.pairwise_append] at tied
        have isEnd := tied.2.2 row member last (by simp [rest])
        exact (even row (List.mem_of_mem_take member)).resolve_left isEnd.ne_nil
      rw [← map_line_rows, ← List.map_take, List.flatMap_map, textOf]
      refine List.flatMap_congr fun row member => ?_
      rw [Row.text, ended row member]
    have back : Text.join (newline text) ((lines text).drop position) =
        textOf ((rows text).drop position) := by
      have joined := join_append_of_ne_nil (newline text) ((lines text).take position) behind
      rw [List.take_append_drop, whole, front] at joined
      have parts := textOf_append ((rows text).take position) ((rows text).drop position)
      rw [List.take_append_drop, textOf_rows] at parts
      exact List.append_cancel_left (joined.symm.trans parts)
    rw [List.append_assoc, join_append_of_ne_nil _ _ (List.append_ne_nil_of_right_ne_nil _ behind),
      join_append_of_ne_nil _ _ behind, front, back, List.append_assoc]
  · rename_i behind
    have all : position = (lines text).length := by omega
    rw [all, List.take_length, List.drop_length, ← count, List.take_length, List.drop_length,
      List.append_nil, join_append_behind _ (lines_ne_nil text), whole, textOf_rows, textOf_nil,
      List.append_nil]

end Document

open Document (CutsTo EvenEnds PutsIn lines render)

private theorem position_le_of_place? {anchor : Anchor} {text : Text} {line position : Nat}
    (placed : anchor.place? text = some (line, position)) : position ≤ (lines text).length := by
  obtain ⟨found, -, placed⟩ := Option.map_eq_some_iff.mp placed
  split at placed
  · cases placed
    exact (Document.lineOf_lt text _).le
  · cases placed
    exact Document.lineOf_lt text _

/-- An insertion that is applied puts its lines in at one place, each behind the same white space. -/
theorem putsIn_insertOnce {text : Text} (even : EvenEnds text) {witness : Witness}
    {insertion : List Text} {anchors : List Anchor} {required : Bool} {edit : Edit}
    (inserted : insertOnce witness insertion anchors required text = .ok edit)
    (applied : edit.outcome = .applied) :
    ∃ indent, (∀ c ∈ indent, isBlank c = true) ∧
      PutsIn text (insertion.map fun new => if new.isEmpty then new else indent ++ new) edit.text := by
  unfold insertOnce at inserted
  split at inserted
  · cases inserted
    cases applied
  · split at inserted
    · rename_i line position placed
      obtain rfl := Except.ok.inj inserted
      obtain ⟨anchor, -, atAnchor⟩ := List.exists_of_findSome?_eq_some placed
      exact ⟨_, fun c => Text.isBlank_of_mem_indentation,
        even.putsIn _ (position_le_of_place? atAnchor)⟩
    · split at inserted
      · cases inserted
      · cases inserted
        cases applied

/-- A fragment that is spliced in at an anchor is put in at one place. -/
theorem putsIn_splice {text : Text} (even : EvenEnds text) {fragment : Fragment} {anchors : List Text}
    (anchored : (anchors.findSome? (Text.offsetOf? · text)).isSome)
    (applied : (splice fragment anchors text).outcome = .applied) :
    PutsIn text (fragment.lines ++ if fragment.blankAfter then [[]] else [])
      (splice fragment anchors text).text := by
  obtain ⟨offset, found⟩ := Option.isSome_iff_exists.mp anchored
  unfold splice at applied ⊢
  split at applied
  · cases applied
  · rename_i absent
    rw [if_neg absent]
    simp only [found]
    exact even.putsIn _ (Document.lineOf_lt text offset).le

/-- Edits leave alone what they do not touch, as long as the text has one kind of line end: a removal
cuts out rows, and an insertion puts in one block of lines at one place.  Everything else stays as it
was, with its own line ends. -/
theorem untouched_text_stays {text : Text} (even : EvenEnds text) :
    (∀ test, CutsTo text (Java.removeFrom test 0 false 0 (lines text)).kept
      (Java.removeMethods test text).text) ∧
    (∀ witness insertion anchors required edit,
      insertOnce witness insertion anchors required text = .ok edit → edit.outcome = .applied →
      ∃ indent, (∀ c ∈ indent, isBlank c = true) ∧
        PutsIn text (insertion.map fun new => if new.isEmpty then new else indent ++ new) edit.text) ∧
    (∀ fragment anchors, (anchors.findSome? (Text.offsetOf? · text)).isSome →
      (splice fragment anchors text).outcome = .applied →
      PutsIn text (fragment.lines ++ if fragment.blankAfter then [[]] else [])
        (splice fragment anchors text).text) := by
  refine ⟨fun test => ?_, fun _ _ _ _ _ inserted applied => putsIn_insertOnce even inserted applied,
    fun _ _ anchored applied => putsIn_splice even anchored applied⟩
  rw [Java.removeMethods_text]
  refine even.cutsTo ?_
  have sub : (Java.removeFrom test 0 false 0 (lines text)).kept.Sublist ((lines text).drop 0) :=
    Java.kept_sublist ..
  exact sub

/-- A source with a method that goes, and a tag to put a fragment before. -/
def smallText : Text := "a\r\n@P void f() \x7b\r\n\x7d\r\n</x>\r\nb".toList

/-- The same source with line ends of both kinds. -/
def unevenText : Text := "a\n@P void f() \x7b\n\x7d\n</x>\r\nb\nc".toList

/-- A fragment of one line. -/
def smallFragment : Fragment := { lines := ["<y/>".toList], witness := .literal "<y/>".toList }

theorem untouched_text_stays_in_smallText :
    EvenEnds smallText ∧
      CutsTo smallText ["a".toList, "</x>".toList, "b".toList]
        (Java.removeMethods (Java.annotatedWith "@P".toList) smallText).text ∧
      (∃ indent, (∀ c ∈ indent, isBlank c = true) ∧
        PutsIn smallText [indent ++ "new".toList] "a\r\n@P void f() \x7b\r\n\x7d\r\n</x>\r\nb\r\nnew".toList) ∧
      PutsIn smallText ["<y/>".toList] (splice smallFragment ["</x>".toList] smallText).text := by
  have even : EvenEnds smallText := by decide +kernel
  obtain ⟨cuts, inserts, puts⟩ := untouched_text_stays even
  have inserted : insertOnce (.literal "new".toList) ["new".toList]
      [Anchor.ofLiteral .lineStart "b".toList true .after] false smallText =
      .ok { outcome := .applied, text := "a\r\n@P void f() \x7b\r\n\x7d\r\n</x>\r\nb\r\nnew".toList } := by
    decide +kernel
  refine ⟨even, ?_, inserts _ _ _ _ _ inserted rfl,
    puts smallFragment ["</x>".toList] (by decide +kernel) (by decide +kernel)⟩
  have left : (Java.removeFrom (Java.annotatedWith "@P".toList) 0 false 0 (lines smallText)).kept =
      ["a".toList, "</x>".toList, "b".toList] := by decide +kernel
  exact left ▸ cuts (Java.annotatedWith "@P".toList)

/-- With line ends of both kinds an edit gives the long one to lines that it does not touch: the
removal to the line `b`, and the splice also to the lines of the method. -/
theorem short_ends_lengthened :
    (Java.removeMethods (Java.annotatedWith "@P".toList) unevenText).outcome = .applied ∧
      (Java.removeMethods (Java.annotatedWith "@P".toList) unevenText).text =
        "a\r\n</x>\r\nb\r\nc".toList ∧
      (∀ left, ¬ CutsTo unevenText left
        (Java.removeMethods (Java.annotatedWith "@P".toList) unevenText).text) ∧
      (splice smallFragment ["</x>".toList] unevenText).outcome = .applied ∧
      ¬ PutsIn unevenText ["<y/>".toList] (splice smallFragment ["</x>".toList] unevenText).text := by
  refine ⟨by decide +kernel, by decide +kernel, ?_, by decide +kernel, by decide +kernel⟩
  rintro left ⟨kept, sub, -, same⟩
  have none : ∀ kept ∈ (Document.rows unevenText).sublists,
      (Java.removeMethods (Java.annotatedWith "@P".toList) unevenText).text ≠
        Document.textOf (Document.unended kept) := by decide +kernel
  exact none kept (List.mem_sublists.mpr sub) same

end ReadOnlyViews
