import Mathlib.Data.List.Basic
import ReadOnlyViews.Document

/-! Lines and the texts they are joined to.  A text is cut at its line ends and joined again with
one kind of line end; the statements here say when the cut gives back the lines that were joined,
which is what carries a fact about lines from one edit of a text to the next. -/
namespace ReadOnlyViews.Document

/-! ## Cutting -/

theorem lines_cons_plain {c : Char} {rest : Text} (plain : c ≠ '\n')
    (unended : c = '\r' → rest.head? ≠ some '\n') :
    lines (c :: rest) = (lines rest).modifyHead (c :: ·) := by
  obtain ⟨line, others, cut⟩ := List.exists_cons_of_ne_nil (lines_ne_nil rest)
  rw [lines.eq_4]
  · simp [cut]
  · rintro next rfl rfl
    exact unended rfl rfl
  · rintro rfl
    exact plain rfl

/-- No line holds a line feed. -/
theorem lineFeed_notMem_of_mem_lines {text line : Text} (member : line ∈ lines text) :
    '\n' ∉ line := by
  fun_induction lines text generalizing line with
  | case1 => simp_all
  | case2 rest ih | case3 rest ih =>
    obtain rfl | later := List.mem_cons.mp member
    · simp
    · exact ih later
  | case4 c rest _ plain cut ih => exact absurd cut (lines_ne_nil rest)
  | case5 c rest _ plain first others cut ih =>
    obtain rfl | later := List.mem_cons.mp member
    · have tail : '\n' ∉ first := ih (by simp [cut])
      simpa [tail, eq_comm] using plain
    · exact ih (by simp [cut, later])

/-- The two kinds of line end. -/
def IsLineEnd (ending : Text) : Prop := ending = ['\n'] ∨ ending = ['\r', '\n']

theorem IsLineEnd.getLast? {ending : Text} (isEnd : IsLineEnd ending) :
    ending.getLast? = some '\n' := by
  rcases isEnd with rfl | rfl <;> rfl

/-- A line end cuts a text in two; a short one must not stand behind the other half of a long one. -/
theorem lines_append_lineEnd {front ending : Text} (isEnd : IsLineEnd ending)
    (unended : ending = ['\n'] → front.getLast? ≠ some '\r') (rest : Text) :
    lines (front ++ ending ++ rest) = lines front ++ lines rest := by
  have behind {c : Char} {front : Text}
      (unended : ending = ['\n'] → (c :: front).getLast? ≠ some '\r') (short : ending = ['\n']) :
      front.getLast? ≠ some '\r' := by
    cases front with
    | nil => simp
    | cons d front => simpa using unended short
  fun_induction lines front with
  | case1 => rcases isEnd with rfl | rfl <;> simp [lines]
  | case2 front ih =>
    have whole := ih (behind (behind unended))
    rw [List.append_assoc] at whole ⊢
    exact congrArg ([] :: ·) whole
  | case3 front ih =>
    have whole := ih (behind unended)
    rw [List.append_assoc] at whole ⊢
    exact congrArg ([] :: ·) whole
  | case4 c front _ plain none => exact absurd none (lines_ne_nil front)
  | case5 c front unreturned plain line others cut ih =>
    rw [List.cons_append, List.cons_append, lines_cons_plain plain, ih (behind unended), cut]
    · rfl
    · rintro rfl next
      cases front with
      | nil =>
        rcases isEnd with rfl | rfl
        · exact unended rfl rfl
        · cases next
      | cons d front =>
        obtain rfl : d = '\n' := by simpa using next
        exact unreturned front rfl rfl

theorem lines_eq_singleton {text : Text} (free : '\n' ∉ text) : lines text = [text] := by
  induction text with
  | nil => rfl
  | cons c text ih =>
    simp only [List.mem_cons, not_or] at free
    rw [lines_cons_plain (Ne.symm free.1), ih free.2]
    · rfl
    · exact fun _ next => free.2 (List.mem_of_mem_head? next)

theorem flatMap_lines {all : List Text} (free : ∀ line ∈ all, '\n' ∉ line) : all.flatMap lines = all := by
  have each : ∀ line ∈ all, lines line = [line] := fun line member =>
    lines_eq_singleton (free line member)
  rw [List.flatMap_congr each, List.flatMap_singleton']

/-- A line and a long line end, whatever the line ends with. -/
theorem lines_append_crlf {line : Text} (free : '\n' ∉ line) (rest : Text) :
    lines (line ++ '\r' :: '\n' :: rest) = line :: lines rest := by
  have cut := @lines_append_lineEnd line _ (.inr rfl) (fun short => by cases short) rest
  rwa [lines_eq_singleton free, List.append_assoc] at cut

/-- A line and a short line end; the line must not end with the other half of a long one. -/
theorem lines_append_lf {line : Text} (free : '\n' ∉ line) (open_ : line.getLast? ≠ some '\r')
    (rest : Text) : lines (line ++ '\n' :: rest) = line :: lines rest := by
  have cut := lines_append_lineEnd (.inl rfl) (fun _ => open_) rest
  rwa [lines_eq_singleton free, List.append_assoc] at cut

/-- A text that ends with a line feed, or is empty, is cut apart from what follows it. -/
theorem lines_append_of_ended {front : Text} (ended : front = [] ∨ front.getLast? = some '\n')
    (rest : Text) : lines (front ++ rest) = (lines front).dropLast ++ lines rest := by
  fun_induction lines front with
  | case1 => rfl
  | case2 front ih =>
    have endedTail : front = [] ∨ front.getLast? = some '\n' := by
      cases front with
      | nil => exact .inl rfl
      | cons c front => exact .inr (by simpa using ended)
    simp [lines, ih endedTail, List.dropLast_cons_of_ne_nil (lines_ne_nil front)]
  | case3 front ih =>
    have endedTail : front = [] ∨ front.getLast? = some '\n' := by
      cases front with
      | nil => exact .inl rfl
      | cons c front => exact .inr (by simpa using ended)
    simp [lines, ih endedTail, List.dropLast_cons_of_ne_nil (lines_ne_nil front)]
  | case4 c front _ plain cut ih => exact absurd cut (lines_ne_nil front)
  | case5 c front unended plain line others cut ih =>
    cases front with
    | nil => simp_all
    | cons d front =>
      have endedTail : (d :: front).getLast? = some '\n' := by simpa using ended
      have several : others ≠ [] := by
        rintro rfl
        have count := length_lines (d :: front)
        have feed : '\n' ∈ d :: front := List.mem_of_getLast? endedTail
        simp only [cut, List.length_singleton, Text.lineFeeds] at count
        have := List.count_pos_iff.mpr feed
        omega
      rw [List.cons_append, lines_cons_plain plain ?_, ih (.inr endedTail), cut,
        List.dropLast_cons_of_ne_nil several, List.dropLast_cons_of_ne_nil several]
      · rfl
      · rintro rfl next
        obtain rfl : d = '\n' := by simpa using next
        exact unended front rfl rfl

/-- Every offset is on one of the lines. -/
theorem lineOf_lt (text : Text) (offset : Nat) : lineOf text offset < (lines text).length := by
  rw [length_lines]
  exact Nat.lt_succ_of_le ((List.take_sublist offset text).count_le '\n')

/-! ## Joining -/

/-- Lines of a text that may be joined with its line end and cut again: none holds a line feed, and
with short line ends only the last one may end with a carriage return. -/
structure Separable (text : Text) (changed : List Text) : Prop where
  free : ∀ line ∈ changed, '\n' ∉ line
  unended : newline text = "\n".toList → ∀ line ∈ changed.dropLast, line.getLast? ≠ some '\r'

theorem newline_eq_or (text : Text) : newline text = "\r\n".toList ∨ newline text = "\n".toList := by
  unfold newline
  split
  · exact .inl rfl
  · exact .inr rfl

theorem isLineEnd_newline (text : Text) : IsLineEnd (newline text) :=
  (newline_eq_or text).symm

/-- A first line that is empty, with more to come, is a line end at the very start. -/
private theorem exists_of_lines_eq_nil_cons {text second : Text} {others : List Text}
    (cut : lines text = [] :: second :: others) :
    ∃ tail, text = '\n' :: tail ∨ text = '\r' :: '\n' :: tail := by
  revert cut
  fun_cases lines text with
  | case1 => simp
  | case2 rest => exact fun _ => ⟨rest, .inr rfl⟩
  | case3 rest => exact fun _ => ⟨rest, .inl rfl⟩
  | case4 c rest => simp
  | case5 c rest => simp

private theorem getLast?_ne_of_mem_dropLast_lines {text line : Text}
    (short : Text.includes "\r\n".toList text = false) (member : line ∈ (lines text).dropLast) :
    line.getLast? ≠ some '\r' := by
  fun_induction lines text generalizing line with
  | case1 => simp at member
  | case2 rest ih => simp [Text.includes] at short
  | case3 rest ih =>
    have shortTail : Text.includes "\r\n".toList rest = false := by
      simp only [Text.includes, Bool.or_eq_false_iff] at short
      exact short.2
    rw [List.dropLast_cons_of_ne_nil (lines_ne_nil rest)] at member
    obtain rfl | later := List.mem_cons.mp member
    · simp
    · exact ih shortTail later
  | case4 c rest _ plain cut ih => exact absurd cut (lines_ne_nil rest)
  | case5 c rest unended plain first others cut ih =>
    have shortTail : Text.includes "\r\n".toList rest = false := by
      simp only [Text.includes, Bool.or_eq_false_iff] at short
      exact short.2
    cases others with
    | nil => simp at member
    | cons second others =>
      rw [cut, List.dropLast_cons_of_ne_nil (by simp)] at ih
      rw [List.dropLast_cons_of_ne_nil (by simp)] at member
      obtain rfl | later := List.mem_cons.mp member
      · -- A first line that is empty here would have put the line feed right behind `c`.
        have firstOpen : first.getLast? ≠ some '\r' := ih shortTail (by simp)
        cases first with
        | cons d first => simpa using firstOpen
        | nil =>
          intro same
          obtain rfl : c = '\r' := by simpa using same
          obtain ⟨tail, rfl | rfl⟩ := exists_of_lines_eq_nil_cons cut
          · exact unended tail rfl rfl
          · simp [Text.includes] at shortTail
      · exact ih shortTail (List.mem_cons_of_mem _ later)

/-- The lines of a text are separable. -/
theorem separable_lines (text : Text) : Separable text (lines text) where
  free _ := lineFeed_notMem_of_mem_lines
  unended short line member := by
    refine getLast?_ne_of_mem_dropLast_lines ?_ member
    unfold newline at short
    split at short
    · simp at short
    · next absent => simpa using absent

private theorem dropLast_sublist_dropLast {kept all : List Text} (sub : kept.Sublist all) :
    kept.dropLast.Sublist all.dropLast := by
  have front : kept.reverse.tail.Sublist all.reverse.tail := sub.reverse.tail
  simpa [List.tail_reverse] using front.reverse

theorem Separable.of_sublist {text : Text} {changed kept : List Text}
    (separable : Separable text changed) (sub : kept.Sublist changed) : Separable text kept where
  free line member := separable.free line (sub.subset member)
  unended short line member :=
    separable.unended short line ((dropLast_sublist_dropLast sub).subset member)

theorem join_append {ending : Text} {front back : List Text} (someFront : front ≠ [])
    (someBack : back ≠ []) :
    Text.join ending (front ++ back) = Text.join ending front ++ ending ++ Text.join ending back := by
  induction front with
  | nil => contradiction
  | cons part others ih =>
    cases others with
    | nil =>
      obtain ⟨next, more, rfl⟩ := List.exists_cons_of_ne_nil someBack
      rfl
    | cons next others =>
      have tail := ih (by simp)
      rw [List.cons_append] at tail
      rw [List.cons_append, List.cons_append, Text.join, tail, Text.join]
      simp only [List.append_assoc]

/-- Joined texts are cut into the lines of each; with short line ends only the last one may end with
a carriage return. -/
theorem lines_join {ending : Text} (isEnd : IsLineEnd ending) {parts : List Text} (some_ : parts ≠ [])
    (unended : ending = ['\n'] → ∀ part ∈ parts.dropLast, part.getLast? ≠ some '\r') :
    lines (Text.join ending parts) = parts.flatMap lines := by
  induction parts with
  | nil => contradiction
  | cons part others ih =>
    cases others with
    | nil => simp [Text.join]
    | cons next others =>
      have tail := ih (by simp) fun short part member => unended short part (by simp [member])
      rw [Text.join, lines_append_lineEnd isEnd fun short => unended short part (by simp), tail]
      rfl

/-- Joined lines are cut into themselves again. -/
theorem Separable.lines_join {text : Text} {changed : List Text} (separable : Separable text changed)
    (some_ : changed ≠ []) : lines (Text.join (newline text) changed) = changed := by
  rw [Document.lines_join (isLineEnd_newline text) some_ separable.unended,
    flatMap_lines separable.free]

/-- Rendered lines are the lines of the text that is rendered. -/
theorem Separable.lines_render {text : Text} {changed : List Text}
    (separable : Separable text changed) (some_ : changed ≠ []) :
    lines (render text changed) = changed := by
  unfold render
  split
  · next same => exact same.symm
  · exact separable.lines_join some_

/-- Texts that are put in before a line bring in their lines; none may end with a carriage return. -/
theorem lines_render_insertAt_of_lt {text : Text} {block : List Text} {position : Nat}
    (inside : position < (lines text).length) (unended : ∀ part ∈ block, part.getLast? ≠ some '\r') :
    lines (render text (insertAt position block (lines text))) =
      insertAt position (block.flatMap lines) (lines text) := by
  have separable := separable_lines text
  have rest : (lines text).drop position ≠ [] := by simpa using inside
  have single {part : List Text} (within : part ⊆ lines text) : part.flatMap lines = part :=
    flatMap_lines fun line member => separable.free line (within member)
  unfold render
  split
  · rename_i same
    obtain rfl : block = [] := by
      have long := congrArg List.length same
      rw [insertAt, List.length_append, List.length_append, List.length_take, List.length_drop] at long
      exact List.eq_nil_of_length_eq_zero (by omega)
    simp [insertAt]
  · rw [lines_join (isLineEnd_newline text) (by simp [insertAt, rest])]
    · rw [insertAt, insertAt, List.flatMap_append, List.flatMap_append,
        single (List.take_subset _ _), single (List.drop_subset _ _)]
    · intro short line member
      have original (still : line ∈ (lines text).dropLast) := separable.unended short line still
      rw [insertAt, List.dropLast_append_of_ne_nil rest, List.mem_append, List.mem_append] at member
      obtain (front | new) | back := member
      · refine original ?_
        rw [List.dropLast_eq_take]
        exact (List.take_subset_take_left _ (by omega)) front
      · exact unended line new
      · refine original ?_
        rw [← List.take_append_drop position (lines text), List.dropLast_append_of_ne_nil rest]
        exact List.mem_append_right _ back

/-- Without any line left, the rendered text is empty and has one empty line. -/
theorem lines_render_nil (text : Text) : lines (render text []) = [[]] := by
  rw [render, if_neg (Ne.symm (lines_ne_nil text))]
  rfl

end ReadOnlyViews.Document
