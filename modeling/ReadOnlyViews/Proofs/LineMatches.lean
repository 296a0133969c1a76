import ReadOnlyViews.Proofs.Lines
import ReadOnlyViews.Proofs.Patterns
import ReadOnlyViews.Proofs.Texts
import ReadOnlyViews.ReadOnly.Anchors

/-! Matches that stay within a line.  A text that is rendered anew with more lines keeps the lines
that it had, so what is found by looking at single lines is found again, and what is found anew is on
one of the new lines. -/
namespace ReadOnlyViews

namespace Document

/-! ## Lines and the stretches of a text -/

/-- A front without line ends lengthens the first line of what follows. -/
theorem lines_append_plain {front : Text} (free : '\n' ∉ front) (unreturned : '\r' ∉ front)
    (rest : Text) : lines (front ++ rest) = (lines rest).modifyHead (front ++ ·) := by
  induction front with
  | nil =>
    rw [List.nil_append]
    cases lines rest <;> rfl
  | cons c front ih =>
    simp only [List.mem_cons, not_or] at free unreturned
    rw [List.cons_append, lines_cons_plain (Ne.symm free.1) (fun same => absurd same.symm unreturned.1),
      ih free.2 unreturned.2, List.modifyHead_modifyHead]
    rfl

theorem exists_first_line {front : Text} (free : '\n' ∉ front) (unreturned : '\r' ∉ front)
    (rest : Text) : ∃ tail others, lines (front ++ rest) = (front ++ tail) :: others ∧
      lines rest = tail :: others := by
  obtain ⟨tail, others, cut⟩ := List.exists_cons_of_ne_nil (lines_ne_nil rest)
  exact ⟨tail, others, by rw [lines_append_plain free unreturned, cut]; rfl, cut⟩

/-- The lines of the rest of a text are lines of the text, only that the first may go on to the left. -/
theorem exists_lines_append (front rest : Text) : ∃ before more first others,
    lines rest = first :: others ∧ lines (front ++ rest) = before ++ (more ++ first) :: others := by
  induction front with
  | nil =>
    obtain ⟨first, others, cut⟩ := List.exists_cons_of_ne_nil (lines_ne_nil rest)
    exact ⟨[], [], first, others, cut, cut⟩
  | cons c front ih =>
    obtain ⟨before, more, first, others, cut, all⟩ := ih
    refine Exists.imp ?_ (show ∃ before more, lines (c :: front ++ rest) =
      before ++ (more ++ first) :: others from ?_)
    · rintro before ⟨more, whole⟩
      exact ⟨more, first, others, cut, whole⟩
    by_cases fed : c = '\n'
    · exact ⟨[] :: before, more, by simp [fed, lines, all]⟩
    by_cases ended : c = '\r' ∧ (front ++ rest).head? = some '\n'
    · -- the first half of a long line end adds nothing
      obtain ⟨tail, next⟩ := List.head?_eq_some_iff.mp ended.2
      refine ⟨before, more, ?_⟩
      rw [← all, List.cons_append, next, ended.1, lines, lines]
    · rw [List.cons_append, lines_cons_plain fed (fun same next => ended ⟨same, next⟩), all]
      cases before with
      | nil => exact ⟨[], c :: more, rfl⟩
      | cons line before => exact ⟨(c :: line) :: before, more, rfl⟩

/-- A stretch without line ends lies within a line. -/
theorem exists_line_of_infix {part text : Text} (free : '\n' ∉ part) (unreturned : '\r' ∉ part)
    (inside : part <:+: text) : ∃ line ∈ lines text, part <:+: line := by
  obtain ⟨front, rest, rfl⟩ := inside
  obtain ⟨tail, behind, starts, -⟩ := exists_first_line free unreturned rest
  obtain ⟨before, more, first, others, cut, all⟩ := exists_lines_append front (part ++ rest)
  obtain ⟨rfl, rfl⟩ := List.cons.inj (cut.symm.trans starts)
  rw [List.append_assoc, all]
  exact ⟨more ++ (part ++ tail), by simp, more, tail, by simp⟩

/-! ## Rows: lines with what stands around them -/

/-- How a line ends: with a line end, or with the text. -/
def EndsLine (ending after : Text) : Prop :=
  ending = ['\n'] ∨ ending = ['\r', '\n'] ∨ ending = [] ∧ after = []

/-- The first line of a text is all of it, or is followed by a line end and the other lines. -/
theorem exists_rest_of_lines {text first : Text} {others : List Text}
    (cut : lines text = first :: others) :
    text = first ∧ others = [] ∨
      ∃ ending rest, IsLineEnd ending ∧ text = first ++ (ending ++ rest) ∧ lines rest = others := by
  fun_induction lines text generalizing first with
  | case1 =>
    obtain ⟨rfl, rfl⟩ := List.cons.inj cut
    exact .inl ⟨rfl, rfl⟩
  | case2 rest =>
    obtain ⟨rfl, rfl⟩ := List.cons.inj cut
    exact .inr ⟨_, rest, .inr rfl, rfl, rfl⟩
  | case3 rest =>
    obtain ⟨rfl, rfl⟩ := List.cons.inj cut
    exact .inr ⟨_, rest, .inl rfl, rfl, rfl⟩
  | case4 c rest _ plain none ih => exact absurd none (lines_ne_nil rest)
  | case5 c rest _ plain line others whole ih =>
    obtain ⟨rfl, rfl⟩ := List.cons.inj cut
    obtain ⟨rfl, rfl⟩ | ⟨ending, tail, isEnd, rfl, same⟩ := ih whole
    · exact .inl ⟨rfl, rfl⟩
    · exact .inr ⟨ending, tail, isEnd, rfl, same⟩

/-- A line stands in a text between line ends. -/
def IsRow (line text : Text) : Prop :=
  ∃ front rest, text = front ++ line ++ rest ∧ (front = [] ∨ front.getLast? = some '\n') ∧
    (rest = [] ∨ ∃ ending tail, IsLineEnd ending ∧ rest = ending ++ tail)

theorem IsRow.within {line text : Text} (row : IsRow line text) : line <:+: text := by
  obtain ⟨front, rest, rfl, -⟩ := row
  exact ⟨front, rest, rfl⟩

theorem IsRow.behind {line text front : Text} (row : IsRow line text)
    (ended : front.getLast? = some '\n') : IsRow line (front ++ text) := by
  obtain ⟨before, rest, rfl, starts, ends⟩ := row
  refine ⟨front ++ before, rest, by simp, .inr ?_, ends⟩
  rcases starts with rfl | starts
  · simpa using ended
  · have some_ : before ≠ [] := by
      rintro rfl
      cases starts
    rw [List.getLast?_append_of_ne_nil _ some_, starts]

theorem isRow_of_mem_lines {line text : Text} (member : line ∈ lines text) : IsRow line text := by
  generalize cut : lines text = all at member
  induction all generalizing text with
  | nil => cases member
  | cons first others ih =>
    rcases exists_rest_of_lines cut with ⟨rfl, rfl⟩ | ⟨ending, rest, isEnd, rfl, behind⟩
    · obtain rfl := List.mem_singleton.mp member
      exact ⟨[], [], by simp, .inl rfl, .inl rfl⟩
    · rcases List.mem_cons.mp member with rfl | later
      · exact ⟨[], ending ++ rest, rfl, .inl rfl, .inr ⟨ending, rest, isEnd, rfl⟩⟩
      · have some_ : ending ≠ [] := by rcases isEnd with rfl | rfl <;> simp
        rw [← List.append_assoc]
        refine (ih behind later).behind ?_
        rw [List.getLast?_append_of_ne_nil _ some_, isEnd.getLast?]

theorem isRow_of_mem_join {line ending : Text} {changed : List Text} (isEnd : IsLineEnd ending)
    (member : line ∈ changed) : IsRow line (Text.join ending changed) := by
  induction changed with
  | nil => cases member
  | cons first others ih =>
    cases others with
    | nil =>
      obtain rfl := List.mem_singleton.mp member
      exact ⟨[], [], by simp [Text.join], .inl rfl, .inl rfl⟩
    | cons next others =>
      rw [Text.join]
      rcases List.mem_cons.mp member with rfl | later
      · exact ⟨[], _, by rw [List.append_assoc]; rfl, .inl rfl, .inr ⟨ending, _, isEnd, rfl⟩⟩
      · have some_ : ending ≠ [] := by rcases isEnd with rfl | rfl <;> simp
        refine (ih later).behind ?_
        rw [List.getLast?_append_of_ne_nil _ some_, isEnd.getLast?]

/-- The lines that a text is rendered from are rows of it. -/
theorem isRow_of_mem_render {line text : Text} {changed : List Text} (member : line ∈ changed) :
    IsRow line (render text changed) := by
  rw [render]
  split
  · next same => exact isRow_of_mem_lines (same ▸ member)
  · exact isRow_of_mem_join (isLineEnd_newline text) member

/-- A character that starts no line lengthens the last one. -/
theorem exists_lines_concat {c : Char} (plain : c ≠ '\n') (front : Text) :
    ∃ before last, lines front = before ++ [last] ∧ lines (front ++ [c]) = before ++ [last ++ [c]] := by
  fun_induction lines front with
  | case1 => exact ⟨[], [], rfl, lines_eq_singleton (by simpa using Ne.symm plain)⟩
  | case2 front ih | case3 front ih =>
    obtain ⟨before, last, cut, longer⟩ := ih
    exact ⟨[] :: before, last, congrArg ([] :: ·) cut, congrArg ([] :: ·) longer⟩
  | case4 d front _ plainFirst none => exact absurd none (lines_ne_nil front)
  | case5 d front unreturned plainFirst line others cut ih =>
    obtain ⟨before, last, same, longer⟩ := ih
    have unended : d = '\r' → (front ++ [c]).head? ≠ some '\n' := by
      rintro rfl
      cases front with
      | nil => simpa using plain
      | cons e front =>
        intro next
        obtain rfl : e = '\n' := by simpa using next
        exact unreturned front rfl rfl
    rw [List.cons_append, lines_cons_plain plainFirst unended, longer]
    cases before with
    | nil =>
      obtain ⟨rfl, rfl⟩ := List.cons.inj (cut.symm.trans same)
      exact ⟨[], d :: line, rfl, rfl⟩
    | cons first before =>
      obtain ⟨rfl, rfl⟩ := List.cons.inj (cut.symm.trans same)
      exact ⟨(d :: line) :: before, last, rfl, rfl⟩

/-- What is left of lines when a line end comes behind them: a short line end makes a carriage return
before it its own. -/
inductive Ended : List Text → List Text → Prop where
  | same (all : List Text) : Ended all all
  | returned (front : List Text) (last : Text) : Ended (front ++ [last ++ ['\r']]) (front ++ [last])

theorem exists_lines_append_lineEnd (front : Text) {ending : Text} (isEnd : IsLineEnd ending)
    (rest : Text) :
    ∃ shown, lines (front ++ ending ++ rest) = shown ++ lines rest ∧ Ended (lines front) shown := by
  by_cases returned : ending = ['\n'] ∧ front.getLast? = some '\r'
  · obtain ⟨rfl, last⟩ := returned
    obtain ⟨front, rfl⟩ := List.getLast?_eq_some_iff.mp last
    have cut := @lines_append_lineEnd front _ (.inr rfl) (fun short => by cases short) rest
    obtain ⟨before, last, same, longer⟩ := exists_lines_concat (by decide : '\r' ≠ '\n') front
    refine ⟨lines front, ?_, by rw [same, longer]; exact .returned before last⟩
    rw [← cut, List.append_assoc front]
    rfl
  · exact ⟨_, lines_append_lineEnd isEnd (fun short last => returned ⟨short, last⟩) rest, .same _⟩

/-- A line of a rendered text is one of the lines that it is rendered from, or such a line without a
carriage return at its end. -/
theorem exists_mem_of_mem_lines_render {line text : Text} {changed : List Text}
    (free : ∀ line ∈ changed, '\n' ∉ line) (some_ : changed ≠ [])
    (member : line ∈ lines (render text changed)) :
    ∃ given ∈ changed, given = line ∨ given = line ++ ['\r'] := by
  rw [render] at member
  split at member
  · next same => exact ⟨line, same ▸ member, .inl rfl⟩
  next changes =>
  clear changes
  have isEnd := isLineEnd_newline text
  generalize newline text = ending at isEnd member
  induction changed with
  | nil => contradiction
  | cons first others ih =>
    have freeFirst : '\n' ∉ first := free first (by simp)
    cases others with
    | nil =>
      rw [Text.join, lines_eq_singleton freeFirst] at member
      exact ⟨first, by simp, .inl (List.mem_singleton.mp member).symm⟩
    | cons next others =>
      obtain ⟨shown, cut, given⟩ := exists_lines_append_lineEnd first isEnd
        (Text.join ending (next :: others))
      rw [Text.join, cut] at member
      rw [lines_eq_singleton freeFirst] at given
      rcases List.mem_append.mp member with here | later
      · generalize same : [first] = firsts at given
        cases given with
        | same =>
          rw [← same, List.mem_singleton] at here
          exact ⟨first, by simp, .inl here.symm⟩
        | returned before last =>
          obtain ⟨rfl, shown⟩ := List.append_eq_singleton_iff.mp same.symm |>.resolve_right (by simp)
          rw [List.nil_append, List.mem_singleton] at here
          exact ⟨first, by simp, .inr (by rw [here]; simpa using shown.symm)⟩
      · obtain ⟨given, inside, shown⟩ := ih (fun line later => free line (by simp [later])) (by simp) later
        exact ⟨given, by simp [inside], shown⟩

end Document

namespace ReadOnly

open Document (lines IsRow)

/-! ## Patterns that look at single lines -/

/-- Whether a place is at the start of a line, from the text before it. -/
theorem spans_lineStart_iff {front mid rest : Text} :
    Pattern.lineStart.Spans front.reverse mid rest ↔
      mid = [] ∧ (front = [] ∨ front.getLast? = some '\n') := by
  rw [Pattern.spans_lineStart, List.head?_reverse, List.reverse_eq_nil_iff]

theorem occursIn_start_of_isRow {part tail text : Text} (row : IsRow (part ++ tail) text) :
    (.lineStart ++ .exactly part : Pattern).occursIn text = true := by
  obtain ⟨front, rest, rfl, ended, -⟩ := row
  refine Pattern.occursIn_iff.mpr ⟨front, part, tail ++ rest, by simp, ?_⟩
  refine Pattern.spans_append.mpr ⟨[], part, rfl, ?_, Pattern.spans_exactly.mpr rfl⟩
  exact spans_lineStart_iff.mpr ⟨rfl, ended⟩

/-- A part at the start of a line. -/
theorem occursIn_start_iff {part text : Text} (free : '\n' ∉ part) (unreturned : '\r' ∉ part) :
    (.lineStart ++ .exactly part : Pattern).occursIn text = true ↔
      ∃ line ∈ lines text, part <+: line := by
  constructor
  · intro occurs
    obtain ⟨front, mid, rest, rfl, spans⟩ := Pattern.occursIn_iff.mp occurs
    obtain ⟨_, _, rfl, starts, exact_⟩ := Pattern.spans_append.mp spans
    obtain ⟨rfl, ended⟩ := spans_lineStart_iff.mp starts
    obtain rfl := Pattern.spans_exactly.mp exact_
    obtain ⟨tail, others, cut, -⟩ := Document.exists_first_line free unreturned rest
    refine ⟨_ ++ tail, ?_, List.prefix_append _ _⟩
    rw [List.nil_append, List.append_assoc, Document.lines_append_of_ended ended, cut]
    simp
  · rintro ⟨line, member, tail, rfl⟩
    exact occursIn_start_of_isRow (Document.isRow_of_mem_lines member)

/-- A line that starts, blanks and tabs aside, with a word. -/
def Headed (word line : Text) : Prop :=
  ∃ indent rest, (∀ c ∈ indent, isBlankOrTab c = true) ∧ line = indent ++ word ++ rest ∧
    rest.head?.any isWord = false

theorem Headed.append_return {word line : Text} (headed : Headed word line) :
    Headed word (line ++ ['\r']) := by
  obtain ⟨indent, rest, blank, rfl, edge⟩ := headed
  refine ⟨indent, rest ++ ['\r'], blank, by simp, ?_⟩
  cases rest with
  | nil => decide
  | cons c rest => exact edge

/-- Behind a word, a border is where no word character follows. -/
theorem atWordEdge_behind {word before rest : Text} {last : Char} (ends : word.getLast? = some last)
    (isLast : isWord last = true) :
    (⟨word.reverse ++ before, rest⟩ : Cursor).atWordEdge = true ↔ rest.head?.any isWord = false := by
  have head : (word.reverse ++ before).head? = some last := by
    rw [List.head?_append, List.head?_reverse, ends]
    rfl
  simp only [Cursor.atWordEdge, head, Option.any_some, isLast]
  cases rest.head?.any isWord <;> simp

theorem occursIn_headed_of_isRow {word line text : Text} {last : Char}
    (ends : word.getLast? = some last) (isLast : isWord last = true) (headed : Headed word line)
    (row : IsRow line text) :
    (lineIndent ++ .exactly word ++ .wordEdge).occursIn text = true := by
  obtain ⟨indent, tail, blank, rfl, edge⟩ := headed
  obtain ⟨front, rest, rfl, ended, behind⟩ := row
  refine Pattern.occursIn_iff.mpr ⟨front, indent ++ word, tail ++ rest, by simp, ?_⟩
  refine Pattern.spans_append.mpr ⟨indent ++ word, [], by simp, ?_, ?_⟩
  · refine Pattern.spans_append.mpr ⟨indent, word, rfl, ?_, Pattern.spans_exactly.mpr rfl⟩
    refine Pattern.spans_append.mpr ⟨[], indent, rfl, ?_, Pattern.spans_run.mpr blank⟩
    exact spans_lineStart_iff.mpr ⟨rfl, ended⟩
  · refine Pattern.spans_wordEdge.mpr ⟨rfl, ?_⟩
    rw [List.reverse_append, List.append_assoc]
    refine (atWordEdge_behind ends isLast).mpr ?_
    cases tail with
    | cons c tail => exact edge
    | nil => rcases behind with rfl | ⟨ending, tail, rfl | rfl, rfl⟩ <;> rfl

/-- A match of a word at the start of a line. -/
theorem exists_indent_of_spans {word before mid rest : Text}
    (spans : (lineIndent ++ .exactly word ++ .wordEdge).Spans before mid rest) :
    ∃ indent, (∀ c ∈ indent, isBlankOrTab c = true) ∧ mid = indent ++ word ∧
      (before = [] ∨ before.head? = some '\n') ∧
      (⟨word.reverse ++ (indent.reverse ++ before), rest⟩ : Cursor).atWordEdge = true := by
  obtain ⟨_, edge, rfl, inner, edges⟩ := Pattern.spans_append.mp spans
  obtain ⟨_, spelled, rfl, indents, exact_⟩ := Pattern.spans_append.mp inner
  obtain ⟨_, indent, rfl, starts, runs⟩ := Pattern.spans_append.mp indents
  obtain ⟨rfl, ended⟩ := Pattern.spans_lineStart.mp starts
  obtain rfl : word = spelled := (Pattern.spans_exactly.mp exact_).symm
  obtain ⟨rfl, atEdge⟩ := Pattern.spans_wordEdge.mp edges
  refine ⟨indent, Pattern.spans_run.mp runs, by simp, ended, ?_⟩
  simpa using atEdge

theorem notMem_indent_append {word indent : Text} {c : Char} (visible : isBlankOrTab c = false)
    (blank : ∀ c ∈ indent, isBlankOrTab c = true) (absent : c ∉ word) : c ∉ indent ++ word := by
  rw [List.mem_append, not_or]
  exact ⟨fun member => by simp [blank c member] at visible, absent⟩

/-- A word at the start of a line, blanks and tabs aside. -/
theorem occursIn_headed_iff {word text : Text} {last : Char} (ends : word.getLast? = some last)
    (isLast : isWord last = true) (free : '\n' ∉ word) (unreturned : '\r' ∉ word) :
    (lineIndent ++ .exactly word ++ .wordEdge).occursIn text = true ↔
      ∃ line ∈ lines text, Headed word line := by
  constructor
  · intro occurs
    obtain ⟨front, mid, rest, rfl, spans⟩ := Pattern.occursIn_iff.mp occurs
    obtain ⟨indent, blank, rfl, starts, atEdge⟩ := exists_indent_of_spans spans
    have ended : front = [] ∨ front.getLast? = some '\n' := by
      simpa using starts
    have border : rest.head?.any isWord = false := (atWordEdge_behind ends isLast).mp atEdge
    obtain ⟨tail, others, cut, first⟩ := Document.exists_first_line
      (notMem_indent_append rfl blank free) (notMem_indent_append rfl blank unreturned) rest
    refine ⟨indent ++ word ++ tail, ?_, indent, tail, blank, rfl, ?_⟩
    · rw [List.append_assoc, Document.lines_append_of_ended ended, cut]
      simp
    · cases tail with
      | nil => rfl
      | cons c tail =>
        rcases Document.exists_rest_of_lines first with ⟨rfl, -⟩ | ⟨ending, behind, -, rfl, -⟩
        · exact border
        · exact border
  · rintro ⟨line, member, headed⟩
    exact occursIn_headed_of_isRow ends isLast headed (Document.isRow_of_mem_lines member)

end ReadOnly

end ReadOnlyViews
