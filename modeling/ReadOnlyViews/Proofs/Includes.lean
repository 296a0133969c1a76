import ReadOnlyViews.Proofs.ChangelogNames
import ReadOnlyViews.Proofs.Lines
import ReadOnlyViews.Proofs.Patterns
import ReadOnlyViews.Proofs.Texts

/-!
How often the master spells the path of a changelog between quotes, as its include does.  A
registration spells it where it was not spelled yet and leaves the count of every other changelog
alone, although it joins all lines again; the removal of table includes keeps the count of every
view's changelog, although it cuts stretches out of the text that may span several lines.
-/

namespace ReadOnlyViews

namespace Text

/-- How often a part occurs in a text; occurrences may overlap. -/
def occurrences (part : Text) : Text → Nat
  | [] => 0
  | c :: rest => occurrences part rest + if part.isPrefixOf (c :: rest) then 1 else 0

theorem occurrences_cons_of_begins {part : Text} {c : Char} {rest : Text}
    (starts : part <+: c :: rest) :
    occurrences part (c :: rest) = occurrences part rest + 1 := by
  rw [occurrences, if_pos (isPrefixOf_iff.mpr starts)]

theorem occurrences_cons_of_not_begins {part : Text} {c : Char} {rest : Text}
    (other : ¬ part <+: c :: rest) : occurrences part (c :: rest) = occurrences part rest := by
  rw [occurrences, if_neg (mt isPrefixOf_iff.mp other), Nat.add_zero]

theorem occurrences_eq_zero_iff {part text : Text} (nonempty : part ≠ []) :
    occurrences part text = 0 ↔ ¬ part <:+: text := by
  induction text with
  | nil => simp [occurrences, nonempty]
  | cons c text ih =>
    rw [List.infix_cons_iff, not_or, ← ih]
    by_cases starts : part <+: c :: text
    · simp [occurrences_cons_of_begins starts, starts]
    · simp [occurrences_cons_of_not_begins starts, starts]

/-- What a part does not start with is passed over. -/
theorem occurrences_append_of_head {q : Char} {tail front : Text} (absent : q ∉ front)
    (rest : Text) : occurrences (q :: tail) (front ++ rest) = occurrences (q :: tail) rest := by
  induction front with
  | nil => rfl
  | cons c front ih =>
    simp only [List.mem_cons, not_or] at absent
    rw [List.cons_append, occurrences_cons_of_not_begins, ih absent.2]
    intro starts
    exact absent.1 (List.cons_prefix_cons.mp starts).1

theorem occurrences_le_append (part front rest : Text) :
    occurrences part rest ≤ occurrences part (front ++ rest) := by
  induction front with
  | nil => exact Nat.le_refl _
  | cons c front ih =>
    rw [List.cons_append, occurrences]
    omega

/-- A part within the front of a text is one occurrence more. -/
theorem occurrences_lt_append {part front : Text} (nonempty : part ≠ []) (inside : part <:+: front)
    (rest : Text) : occurrences part rest < occurrences part (front ++ rest) := by
  obtain ⟨ahead, behind, rfl⟩ := inside
  obtain ⟨c, tail, rfl⟩ := List.exists_cons_of_ne_nil nonempty
  have whole : ahead ++ c :: tail ++ behind ++ rest = ahead ++ (c :: (tail ++ behind ++ rest)) := by simp
  have starts : c :: tail <+: c :: (tail ++ behind ++ rest) := ⟨behind ++ rest, by simp⟩
  calc occurrences (c :: tail) rest
      ≤ occurrences (c :: tail) (tail ++ behind ++ rest) := occurrences_le_append _ _ _
    _ < occurrences (c :: tail) (c :: (tail ++ behind ++ rest)) := by
      rw [occurrences_cons_of_begins starts]
      exact Nat.lt_succ_self _
    _ ≤ _ := by
      rw [whole]
      exact occurrences_le_append _ _ _

theorem prefix_append_cons_iff {part front rest : Text} {mark : Char} (absent : mark ∉ part) :
    part <+: front ++ mark :: rest ↔ part <+: front := by
  constructor
  · intro starts
    rcases List.prefix_or_prefix_of_prefix starts (List.prefix_append front _) with within | beyond
    · exact within
    · obtain ⟨more, rfl⟩ := beyond
      cases more with
      | nil => simp
      | cons c more =>
        have first := (List.cons_prefix_cons.mp ((List.prefix_append_right_inj front).mp starts)).1
        exact absurd (by simp [first]) absent
  · exact fun starts => starts.trans (List.prefix_append front _)

/-- No occurrence lies across a character that the part does not have. -/
theorem occurrences_append_cons {part : Text} {mark : Char} (nonempty : part ≠ [])
    (absent : mark ∉ part) (front rest : Text) :
    occurrences part (front ++ mark :: rest) = occurrences part front + occurrences part rest := by
  induction front with
  | nil =>
    rw [List.nil_append, occurrences_cons_of_not_begins, occurrences, Nat.zero_add]
    intro starts
    obtain ⟨c, tail, rfl⟩ := List.exists_cons_of_ne_nil nonempty
    exact absent (by simp [(List.cons_prefix_cons.mp starts).1])
  | cons c front ih =>
    have across : part <+: c :: (front ++ mark :: rest) ↔ part <+: c :: front := by
      rw [← List.cons_append, prefix_append_cons_iff absent]
    rw [List.cons_append]
    by_cases starts : part <+: c :: front
    · rw [occurrences_cons_of_begins (across.mpr starts), occurrences_cons_of_begins starts, ih]
      omega
    · rw [occurrences_cons_of_not_begins (mt across.mp starts),
        occurrences_cons_of_not_begins starts, ih]

/-- A last character that the part does not end with makes no difference. -/
theorem occurrences_append_singleton {part : Text} {mark : Char} (nonempty : part ≠ [])
    (ends : part.getLast? ≠ some mark) (front : Text) :
    occurrences part (front ++ [mark]) = occurrences part front := by
  have shorter (front : Text) : part <+: front ++ [mark] ↔ part <+: front := by
    rw [List.prefix_concat_iff, or_iff_right]
    rintro rfl
    simp at ends
  induction front with
  | nil =>
    rw [List.nil_append, occurrences_cons_of_not_begins]
    intro starts
    exact nonempty (List.prefix_nil.mp ((shorter []).mp starts))
  | cons c front ih =>
    have across : part <+: c :: (front ++ [mark]) ↔ part <+: c :: front := by
      rw [← List.cons_append, shorter]
    rw [List.cons_append]
    by_cases starts : part <+: c :: front
    · rw [occurrences_cons_of_begins (across.mpr starts), occurrences_cons_of_begins starts, ih]
    · rw [occurrences_cons_of_not_begins (mt across.mp starts),
        occurrences_cons_of_not_begins starts, ih]

end Text

namespace Document

/-- How often a part occurs in lines, each taken by itself. -/
def occurrencesIn (part : Text) : List Text → Nat
  | [] => 0
  | line :: others => Text.occurrences part line + occurrencesIn part others

theorem occurrencesIn_append (part : Text) (front back : List Text) :
    occurrencesIn part (front ++ back) = occurrencesIn part front + occurrencesIn part back := by
  induction front with
  | nil => simp [occurrencesIn]
  | cons line front ih =>
    simp only [List.cons_append, occurrencesIn, ih]
    omega

theorem occurrencesIn_le_of_sublist (part : Text) {fewer all : List Text} (sub : fewer.Sublist all) :
    occurrencesIn part fewer ≤ occurrencesIn part all := by
  induction sub with
  | slnil => exact Nat.le_refl _
  | cons line _ ih => exact Nat.le_trans ih (Nat.le_add_left _ _)
  | cons_cons line _ ih => exact Nat.add_le_add_left ih _

/-- A part that stands in one line: it has no line feed and does not end where a line end may
start. -/
structure WithinLine (part : Text) : Prop where
  nonempty : part ≠ []
  noLineFeed : '\n' ∉ part
  unended : part.getLast? ≠ some '\r'

variable {part : Text}

private theorem WithinLine.occurrences_append_lf (within : WithinLine part) (front rest : Text) :
    Text.occurrences part (front ++ '\n' :: rest) =
      Text.occurrences part front + Text.occurrences part rest :=
  Text.occurrences_append_cons within.nonempty within.noLineFeed front rest

private theorem WithinLine.occurrences_append_crlf (within : WithinLine part) (front rest : Text) :
    Text.occurrences part (front ++ '\r' :: '\n' :: rest) =
      Text.occurrences part front + Text.occurrences part rest := by
  have moved : front ++ '\r' :: '\n' :: rest = front ++ ['\r'] ++ '\n' :: rest := by simp
  rw [moved, within.occurrences_append_lf,
    Text.occurrences_append_singleton within.nonempty within.unended]

/-- Whatever line ends a text has, a part that stands in one line is found line by line. -/
theorem WithinLine.occurrencesIn_lines (within : WithinLine part) (text : Text) :
    occurrencesIn part (lines text) = Text.occurrences part text := by
  by_cases feed : '\n' ∈ text
  · obtain ⟨line, rest, rfl, free⟩ := List.eq_append_cons_of_mem feed
    have shorter : rest.length < (line ++ '\n' :: rest).length := by simp; omega
    by_cases long : line.getLast? = some '\r'
    · obtain ⟨line, rfl⟩ := List.getLast?_eq_some_iff.mp long
      have freeLine : '\n' ∉ line := fun member => free (by simp [member])
      have moved : line ++ ['\r'] ++ '\n' :: rest = line ++ '\r' :: '\n' :: rest := by simp
      rw [moved, lines_append_crlf freeLine, occurrencesIn, within.occurrences_append_crlf,
        occurrencesIn_lines within rest]
    · rw [lines_append_lf free long, occurrencesIn, within.occurrences_append_lf,
        occurrencesIn_lines within rest]
  · rw [lines_eq_singleton feed, occurrencesIn, occurrencesIn, Nat.add_zero]
termination_by text.length

theorem occurrencesIn_eq_zero_iff (nonempty : part ≠ []) {all : List Text} :
    occurrencesIn part all = 0 ↔ ∀ line ∈ all, ¬ part <:+: line := by
  induction all with
  | nil => simp [occurrencesIn]
  | cons line others ih =>
    rw [occurrencesIn, Nat.add_eq_zero_iff, Text.occurrences_eq_zero_iff nonempty, ih, List.forall_mem_cons]

/-- Such a part stands in a text if it stands in one of its lines. -/
theorem WithinLine.infix_iff (within : WithinLine part) {text : Text} :
    part <:+: text ↔ ∃ line ∈ lines text, part <:+: line := by
  rw [← not_iff_not, ← Text.occurrences_eq_zero_iff within.nonempty, ← within.occurrencesIn_lines,
    occurrencesIn_eq_zero_iff within.nonempty]
  simp only [not_exists, not_and]

theorem WithinLine.includes_concat_return (within : WithinLine part) (text : Text) :
    Text.includes part (text ++ ['\r']) = Text.includes part text := by
  rw [Bool.eq_iff_iff, Text.includes_iff, Text.includes_iff, List.infix_concat_iff, or_iff_right]
  rintro ⟨front, same⟩
  have last := congrArg List.getLast? same
  rw [List.getLast?_append_of_ne_nil _ within.nonempty, List.getLast?_concat] at last
  exact within.unended last

private theorem WithinLine.occurrences_join (within : WithinLine part) (text : Text)
    (changed : List Text) :
    Text.occurrences part (Text.join (newline text) changed) = occurrencesIn part changed := by
  have apart (front rest : Text) : Text.occurrences part (front ++ newline text ++ rest) =
      Text.occurrences part front + Text.occurrences part rest := by
    rcases newline_eq_or text with long | short
    · rw [long, List.append_assoc]
      exact within.occurrences_append_crlf front rest
    · rw [short, List.append_assoc]
      exact within.occurrences_append_lf front rest
  induction changed with
  | nil => rfl
  | cons line others ih =>
    cases others with
    | nil => simp [Text.join, occurrencesIn]
    | cons next others =>
      rw [Text.join, apart, ih]
      rfl

/-- Rendering neither loses nor makes an occurrence. -/
theorem WithinLine.occurrences_render (within : WithinLine part) (text : Text)
    (changed : List Text) :
    Text.occurrences part (render text changed) = occurrencesIn part changed := by
  unfold render
  split
  · rename_i same
    rw [same, within.occurrencesIn_lines]
  · exact within.occurrences_join text changed

private theorem occurrencesIn_insertAt (part : Text) (position : Nat) (block changed : List Text) :
    occurrencesIn part (insertAt position block changed) =
      occurrencesIn part changed + occurrencesIn part block := by
  have whole := occurrencesIn_append part (changed.take position) (changed.drop position)
  rw [List.take_append_drop] at whole
  rw [insertAt, occurrencesIn_append, occurrencesIn_append, whole]
  omega

end Document

open Document (WithinLine occurrencesIn occurrencesIn_append) in
/-- A fragment that is spliced in adds what its lines hold. -/
theorem occurrences_splice {part : Text} (within : WithinLine part) (fragment : Fragment)
    (anchors : List Text) {text : Text} (absent : fragment.witness.presentIn text = false) :
    Text.occurrences part (splice fragment anchors text).text =
      Text.occurrences part text + occurrencesIn part fragment.lines := by
  have blank : occurrencesIn part [[]] = 0 := rfl
  rw [splice, absent, if_neg Bool.false_ne_true]
  dsimp only
  split
  · have block : occurrencesIn part (fragment.lines ++ if fragment.blankAfter then [[]] else []) =
        occurrencesIn part fragment.lines := by
      rw [occurrencesIn_append]
      split <;> rfl
    rw [within.occurrences_render, Document.occurrencesIn_insertAt, block,
      within.occurrencesIn_lines]
  · have kept : occurrencesIn part (if (Document.lines text).getLast? = some [] then
        (Document.lines text).dropLast else Document.lines text) = Text.occurrences part text := by
      rw [← within.occurrencesIn_lines]
      split
      · rename_i ended
        obtain ⟨front, cut⟩ := List.getLast?_eq_some_iff.mp ended
        rw [cut, List.dropLast_concat, occurrencesIn_append, blank, Nat.add_zero]
      · rfl
    rw [within.occurrences_render, occurrencesIn_append, occurrencesIn_append,
      occurrencesIn_append, blank, kept]
    rfl

namespace Pattern

theorem spans_times_one {allowed : Char → Bool} {count : Nat} {before mid after : Text} :
    (times (one allowed) count).Spans before mid after ↔
      mid.length = count ∧ ∀ c ∈ mid, allowed c = true := by
  induction count generalizing before mid with
  | zero =>
    rw [times, spans_nothing, List.length_eq_zero_iff]
    exact ⟨fun empty => ⟨empty, by simp [empty]⟩, And.left⟩
  | succ count ih =>
    rw [times, spans_append]
    constructor
    · rintro ⟨front, back, rfl, first, more⟩
      obtain ⟨c, fits, rfl⟩ := spans_one.mp first
      obtain ⟨length, all⟩ := ih.mp more
      exact ⟨by simp [length], by simpa using ⟨fits, all⟩⟩
    · rintro ⟨length, all⟩
      cases mid with
      | nil => simp at length
      | cons c mid =>
        refine ⟨[c], mid, rfl, spans_one.mpr ⟨c, all c (by simp), rfl⟩, ih.mpr ⟨?_, ?_⟩⟩
        · simpa using length
        · exact fun d member => all d (by simp [member])

/-- Characters of a match that are still to be dropped are dropped. -/
theorem eraseAllFrom_eq_drop (p : Pattern) (skip : Nat) (before after : Text) :
    (p.eraseAllFrom skip before after).1 =
      (p.eraseAllFrom 0 ((after.take skip).reverse ++ before) (after.drop skip)).1 := by
  induction after generalizing skip before with
  | nil => cases skip <;> simp [eraseAllFrom]
  | cons c after ih =>
    cases skip with
    | zero => simp
    | succ skip =>
      rw [eraseAllFrom, ih]
      simp

/-- What a removal of all matches keeps from a place on: all but a match that starts there, or the
next character and what is kept behind it. -/
theorem eraseAllFrom_cases (p : Pattern) (before : Text) (c : Char) (after : Text) :
    (∃ mid rest, mid ≠ [] ∧ c :: after = mid ++ rest ∧ p.Spans before mid rest ∧
      (p.eraseAllFrom 0 before (c :: after)).1 =
        (p.eraseAllFrom 0 (mid.reverse ++ before) rest).1) ∨
    (p.eraseAllFrom 0 before (c :: after)).1 = c :: (p.eraseAllFrom 0 (c :: before) after).1 := by
  rw [eraseAllFrom]
  split
  · rename_i more first
    obtain ⟨stop, isFirst, length⟩ := Option.map_eq_some_iff.mp first
    obtain ⟨mid, text, place, spans⟩ :=
      exists_spans_of_mem_stops (List.mem_of_mem_head? isFirst)
    dsimp only at text place spans
    have count : mid.length = more + 1 := by
      rw [Cursor.offset, place, List.length_append, List.length_reverse] at length
      omega
    cases mid with
    | nil => simp at count
    | cons d mid =>
      rw [List.cons_append] at text
      obtain ⟨rfl, rfl⟩ := List.cons.inj text
      have short : mid.length = more := by simpa using count
      refine .inl ⟨c :: mid, stop.after, by simp, rfl, spans, ?_⟩
      rw [eraseAllFrom_eq_drop, ← short, List.take_left, List.drop_left]
      simp
  · exact .inr rfl

/-- Every match starts a line, and none starts with a quote. -/
def OpensLines (p : Pattern) : Prop :=
  ∀ before mid after, mid ≠ [] → p.Spans before mid after →
    (before = [] ∨ before.head? = some '\n') ∧ mid.head? ≠ some '"'

namespace OpensLines

variable {p : Pattern} {part before after : Text}

/-- Inside a line, and before a quote, a character stays. -/
theorem eraseAllFrom_cons (opens : OpensLines p) {c : Char}
    (plain : ¬ (before = [] ∨ before.head? = some '\n') ∨ c = '"') :
    (p.eraseAllFrom 0 before (c :: after)).1 = c :: (p.eraseAllFrom 0 (c :: before) after).1 := by
  rcases p.eraseAllFrom_cases before c after with ⟨mid, rest, nonempty, text, spans, -⟩ | kept
  · obtain ⟨atStart, noQuote⟩ := opens before mid rest nonempty spans
    rcases plain with inside | rfl
    · exact absurd atStart inside
    · obtain ⟨d, mid, rfl⟩ := List.exists_cons_of_ne_nil nonempty
      obtain ⟨rfl, -⟩ := List.cons.inj text
      exact absurd rfl noQuote
  · exact kept

/-- A part that starts inside a line stays, if every line end in it has a quote behind it. -/
theorem prefix_kept (opens : OpensLines p)
    (quoted : ∀ front rest, part = front ++ '\n' :: rest → rest.head? = some '"')
    (plain : ¬ (before = [] ∨ before.head? = some '\n') ∨ part.head? = some '"')
    (starts : part <+: after) : part <+: (p.eraseAllFrom 0 before after).1 := by
  induction part generalizing before after with
  | nil => exact List.nil_prefix
  | cons c part ih =>
    obtain ⟨more, rfl⟩ := starts
    rw [List.cons_append, opens.eraseAllFrom_cons (plain.imp_right (by simp)),
      List.cons_prefix_cons]
    refine ⟨rfl, ih (fun front rest cut => quoted (c :: front) rest (by simp [cut])) ?_
      (List.prefix_append part more)⟩
    by_cases feed : c = '\n'
    · subst feed
      exact .inr (quoted [] part rfl)
    · exact .inl (by simp [feed])

/-- A part of one line that is kept behind the start of the line was there before. -/
theorem prefix_of_kept (opens : OpensLines p) (noLineFeed : '\n' ∉ part)
    (inside : ¬ (before = [] ∨ before.head? = some '\n'))
    (starts : part <+: (p.eraseAllFrom 0 before after).1) : part <+: after := by
  induction part generalizing before after with
  | nil => exact List.nil_prefix
  | cons c part ih =>
    simp only [List.mem_cons, not_or] at noLineFeed
    cases after with
    | nil => simp [eraseAllFrom] at starts
    | cons d after =>
      rw [opens.eraseAllFrom_cons (.inl inside), List.cons_prefix_cons] at starts
      obtain ⟨rfl, starts⟩ := starts
      refine List.cons_prefix_cons.mpr ⟨rfl, ih noLineFeed.2 ?_ starts⟩
      simp [Ne.symm noLineFeed.1]

/-- A removal loses no occurrence of a quoted part that no match holds, and makes none of a part that
stands in one line. -/
theorem occurrences_kept (opens : OpensLines p) {tail : Text}
    (outside : ∀ before mid after, p.Spans before mid after →
      Text.occurrences ('"' :: tail) (mid ++ after) = Text.occurrences ('"' :: tail) after)
    (quoted : ∀ front rest, tail = front ++ '\n' :: rest → rest.head? = some '"')
    (before after : Text) :
    Text.occurrences ('"' :: tail) after ≤
        Text.occurrences ('"' :: tail) (p.eraseAllFrom 0 before after).1 ∧
      ('\n' ∉ tail → Text.occurrences ('"' :: tail) (p.eraseAllFrom 0 before after).1 =
        Text.occurrences ('"' :: tail) after) := by
  cases after with
  | nil => simp [eraseAllFrom]
  | cons c after =>
    rcases p.eraseAllFrom_cases before c after with ⟨mid, rest, nonempty, text, spans, kept⟩ | kept
    · have shorter : rest.length < after.length + 1 := by
        rw [← List.length_cons, text, List.length_append]
        have := List.length_pos_iff.mpr nonempty
        omega
      rw [kept, text, outside before mid rest spans]
      exact occurrences_kept opens outside quoted (mid.reverse ++ before) rest
    · obtain ⟨fewer, same⟩ := occurrences_kept opens outside quoted (c :: before) after
      rw [kept]
      by_cases quote : c = '"'
      · subst quote
        have inside : ¬ ('"' :: before = [] ∨ ('"' :: before).head? = some '\n') := by simp
        have stays (starts : tail <+: after) := opens.prefix_kept quoted (.inl inside) starts
        by_cases starts : tail <+: after
        · rw [Text.occurrences_cons_of_begins (List.cons_prefix_cons.mpr ⟨rfl, starts⟩),
            Text.occurrences_cons_of_begins (List.cons_prefix_cons.mpr ⟨rfl, stays starts⟩)]
          exact ⟨by omega, fun noLineFeed => by rw [same noLineFeed]⟩
        · have old : ¬ '"' :: tail <+: '"' :: after := by simpa using starts
          rw [Text.occurrences_cons_of_not_begins old]
          refine ⟨?_, fun noLineFeed => ?_⟩
          · rw [Text.occurrences]
            omega
          · have new : ¬ '"' :: tail <+: '"' :: (p.eraseAllFrom 0 ('"' :: before) after).1 := by
              intro kept
              exact starts (opens.prefix_of_kept noLineFeed inside (List.cons_prefix_cons.mp kept).2)
            rw [Text.occurrences_cons_of_not_begins new, same noLineFeed]
      · have other (rest : Text) : ¬ '"' :: tail <+: c :: rest := by
          intro starts
          exact quote (List.cons_prefix_cons.mp starts).1.symm
        rw [Text.occurrences_cons_of_not_begins (other _),
          Text.occurrences_cons_of_not_begins (other _)]
        exact ⟨fewer, same⟩
termination_by after.length

end OpensLines

end Pattern

namespace Changelog

/-- The path of a changelog as an include spells it, with its quotes. -/
def quotedPath (name : Text) : Text := '"' :: (includeFolder ++ name ++ ['"'])

/-- How often the master spells the path of a changelog. -/
def includeCount (name master : Text) : Nat := Text.occurrences (quotedPath name) master

theorem withinLine_quotedPath {name : Text} (noLineFeed : '\n' ∉ name) :
    Document.WithinLine (quotedPath name) where
  nonempty := by simp [quotedPath]
  noLineFeed := by
    have folder : '\n' ∉ includeFolder := by decide
    simp [quotedPath, folder, noLineFeed]
  unended := by
    rw [quotedPath, ← List.cons_append, List.getLast?_concat]
    decide

theorem includeCount_eq_zero_iff {name master : Text} :
    includeCount name master = 0 ↔ ¬ quotedPath name <:+: master :=
  Text.occurrences_eq_zero_iff (by simp [quotedPath])

private theorem presentIn_includeFragment {file master : Text} :
    (includeFragment file).witness.presentIn master = false ↔ includeCount file master = 0 := by
  rw [includeCount_eq_zero_iff]
  exact Text.includes_eq_false_iff

/-- Texts without the mark are told apart by what stands before it. -/
private theorem append_mark_prefix_iff {name file rest : Text} {mark : Char} (inName : mark ∉ name)
    (inFile : mark ∉ file) : name ++ [mark] <+: file ++ mark :: rest ↔ name = file := by
  constructor
  · rintro ⟨more, same⟩
    have cut := congrArg (List.takeWhile (· != mark)) same
    have whole (front : Text) (absent : mark ∉ front) (back : Text) :
        (front ++ mark :: back).takeWhile (· != mark) = front := by
      rw [List.takeWhile_append_of_pos, List.takeWhile_cons_of_neg, List.append_nil]
      · simp
      · intro c member
        simp only [bne_iff_ne, ne_eq]
        rintro rfl
        exact absent member
    rw [List.append_assoc, List.singleton_append, whole name inName, whole file inFile] at cut
    exact cut
  · rintro rfl
    exact ⟨rest, by simp⟩

/-- An include line includes the file that it names and no other. -/
theorem includeCount_includeLine {name file : Text} (nameQuote : '"' ∉ name)
    (fileQuote : '"' ∉ file) :
    Document.occurrencesIn (quotedPath name) (includeFragment file).lines =
      if name = file then 1 else 0 := by
  have spelled : (includeFragment file).lines = ["    <include file=".toList ++ '"' ::
      (includeFolder ++ file ++ '"' :: (" relativeToChangelogFile=".toList ++ '"' ::
        ("false".toList ++ '"' :: "/>".toList)))] := rfl
  have inside : '"' ∉ includeFolder ++ file := by
    have folder : '"' ∉ includeFolder := by decide
    simp [folder, fileQuote]
  -- behind a quote the path starts with another character than what follows the name
  have elsewhere (front rest : Text) (absent : '"' ∉ front) (other : front.head? ≠ some 'c')
      (nonempty : front ≠ []) : Text.occurrences (quotedPath name) ('"' :: (front ++ rest)) =
        Text.occurrences (quotedPath name) rest := by
    rw [Text.occurrences_cons_of_not_begins, quotedPath, Text.occurrences_append_of_head absent]
    intro starts
    obtain ⟨c, front, rfl⟩ := List.exists_cons_of_ne_nil nonempty
    have behind := (List.cons_prefix_cons.mp starts).2
    have first := (List.cons_prefix_cons.mp behind).1
    exact other (by rw [← first]; rfl)
  have end_ : Text.occurrences (quotedPath name) ('"' :: "/>".toList) = 0 :=
    elsewhere "/>".toList [] (by decide) (by decide) (by decide)
  have behind : Text.occurrences (quotedPath name) ('"' :: (" relativeToChangelogFile=".toList ++
      '"' :: ("false".toList ++ '"' :: "/>".toList))) = 0 := by
    rw [elsewhere _ _ (by decide) (by decide) (by decide),
      elsewhere _ _ (by decide) (by decide) (by decide), end_]
  have starts (rest : Text) : quotedPath name <+: '"' :: (includeFolder ++ file ++ '"' :: rest) ↔
      name = file := by
    rw [quotedPath, List.cons_prefix_cons, List.append_assoc, List.append_assoc,
      List.prefix_append_right_inj, append_mark_prefix_iff nameQuote fileQuote]
    simp
  rw [spelled, Document.occurrencesIn, Document.occurrencesIn, Nat.add_zero, quotedPath,
    Text.occurrences_append_of_head (by decide), ← quotedPath]
  split
  · rename_i same
    rw [Text.occurrences_cons_of_begins ((starts _).mpr same), quotedPath,
      Text.occurrences_append_of_head inside, ← quotedPath, behind]
  · rename_i different
    rw [Text.occurrences_cons_of_not_begins (mt (starts _).mp different), quotedPath,
      Text.occurrences_append_of_head inside, ← quotedPath, behind]

/-- A registration includes its file where that was not included yet, and changes nothing else. -/
theorem includeCount_register {name file : Text} (nameQuote : '"' ∉ name) (fileQuote : '"' ∉ file)
    (noLineFeed : '\n' ∉ name) (master : Text) :
    includeCount name (register file master).text =
      if name = file ∧ includeCount name master = 0 then 1 else includeCount name master := by
  cases present : (includeFragment file).witness.presentIn master with
  | true =>
    have same : (register file master).text = master := by rw [register, splice, if_pos present]
    have included : includeCount file master ≠ 0 := by
      rw [ne_eq, ← presentIn_includeFragment, present]
      decide
    rw [same, if_neg]
    rintro ⟨rfl, none⟩
    exact included none
  | false =>
    have none := presentIn_includeFragment.mp present
    have added : includeCount name (register file master).text =
        includeCount name master + if name = file then 1 else 0 := by
      rw [← includeCount_includeLine nameQuote fileQuote]
      exact occurrences_splice (withinLine_quotedPath noLineFeed) _ _ present
    rw [added]
    by_cases same : name = file
    · subst same
      simp [none]
    · simp [same]

/-- What an include of a table changelog spells, from its indentation to its line end. -/
theorem exists_of_spans_tableInclude {entityClass before mid after : Text}
    (spans : (tableInclude entityClass).Spans before mid after) :
    (before = [] ∨ before.head? = some '\n') ∧
    ∃ indent gap digits extra attributes slash ending,
      mid = indent ++ "<include".toList ++ gap ++ ("file=\"".toList ++ includeFolder) ++ digits ++
        "_added_entity_".toList ++ extra ++ (entityClass ++ ".xml\"".toList) ++ attributes ++
        slash ++ ">".toList ++ ending ∧
      (∀ c ∈ indent, isBlankOrTab c = true) ∧ (∀ c ∈ gap, isBlank c = true) ∧
      (∀ c ∈ digits, isDecimal c = true) ∧ (extra = "constraints_".toList ∨ extra = []) ∧
      (∀ c ∈ attributes, c ≠ '/' ∧ c ≠ '>') ∧ (slash = "/".toList ∨ slash = []) ∧
      '"' ∉ ending := by
  simp only [tableInclude, Pattern.blanks1, Pattern.run1, Pattern.lineBreakOrEnd,
    Pattern.spans_append, Pattern.spans_lineStart, Pattern.spans_run, Pattern.spans_exactly,
    Pattern.spans_one, Pattern.spans_optional, Pattern.spans_either, Pattern.spans_textEnd,
    Pattern.spans_times_one] at spans
  obtain ⟨_, lineEnd, rfl, ⟨_, trailing, rfl, ⟨_, _, rfl, ⟨_, slash, rfl, ⟨_, attributes, rfl,
    ⟨_, _, rfl, ⟨_, extra, rfl, ⟨_, _, rfl, ⟨_, digits, rfl, ⟨_, _, rfl, ⟨_, gap, rfl,
    ⟨_, _, rfl, ⟨_, indent, rfl, ⟨rfl, atStart⟩, indents⟩, rfl⟩, gaps⟩, rfl⟩, -, decimals⟩, rfl⟩,
    extras⟩, rfl⟩, plain⟩, slashes⟩, rfl⟩, blank⟩, breaks⟩ := spans
  refine ⟨atStart, indent, gap, digits, extra, attributes, slash, trailing ++ lineEnd, ?_, indents,
    ?_, decimals, extras, ?_, slashes, ?_⟩
  · simp only [List.nil_append, List.append_assoc]
  · obtain ⟨_, more, rfl, ⟨c, isBlank, rfl⟩, others⟩ := gaps
    simpa using ⟨isBlank, others⟩
  · intro c member
    simpa using plain c member
  · intro quote
    rcases List.mem_append.mp quote with inTrailing | inEnd
    · exact absurd (blank _ inTrailing) (by decide)
    · rcases breaks with ⟨_, _, rfl, rfl | rfl, rfl⟩ | ⟨rfl, -⟩ <;> simp at inEnd

theorem opensLines_tableInclude (entityClass : Text) : (tableInclude entityClass).OpensLines := by
  intro before mid after nonempty spans
  obtain ⟨atStart, indent, gap, digits, extra, attributes, slash, ending, rfl, indents, -⟩ :=
    exists_of_spans_tableInclude spans
  refine ⟨atStart, fun quote => ?_⟩
  cases indent with
  | nil => simp at quote
  | cons c indent =>
    obtain rfl : c = '"' := by simpa using quote
    exact absurd (indents '"' (by simp)) (by decide)

/-- In the attributes of an include no slash comes before its end, so no path starts there. -/
private theorem occurrences_attributes (name : Text) {attributes slash : Text}
    (plain : ∀ c ∈ attributes, c ≠ '/' ∧ c ≠ '>') (slashes : slash = "/".toList ∨ slash = [])
    (rest : Text) :
    Text.occurrences (quotedPath name) (attributes ++ (slash ++ '>' :: rest)) =
      Text.occurrences (quotedPath name) rest := by
  have starts (attributes : Text) (plain : ∀ c ∈ attributes, c ≠ '/' ∧ c ≠ '>') :
      ¬ quotedPath name <+: attributes ++ (slash ++ '>' :: rest) := by
    rintro ⟨more, same⟩
    -- the first slash of the path has a letter behind it, the first one here has an angle bracket
    have cut := congrArg (List.dropWhile fun c => c != '/' && c != '>') same
    have path : ((quotedPath name ++ more).dropWhile fun c => c != '/' && c != '>') =
        '/' :: 'l' :: ("iquibase/changelog/".toList ++ name ++ ['"'] ++ more) := rfl
    rw [path, List.dropWhile_append_of_pos (by simpa using plain)] at cut
    rcases slashes with rfl | rfl
    · have second := congrArg (·[1]?) cut
      exact absurd second (by simp)
    · have first := congrArg List.head? cut
      exact absurd first (by simp)
  induction attributes with
  | nil =>
    have noQuote : '"' ∉ slash ++ ['>'] := by
      rcases slashes with rfl | rfl <;> decide
    have moved : [] ++ (slash ++ '>' :: rest) = slash ++ ['>'] ++ rest := by simp
    rw [moved, quotedPath, Text.occurrences_append_of_head noQuote]
  | cons c attributes ih =>
    have other : ¬ quotedPath name <+: c :: (attributes ++ (slash ++ '>' :: rest)) :=
      starts (c :: attributes) plain
    rw [List.cons_append, Text.occurrences_cons_of_not_begins other]
    exact ih fun d member => plain d (by simp [member])

/-- No include of a table holds a part of the path of a view's changelog. -/
theorem occurrences_tableInclude {entityClass view name stamp : Text} (classQuote : '"' ∉ entityClass)
    (stamped : stampOf? view name = some stamp) {before mid after : Text}
    (spans : (tableInclude entityClass).Spans before mid after) :
    Text.occurrences (quotedPath name) (mid ++ after) =
      Text.occurrences (quotedPath name) after := by
  obtain ⟨-, indent, gap, digits, extra, attributes, slash, ending, rfl, indents, gaps, decimals,
    extras, plain, slashes, ends⟩ := exists_of_spans_tableInclude spans
  let path := includeFolder ++ (digits ++ ("_added_entity_".toList ++
    (extra ++ (entityClass ++ ".xml".toList))))
  have regrouped : indent ++ "<include".toList ++ gap ++ ("file=\"".toList ++ includeFolder) ++
      digits ++ "_added_entity_".toList ++ extra ++ (entityClass ++ ".xml\"".toList) ++
      attributes ++ slash ++ ">".toList ++ ending ++ after =
      indent ++ ("<include".toList ++ (gap ++ "file=".toList)) ++ '"' ::
        (path ++ ('"' :: attributes ++ (slash ++ '>' :: (ending ++ after)))) := by
    have opening : "file=\"".toList = "file=".toList ++ ['"'] := rfl
    have closing : ".xml\"".toList = ".xml".toList ++ ['"'] := rfl
    have bracket : ">".toList = ['>'] := rfl
    simp only [path, opening, closing, bracket, List.append_assoc, List.cons_append,
      List.nil_append]
  have front : '"' ∉ indent ++ ("<include".toList ++ (gap ++ "file=".toList)) := by
    simp only [List.mem_append, not_or]
    exact ⟨fun quote => absurd (indents _ quote) (by decide), by decide,
      fun quote => absurd (gaps _ quote) (by decide), by decide⟩
  have inside : '"' ∉ path := by
    simp only [path, List.mem_append, not_or]
    refine ⟨by decide, fun quote => absurd (decimals _ quote) (by decide), by decide, ?_, classQuote,
      by decide⟩
    rcases extras with rfl | rfl <;> decide
  -- both paths go on with digits, and behind those the words differ
  have other (rest : Text) : ¬ quotedPath name <+: '"' :: (path ++ rest) := by
    rintro ⟨more, same⟩
    have ofView : quotedPath name ++ more = '"' :: (includeFolder ++ (name ++ '"' :: more)) := by
      simp [quotedPath]
    have ofTable : path ++ rest = includeFolder ++ (digits ++ '_' :: 'a' :: ("dded_entity_".toList ++
        (extra ++ (entityClass ++ ".xml".toList)) ++ rest)) := by
      simp only [path, List.append_assoc]
      rfl
    rw [ofView, ofTable] at same
    have behind := List.append_cancel_left (List.cons.inj same).2
    have cut := congrArg (List.dropWhile isDecimal) behind
    rw [List.dropWhile_append_of_pos decimals, List.dropWhile_cons_of_neg (by decide)] at cut
    obtain ⟨rest, spelled⟩ := exists_of_stampOf? stamped
    obtain ⟨isStamp, -⟩ := stampOf?_eq_some_iff.mp stamped
    rw [spelled, List.append_assoc, List.cons_append, dropWhile_stamp isStamp rfl] at cut
    exact absurd (congrArg (·[1]?) cut) (by simp)
  have withQuote : ∀ c ∈ '"' :: attributes, c ≠ '/' ∧ c ≠ '>' := by
    simpa using plain
  rw [regrouped, quotedPath, Text.occurrences_append_of_head front, ← quotedPath,
    Text.occurrences_cons_of_not_begins (other _), quotedPath,
    Text.occurrences_append_of_head inside, ← quotedPath,
    occurrences_attributes name withQuote slashes, quotedPath,
    Text.occurrences_append_of_head ends]

/-- The removal of an entity's table includes drops no include of a view's changelog. -/
theorem includeCount_removeTableIncludes {entityClass view name stamp : Text}
    (classQuote : '"' ∉ entityClass) (stamped : stampOf? view name = some stamp)
    (viewFeed : '\n' ∉ view) (master : Text) :
    includeCount name master ≤ includeCount name (removeTableIncludes entityClass master).text ∧
      ('\n' ∉ name → includeCount name (removeTableIncludes entityClass master).text =
        includeCount name master) := by
  have text : (removeTableIncludes entityClass master).text = master ∨
      (removeTableIncludes entityClass master).text =
        ((tableInclude entityClass).eraseAllFrom 0 [] master).1 := by
    unfold removeTableIncludes
    dsimp only
    split
    · exact .inl rfl
    · exact .inr rfl
  have quoted : ∀ front rest, includeFolder ++ name ++ ['"'] = front ++ '\n' :: rest →
      rest.head? = some '"' := by
    intro front rest cut
    obtain ⟨isStamp, spelled⟩ := stampOf?_eq_some_iff.mp stamped
    have free : '\n' ∉ includeFolder ++ (stamp ++ viewSuffix view) := by
      simp only [List.mem_append, not_or]
      exact ⟨by decide, fun feed => absurd (isStamp.digits _ feed) (by decide),
        notMem_viewSuffix viewFeed (by decide) (by decide)⟩
    have feed : '\n' ∈ front ++ '\n' :: rest := by simp
    rcases spelled with rfl | rfl
    · rw [← cut, List.mem_append, or_iff_left (by decide)] at feed
      exact absurd feed free
    · have moved : includeFolder ++ (stamp ++ (viewSuffix view ++ ['\n'])) ++ ['"'] =
          includeFolder ++ (stamp ++ viewSuffix view) ++ '\n' :: ['"'] := by simp
      rw [moved, List.append_cons_inj_of_notMem free (by decide)] at cut
      rw [← cut.2.2]
      rfl
  rcases text with same | kept
  · rw [same]
    exact ⟨Nat.le_refl _, fun _ => rfl⟩
  · rw [kept]
    obtain ⟨fewer, same⟩ := (opensLines_tableInclude entityClass).occurrences_kept
      (fun _ _ _ => occurrences_tableInclude classQuote stamped) quoted [] master
    refine ⟨fewer, fun nameFeed => same ?_⟩
    have within := (withinLine_quotedPath nameFeed).noLineFeed
    exact fun feed => within (List.mem_cons_of_mem _ feed)

end Changelog

end ReadOnlyViews
