import ReadOnlyViews.Proofs.LineEndEdits

/-! Which references keep an import.  A class counts as referenced in nine positions, and pruning
keeps the import of every class that stands in one of them, as long as the position lies within
lines that stand together before and after.  A reference in any other position is overlooked: the
second of two type arguments is one. -/
namespace ReadOnlyViews

namespace Text

theorem exists_eraseFirst_of_includes {part text : Text} (included : includes part text = true) :
    ∃ before after, text = before ++ part ++ after ∧ eraseFirst part text = before ++ after := by
  induction text with
  | nil =>
    obtain rfl : part = [] := by simpa [includes] using included
    exact ⟨[], [], rfl, rfl⟩
  | cons c text ih =>
    rw [eraseFirst]
    split
    · next tail starts => exact ⟨[], tail, after?_eq_some_iff.mp starts, rfl⟩
    · next none =>
      have later : includes part text = true := by
        rw [includes, Bool.or_eq_true] at included
        rcases included with starts | later
        · obtain ⟨tail, whole⟩ := isPrefixOf_iff.mp starts
          rw [after?_eq_some_iff.mpr whole.symm] at none
          cases none
        · exact later
      obtain ⟨before, after, rfl, erased⟩ := ih later
      exact ⟨c :: before, after, rfl, by rw [erased]; rfl⟩

end Text

namespace Document

/-! ## Lines that stand together -/

/-- Some lines that stand together in a text, with their line ends. -/
def IsBlockOf (block text : Text) : Prop :=
  ∃ front back, text = front ++ block ++ back ∧ (front = [] ∨ front.getLast? = some '\n') ∧
    (back = [] ∨ block.getLast? = some '\n')

private theorem ended_of_append {front back : Text}
    (ended : front ++ back = [] ∨ (front ++ back).getLast? = some '\n') :
    back = [] ∨ back.getLast? = some '\n' := by
  refine or_iff_not_imp_left.mpr fun nonempty => ?_
  rcases ended with empty | feed
  · exact absurd (List.append_eq_nil_iff.mp empty).2 nonempty
  · rwa [List.getLast?_append_of_ne_nil _ nonempty] at feed

/-- No part of a line reaches across the end of a line. -/
theorem beside_of_ended {front rest before part after : Text}
    (ended : front = [] ∨ front.getLast? = some '\n') (single : '\n' ∉ part) (some_ : part ≠ [])
    (same : front ++ rest = before ++ part ++ after) :
    (∃ gap, gap.getLast? = some '\n' ∧ front = before ++ part ++ gap ∧ after = gap ++ rest) ∨
      ∃ gap, before = front ++ gap ∧ rest = gap ++ part ++ after := by
  rw [List.append_assoc] at same
  rcases List.append_eq_append_iff.mp same with ⟨gap, rfl, rfl⟩ | ⟨gap, rfl, tail⟩
  · exact .inr ⟨gap, rfl, by simp⟩
  have ends := ended_of_append ended
  rcases List.append_eq_append_iff.mp tail with ⟨more, rfl, rfl⟩ | ⟨more, rfl, rfl⟩
  · rcases ended_of_append ends with rfl | feed
    · have feed : part.getLast? = some '\n' := by simpa [some_] using ends
      exact absurd (List.mem_of_getLast? feed) single
    · exact .inl ⟨more, feed, by simp, rfl⟩
  · rcases ends with rfl | feed
    · exact .inr ⟨[], by simp, by simp⟩
    · exact absurd (List.mem_append_left _ (List.mem_of_getLast? feed)) single

/-- A part of a line stands before, within or behind lines that stand together. -/
theorem before_or_within_or_behind {front block back before part after : Text}
    (starts : front = [] ∨ front.getLast? = some '\n') (ends : back = [] ∨ block.getLast? = some '\n')
    (single : '\n' ∉ part) (some_ : part ≠ [])
    (same : front ++ block ++ back = before ++ part ++ after) :
    (∃ gap, gap.getLast? = some '\n' ∧ after = gap ++ block ++ back) ∨
      (∃ gap rest, before = front ++ gap ∧ block = gap ++ part ++ rest ∧ after = rest ++ back ∧
        (back = [] ∨ rest.getLast? = some '\n')) ∨
      ∃ gap, before = front ++ block ++ gap ∧ back = gap ++ part ++ after := by
  rw [List.append_assoc] at same
  rcases beside_of_ended starts single some_ same with ⟨gap, feed, -, rfl⟩ | ⟨gap, rfl, rest⟩
  · exact .inl ⟨gap, feed, by simp⟩
  rcases ends with rfl | ends
  · exact .inr (.inl ⟨gap, after, rfl, by simpa using rest, by simp, .inl rfl⟩)
  rcases beside_of_ended (.inr ends) single some_ rest with ⟨more, feed, within, rfl⟩ | ⟨more, rfl, behind⟩
  · exact .inr (.inl ⟨gap, more, rfl, within, rfl, .inr feed⟩)
  · exact .inr (.inr ⟨more, by simp, behind⟩)

/-- Erasing a part of other lines leaves lines standing together. -/
theorem IsBlockOf.eraseFirst {block text part : Text} (isBlock : IsBlockOf block text)
    (single : '\n' ∉ part) (some_ : part ≠ []) (included : Text.includes part text = true)
    (absent : Text.includes part block = false) : IsBlockOf block (Text.eraseFirst part text) := by
  obtain ⟨front, back, rfl, starts, ends⟩ := isBlock
  obtain ⟨before, after, same, erased⟩ := Text.exists_eraseFirst_of_includes included
  rw [erased]
  rcases before_or_within_or_behind starts ends single some_ same with
    ⟨gap, feed, rfl⟩ | ⟨gap, rest, -, rfl, -⟩ | ⟨gap, rfl, rfl⟩
  · exact ⟨before ++ gap, back, by simp, .inr (by simp [feed]), ends⟩
  · exact absurd ⟨gap, rest, rfl⟩ (Text.includes_eq_false_iff.mp absent)
  · refine ⟨front, gap ++ after, by simp, starts, ?_⟩
    rcases ends with empty | feed
    · simp_all
    · exact .inr feed

/-- What is behind a line starts with its line end. -/
theorem EndsLine.split {ending after gap rest : Text} (ends : EndsLine ending after)
    (same : ending ++ after = gap ++ rest) (feed : gap.getLast? = some '\n') :
    ∃ more, gap = ending ++ more ∧ after = more ++ rest ∧ (more = [] ∨ more.getLast? = some '\n') := by
  rcases List.append_eq_append_iff.mp same with ⟨more, rfl, rfl⟩ | ⟨more, whole, rfl⟩
  · exact ⟨more, rfl, rfl, ended_of_append (.inr feed)⟩
  -- A line end has its line feed at its end, so it does not go on behind the gap.
  · have inner : '\n' ∉ ending.dropLast := by
      rcases ends with rfl | rfl | ⟨rfl, -⟩ <;> decide
    have short : more = [] := by
      by_contra nonempty
      rw [whole, List.dropLast_append_of_ne_nil nonempty] at inner
      exact inner (List.mem_append_left _ (List.mem_of_getLast? feed))
    exact ⟨[], by simp [whole, short], by simp [short], .inl rfl⟩

private theorem mem_lines_of_endsLine {front line ending after : Text}
    (starts : front = [] ∨ front.getLast? = some '\n') (free : '\n' ∉ line) (unended : '\r' ∉ line)
    (ends : EndsLine ending after) : line ∈ lines (front ++ line ++ ending ++ after) := by
  have unreturned : line.getLast? ≠ some '\r' := fun last => unended (List.mem_of_getLast? last)
  rw [List.append_assoc, List.append_assoc, lines_append_of_ended starts, List.mem_append]
  rcases ends with rfl | rfl | ⟨rfl, rfl⟩
  · simp [lines_append_lf free unreturned]
  · simp [lines_append_crlf free]
  · simp [lines_eq_singleton free]

/-- Taking out another line leaves lines standing together. -/
theorem IsBlockOf.remove {block before line ending after : Text}
    (isBlock : IsBlockOf block (before ++ line ++ ending ++ after))
    (starts : before = [] ∨ before.getLast? = some '\n') (free : '\n' ∉ line) (unended : '\r' ∉ line)
    (some_ : line ≠ []) (ending_ : EndsLine ending after) (absent : line ∉ lines block) :
    IsBlockOf block (before ++ after) := by
  obtain ⟨front, back, same, frontEnds, blockEnds⟩ := isBlock
  rw [List.append_assoc (before ++ line)] at same
  rcases before_or_within_or_behind frontEnds blockEnds free some_ same.symm with
    ⟨gap, feed, rest⟩ | ⟨gap, rest, rfl, rfl, tail, closed⟩ | ⟨gap, rfl, rfl⟩
  · rw [List.append_assoc] at rest
    obtain ⟨more, -, rfl, closed⟩ := ending_.split rest feed
    refine ⟨before ++ more, back, by simp, ?_, blockEnds⟩
    rcases closed with rfl | feed
    · simpa using starts
    · exact .inr (by simp [feed])
  · have gapEnds := ended_of_append starts
    refine absurd ?_ absent
    rcases closed with rfl | feed
    · obtain rfl : ending ++ after = rest := by simpa using tail
      simpa using mem_lines_of_endsLine gapEnds free unended ending_
    · obtain ⟨more, rfl, rfl, -⟩ := ending_.split tail feed
      have closing : EndsLine ending more := by
        rcases ending_ with rfl | rfl | ⟨rfl, empty⟩
        · exact .inl rfl
        · exact .inr (.inl rfl)
        · exact .inr (.inr ⟨rfl, (List.append_eq_nil_iff.mp empty).1⟩)
      simpa using mem_lines_of_endsLine gapEnds free unended closing
  · refine ⟨front, gap ++ after, by simp, frontEnds, ?_⟩
    rcases blockEnds with empty | feed
    · simp_all
    · exact .inr feed

end Document

namespace Pattern

theorem Spans.append {p q : Pattern} {before front back after : Text}
    (first : p.Spans before front (back ++ after)) (second : q.Spans (front.reverse ++ before) back after) :
    (p ++ q).Spans before (front ++ back) after :=
  spans_append.mpr ⟨front, back, rfl, first, second⟩

/-- A part that is spelled any number of times is a repetition of it. -/
theorem spans_repeated_replicate {part : Text} (some_ : part ≠ []) (count : Nat) (before after : Text) :
    (repeated (exactly part)).Spans before (List.replicate count part).flatten after := by
  have long : 0 < part.length := List.length_pos_iff.mpr some_
  -- Every step passes the part once, and the bound on the steps is at least their number.
  have steps (bound : Nat) (enough : count ≤ bound) :
      (⟨(List.replicate count part).flatten.reverse ++ before, after⟩ : Cursor) ∈
        repetitions (exactly part).stops bound ⟨before, (List.replicate count part).flatten ++ after⟩ := by
    induction count generalizing bound before with
    | zero => cases bound <;> simp [repetitions]
    | succ count ih =>
      obtain ⟨bound, rfl⟩ : ∃ less, bound = less + 1 := ⟨bound - 1, by omega⟩
      rw [repetitions, List.mem_append, List.mem_flatMap]
      refine .inl ⟨⟨part.reverse ++ before, (List.replicate count part).flatten ++ after⟩, ?_, ?_⟩
      · have passed : (exactly part).Spans before part ((List.replicate count part).flatten ++ after) :=
          spans_exactly.mpr rfl
        rw [List.mem_filter, List.replicate_succ, List.flatten_cons, List.append_assoc]
        exact ⟨passed, by simpa using long⟩
      · simpa [List.replicate_succ] using ih (part.reverse ++ before) bound (by omega)
  refine steps _ ?_
  have enough : count ≤ count * part.length := Nat.le_mul_of_pos_right count long
  simp only [List.length_append, List.length_flatten, List.map_replicate, List.sum_replicate_nat]
  omega

end Pattern

namespace Java

open Pattern (spans_exactly spans_run spans_run1 spans_wordEdge spans_one spans_optional)

/-! ## Positions of a class name -/

/-- What stands around a name does not continue it as a word. -/
structure WholeWord (before after : Text) : Prop where
  front : before.getLast?.any isWord = false
  back : after.head?.any isWord = false

/-- The positions in which a name counts as a reference, by what stands before it and behind it. -/
inductive Recognised : (before after : Text) → Prop where
  | annotated (front after : Text) : Recognised (front ++ ['@']) after
  | qualified (before rest : Text) : Recognised before ('.' :: rest)
  | constructed {front gap : Text} (after : Text) (apart : front.getLast?.any isWord = false)
      (some_ : gap ≠ []) (blank : ∀ c ∈ gap, isBlank c = true) :
      Recognised (front ++ "new".toList ++ gap) after
  | declared {gap arguments blanks : Text} {first : Char} (before rest : Text) (brackets : Nat)
      (gapBlank : ∀ c ∈ gap, isBlank c = true)
      (typed : arguments = [] ∨ ∃ inside, arguments = ['<'] ++ inside ++ ['>'] ∧
        ∀ c ∈ inside, c ∉ [';', '\x7b', '(', ')'])
      (some_ : blanks ≠ []) (blank : ∀ c ∈ blanks, isBlank c = true) (named : isWord first = true) :
      Recognised before
        (gap ++ arguments ++ (List.replicate brackets "[]".toList).flatten ++ blanks ++ first :: rest)
  | argument {mark : Char} (front rest : Text) (closes : mark = '>' ∨ mark = ',') :
      Recognised (front ++ ['<']) (mark :: rest)
  | parenthesised (front after : Text) : Recognised (front ++ ['(']) after
  | extended {gap : Text} (front after : Text) (some_ : gap ≠ []) (blank : ∀ c ∈ gap, isBlank c = true) :
      Recognised (front ++ "extends".toList ++ gap) after
  | listed {word gap others : Text} (front after : Text)
      (lists : word = "throws".toList ∨ word = "implements".toList) (some_ : gap ≠ [])
      (blank : ∀ c ∈ gap, isBlank c = true) (single : '\n' ∉ others) :
      Recognised (front ++ word ++ gap ++ others) after

/-- Text in front keeps its distance from a word when it is empty or ends with a line. -/
theorem apart_append {front before : Text} (ended : front = [] ∨ front.getLast? = some '\n')
    (apart : before.getLast?.any isWord = false) : (front ++ before).getLast?.any isWord = false := by
  by_cases nonempty : before = []
  · rcases ended with rfl | feed
    · simp [nonempty]
    · rw [nonempty, List.append_nil, feed]
      decide
  · rwa [List.getLast?_append_of_ne_nil _ nonempty]

/-- A position stays what it is when lines are put around it. -/
theorem Recognised.widen {front before after : Text} (recognised : Recognised before after)
    (ended : front = [] ∨ front.getLast? = some '\n') (back : Text) :
    Recognised (front ++ before) (after ++ back) := by
  cases recognised with
  | annotated => simpa using annotated (front ++ _) (after ++ back)
  | qualified => exact qualified _ _
  | constructed _ apart some_ blank =>
    simpa using constructed (after ++ back) (apart_append ended apart) some_ blank
  | declared _ rest brackets gapBlank typed some_ blank named =>
    simpa using declared (front ++ before) (rest ++ back) brackets gapBlank typed some_ blank named
  | argument inner rest closes => simpa using argument (front ++ inner) (rest ++ back) closes
  | parenthesised => simpa using parenthesised (front ++ _) (after ++ back)
  | extended inner _ some_ blank => simpa using extended (front ++ inner) (after ++ back) some_ blank
  | listed inner _ lists some_ blank single =>
    simpa using listed (front ++ inner) (after ++ back) lists some_ blank single

section Names

variable {name : Text} (some_ : name ≠ []) (word : ∀ c ∈ name, isWord c = true)

include some_ word

private theorem atWordEdge_ahead {before : Text} (apart : before.getLast?.any isWord = false) (rest : Text) :
    (⟨before.reverse, name ++ rest⟩ : Cursor).atWordEdge = true := by
  obtain ⟨first, others, rfl⟩ := List.exists_cons_of_ne_nil some_
  have starts : isWord first = true := word first (by simp)
  simp [Cursor.atWordEdge, apart, starts]

private theorem atWordEdge_past {after : Text} (apart : after.head?.any isWord = false) (before : Text) :
    (⟨name.reverse ++ before, after⟩ : Cursor).atWordEdge = true := by
  have ends : name.getLast? = some (name.getLast some_) := List.getLast?_eq_getLast_of_ne_nil some_
  exact (ReadOnly.atWordEdge_behind ends (word _ (List.getLast_mem some_))).mpr apart

/-- A class that stands in one of the positions counts as used. -/
theorem isUsed_of_recognised {before after : Text} (whole : WholeWord before after)
    (recognised : Recognised before after) : isUsed name (before ++ name ++ after) = true := by
  have used {p : Pattern} {front mid rest : Text} (member : p ∈ usagePatterns name)
      (same : before ++ name ++ after = front ++ mid ++ rest) (spans : p.Spans front.reverse mid rest) :
      isUsed name (before ++ name ++ after) = true :=
    List.any_eq_true.mpr ⟨p, member, Pattern.occursIn_iff.mpr ⟨front, mid, rest, same, spans⟩⟩
  have spelled {front rest : Text} : (Pattern.exactly name).Spans front name rest := spans_exactly.mpr rfl
  have ahead (rest : Text) : Pattern.wordEdge.Spans before.reverse [] (name ++ rest) :=
    spans_wordEdge.mpr ⟨rfl, atWordEdge_ahead some_ word whole.front rest⟩
  have past (front : Text) : Pattern.wordEdge.Spans (name.reverse ++ front) [] after :=
    spans_wordEdge.mpr ⟨rfl, atWordEdge_past some_ word whole.back front⟩
  cases recognised with
  | annotated front =>
    refine @used ("@" ++ .exactly name ++ .wordEdge) front ("@".toList ++ name ++ []) after
      (by simp [usagePatterns]) (by simp) ?_
    exact ((spans_exactly.mpr rfl).append spelled).append (by simpa using past _)
  | qualified _ rest =>
    refine @used (.wordEdge ++ .exactly name ++ ".") before ([] ++ name ++ ".".toList) rest
      (by simp [usagePatterns]) (by simp) ?_
    exact ((ahead _).append spelled).append (spans_exactly.mpr rfl)
  | @constructed front gap _ apart nonempty blank =>
    have edge (rest : Text) : Pattern.wordEdge.Spans front.reverse [] ("new".toList ++ rest) :=
      spans_wordEdge.mpr ⟨rfl, atWordEdge_ahead (by decide) (List.all_eq_true.mp (by decide)) apart rest⟩
    refine @used (.wordEdge ++ "new" ++ .blanks1 ++ .exactly name ++ .wordEdge) front
      ([] ++ "new".toList ++ gap ++ name ++ []) after (by simp [usagePatterns]) (by simp) ?_
    refine ((((edge _).append (spans_exactly.mpr rfl)).append ?_).append spelled).append (by simpa using past _)
    exact spans_run1.mpr ⟨nonempty, blank⟩
  | @declared gap arguments blanks first _ rest brackets gapBlank typed nonempty blank named =>
    refine @used (.wordEdge ++ .exactly name ++ .blanks ++
        ("<" ++ .run (fun c => c != ';' && c != '\x7b' && c != '(' && c != ')') ++ ">" : Pattern).optional ++
        .repeated "[]" ++ .blanks1 ++ .run1 isWord) before
      ([] ++ name ++ gap ++ arguments ++ (List.replicate brackets "[]".toList).flatten ++ blanks ++ [first])
      rest (by simp [usagePatterns]) (by simp) ?_
    refine (((((((ahead _).append spelled).append (spans_run.mpr gapBlank)).append ?_).append
      (Pattern.spans_repeated_replicate (by decide) brackets _ _)).append
      (spans_run1.mpr ⟨nonempty, blank⟩)).append (spans_run1.mpr ⟨by simp, by simpa using named⟩))
    refine spans_optional.mpr ?_
    rcases typed with rfl | ⟨inside, rfl, allowed⟩
    · exact .inr rfl
    · refine .inl (((spans_exactly.mpr rfl).append (spans_run.mpr ?_)).append (spans_exactly.mpr rfl))
      intro c member
      simpa [and_assoc] using allowed c member
  | @argument mark inner rest closes =>
    refine @used ("<" ++ .exactly name ++ .one (fun c => c == '>' || c == ',')) inner
      ("<".toList ++ name ++ [mark]) rest (by simp [usagePatterns]) (by simp) ?_
    exact ((spans_exactly.mpr rfl).append spelled).append (spans_one.mpr ⟨mark, by simpa using closes, rfl⟩)
  | parenthesised front =>
    refine @used ("(" ++ .exactly name ++ .wordEdge) front ("(".toList ++ name ++ []) after
      (by simp [usagePatterns]) (by simp) ?_
    exact ((spans_exactly.mpr rfl).append spelled).append (by simpa using past _)
  | @extended gap front _ nonempty blank =>
    refine @used ("extends" ++ .blanks1 ++ .exactly name ++ .wordEdge) front
      ("extends".toList ++ gap ++ name ++ []) after (by simp [usagePatterns]) (by simp) ?_
    exact (((spans_exactly.mpr rfl).append (spans_run1.mpr ⟨nonempty, blank⟩)).append spelled).append
      (by simpa using past _)
  | @listed clause gap others front _ lists nonempty blank single =>
    refine @used (.exactly clause ++ .blanks1 ++ .withinLine ++ .wordEdge ++ .exactly name ++ .wordEdge) front
      (clause ++ gap ++ others ++ [] ++ name ++ []) after ?_ (by simp) ?_
    · rcases lists with rfl | rfl <;> simp [usagePatterns]
    · have within : Pattern.withinLine.Spans ((clause ++ gap).reverse ++ front.reverse) others
          ([] ++ (name ++ ([] ++ after))) := by
        refine spans_run.mpr fun c member => bne_iff_ne.mpr ?_
        rintro rfl
        exact single member
      refine (((((spans_exactly.mpr rfl).append (spans_run1.mpr ⟨nonempty, blank⟩)).append within).append
        ?_).append spelled).append (by simpa using past _)
      simpa using ahead after

/-- So does one that does within lines of a text. -/
theorem isUsed_of_isBlockOf {before after text : Text}
    (isBlock : Document.IsBlockOf (before ++ name ++ after) text) (whole : WholeWord before after)
    (recognised : Recognised before after) : isUsed name text = true := by
  obtain ⟨front, back, rfl, starts, ends⟩ := isBlock
  have wide : WholeWord (front ++ before) (after ++ back) := by
    refine ⟨apart_append starts whole.front, ?_⟩
    cases after with
    | cons c after => exact whole.back
    | nil =>
      rcases ends with rfl | feed
      · rfl
      · rw [List.append_nil, List.getLast?_append_of_ne_nil _ some_] at feed
        exact absurd (word '\n' (List.mem_of_getLast? feed)) (by decide)
  simpa using isUsed_of_recognised some_ word wide (recognised.widen starts back)

end Names

/-! ## The imports that pruning takes out -/

/-- A line that consists of the import occurs less often in the second text than in the first. -/
def Deletes (statement text rest : Text) : Prop :=
  ∃ line, IsImportLine statement line ∧ (Document.lines rest).count line < (Document.lines text).count line

theorem IsImportLine.within {statement line : Text} (imports : IsImportLine statement line) :
    statement <:+: line := by
  obtain ⟨front, back, -, -, rfl⟩ := imports
  exact ⟨front, back, rfl⟩

/-- An import without blanks at its ends is read off its line. -/
theorem IsImportLine.dropWhile {statement line : Text} (imports : IsImportLine statement line)
    (starts : statement.head?.any isBlankOrTab = false) (ends : statement.getLast?.any isBlankOrTab = false)
    (some_ : statement ≠ []) :
    ((line.dropWhile isBlankOrTab).reverse.dropWhile isBlankOrTab).reverse = statement := by
  obtain ⟨front, back, blankFront, blankBack, rfl⟩ := imports
  have behind {blanks inner : Text} (blank : ∀ c ∈ blanks, isBlankOrTab c = true)
      (visible : inner.head?.any isBlankOrTab = false) : (blanks ++ inner).dropWhile isBlankOrTab = inner := by
    rw [List.dropWhile_append_of_pos blank]
    cases inner with
    | nil => rfl
    | cons c inner => exact List.dropWhile_cons_of_neg (by simpa using visible)
  have visible : (statement ++ back).head?.any isBlankOrTab = false := by
    rwa [List.head?_append_of_ne_nil _ some_]
  rw [List.append_assoc, behind blankFront visible, List.reverse_append,
    behind (by simpa using blankBack) (by simpa using ends), List.reverse_reverse]

/-- What is needed of a candidate: it starts and ends visibly, and the class that it imports is a word. -/
structure IsClassImport (statement : Text) : Prop where
  plain : IsPlainImport statement
  some_ : statement ≠ []
  starts : statement.head?.any isBlankOrTab = false
  ends : statement.getLast?.any isBlankOrTab = false
  named : importClassName statement ≠ []
  word : ∀ c ∈ importClassName statement, isWord c = true

set_option maxRecDepth 4000 in
private theorem isClassImport_of_mem_resourceImports :
    ∀ statement ∈ resourceImports, IsClassImport statement := by
  have spelled : (resourceImports.all fun statement =>
      !statement.isEmpty && !statement.head?.any isBlankOrTab && !statement.getLast?.any isBlankOrTab &&
        !(importClassName statement).isEmpty && (importClassName statement).all isWord) = true := by
    unfold resourceImports
    repeat rw [String.toList_ofList]
    decide +kernel
  intro statement candidate
  have checked := List.all_eq_true.mp spelled statement candidate
  simp only [Bool.and_eq_true, Bool.not_eq_true', List.isEmpty_eq_false_iff, List.all_eq_true] at checked
  obtain ⟨⟨⟨⟨some_, starts⟩, ends⟩, named⟩, word⟩ := checked
  exact ⟨isPlainImport_of_mem_resourceImports statement candidate, some_, starts, ends, named, word⟩

/-- A line is the import of one candidate. -/
theorem IsImportLine.unique {first second line : Text} (isFirst : IsImportLine first line)
    (isSecond : IsImportLine second line) (one : IsClassImport first) (other : IsClassImport second) :
    first = second := by
  rw [← isFirst.dropWhile one.starts one.ends one.some_,
    ← isSecond.dropWhile other.starts other.ends other.some_]

/-- Taking out an import keeps together the lines among which it is not. -/
theorem isBlockOf_of_eraseFirst? {statement block text rest : Text} (plain : IsPlainImport statement)
    (some_ : statement ≠ []) (isBlock : Document.IsBlockOf block text)
    (erased : (importLine statement).eraseFirst? text = some rest)
    (free : ∀ line ∈ Document.lines block, ¬ IsImportLine statement line) :
    Document.IsBlockOf block rest := by
  obtain ⟨found, first, rfl⟩ := Option.map_eq_some_iff.mp erased
  obtain ⟨mid, whole, -, spans⟩ := Pattern.exists_spans_of_find?_eq_some first
  obtain ⟨start, line, ending, imports, rfl, ends⟩ := exists_line_of_spans_importLine spans
  rw [whole, ← List.append_assoc] at isBlock
  have outside {c : Char} (visible : isBlankOrTab c = false) (absent : c ∉ statement) : c ∉ line := by
    intro member
    obtain blank | inside := imports.mem member
    · simp [visible] at blank
    · exact absent inside
  refine isBlock.remove (by simpa using start) (outside (by decide) plain.single.1)
    (outside (by decide) plain.single.2) ?_ ends fun member => free line member imports
  obtain ⟨front, back, -, -, rfl⟩ := imports
  simp [some_]

/-- Taking out an import keeps all other lines. -/
theorem count_le_of_eraseFirst? {statement text rest line : Text} (plain : IsPlainImport statement)
    (erased : (importLine statement).eraseFirst? text = some rest)
    (other : ¬ IsImportLine statement line) :
    (Document.lines text).count line ≤ (Document.lines rest).count line := by
  obtain ⟨front, gone, back, imports, cut, left⟩ := exists_lines_of_eraseFirst? plain.single erased
  have apart : gone ≠ line := by
    rintro rfl
    exact other imports
  rw [cut, List.count_append, List.count_cons_of_ne apart]
  rcases left with same | ⟨rfl, same⟩
  · exact Nat.le_of_eq (by rw [same, List.count_append])
  · rw [same, List.count_append]
    simp

/-- An import whose class stands in one of the positions, in lines that do not spell the import, is
not idle. -/
theorem not_idle_of_recognised {statement before after text : Text} (fits : IsClassImport statement)
    (isBlock : Document.IsBlockOf (before ++ importClassName statement ++ after) text)
    (unspelled : Text.includes statement (before ++ importClassName statement ++ after) = false)
    (whole : WholeWord before after) (recognised : Recognised before after) :
    ¬ Idle statement text := by
  rintro ⟨included, unused, -⟩
  have stands := isBlock.eraseFirst fits.plain.single.1 fits.some_ included unspelled
  rw [isUsed_of_isBlockOf fits.named fits.word stands whole recognised] at unused
  cases unused

/-- Pruning takes no import out whose class stands, as a whole word, in one of the nine positions
within lines that stand together and stay: no candidate is among these lines, and the import itself
is not spelled in them. -/
theorem deleted_import_unrecognised {statement : Text} (candidate : statement ∈ resourceImports)
    (asked : AskedNames) {text : Text}
    (deleted : Deletes statement text (pruneImports resourceImports asked text).1.text)
    {block : Text} (isBlock : Document.IsBlockOf block text)
    (free : ∀ other ∈ resourceImports, ∀ line ∈ Document.lines block, ¬ IsImportLine other line)
    (unspelled : Text.includes statement block = false) :
    Document.IsBlockOf block (pruneImports resourceImports asked text).1.text ∧
      ∀ before after, block = before ++ importClassName statement ++ after → WholeWord before after →
        ¬ Recognised before after := by
  have fits := isClassImport_of_mem_resourceImports
  have step {other text rest : Text} (member : other ∈ resourceImports)
      (isBlock : Document.IsBlockOf block text)
      (erased : (importLine other).eraseFirst? text = some rest) : Document.IsBlockOf block rest :=
    isBlockOf_of_eraseFirst? (fits other member).plain (fits other member).some_ isBlock erased
      (free other member)
  refine ⟨pruneImports_induction
    (fun _ member _ _ isBlock _ erased => step member isBlock erased) isBlock asked, ?_⟩
  rintro before after rfl whole recognised
  obtain ⟨line, imports, fewer⟩ := deleted
  -- As long as the lines stand together the import is not idle, so no line that consists of it goes.
  have kept := @pruneImports_induction resourceImports
    (fun later => Document.IsBlockOf (before ++ importClassName statement ++ after) later ∧
      (Document.lines text).count line ≤ (Document.lines later).count line) ?_ text
    ⟨isBlock, Nat.le_refl _⟩ asked
  · omega
  · rintro other member later rest ⟨isBlock, counted⟩ idle erased
    refine ⟨step member isBlock erased, Nat.le_trans counted ?_⟩
    refine count_le_of_eraseFirst? (fits other member).plain erased fun isOther => ?_
    obtain rfl := imports.unique isOther (fits _ candidate) (fits _ member)
    exact not_idle_of_recognised (fits _ candidate) isBlock unspelled whole recognised idle

/-- What stands behind the import of a class that is the second of two type arguments. -/
def secondArgumentBody : Text :=
  "import java.util.Map;\n\nclass A \x7b\n  Map<String, URI> m;\n\x7d\n".toList

/-- A class that is the second of two type arguments, and its import. -/
def secondArgument : Text := "import java.net.URI;\n".toList ++ secondArgumentBody

set_option maxRecDepth 4000 in
private theorem pruneImports_secondArgument :
    (pruneImports resourceImports [] secondArgument).1.text = secondArgumentBody := by
  unfold resourceImports secondArgument secondArgumentBody
  repeat rw [String.toList_ofList]
  decide +kernel

private theorem deletes_secondArgument :
    Deletes "import java.net.URI;".toList secondArgument
      (pruneImports resourceImports [] secondArgument).1.text := by
  rw [pruneImports_secondArgument]
  exact ⟨"import java.net.URI;".toList, ⟨[], [], by simp, by simp, by simp⟩, by decide +kernel⟩

/-- The text before the second argument, and the text behind it. -/
theorem secondArgumentBody_eq :
    secondArgumentBody = "import java.util.Map;\n\nclass A \x7b\n  Map<String, ".toList ++
      importClassName "import java.net.URI;".toList ++ "> m;\n\x7d\n".toList := by
  decide +kernel

set_option maxRecDepth 4000 in
theorem secondArgument_unrecognised :
    Deletes "import java.net.URI;".toList secondArgument
        (pruneImports resourceImports [] secondArgument).1.text ∧
      Document.IsBlockOf secondArgumentBody (pruneImports resourceImports [] secondArgument).1.text ∧
      ¬ Recognised "import java.util.Map;\n\nclass A \x7b\n  Map<String, ".toList "> m;\n\x7d\n".toList := by
  have absent : ∀ other ∈ resourceImports, Text.includes other secondArgumentBody = false := by
    unfold resourceImports secondArgumentBody
    repeat rw [String.toList_ofList]
    decide +kernel
  have candidate : "import java.net.URI;".toList ∈ resourceImports := by
    unfold resourceImports
    repeat rw [String.toList_ofList]
    decide +kernel
  obtain ⟨stays, unrecognised⟩ := deleted_import_unrecognised candidate [] deletes_secondArgument
    ⟨"import java.net.URI;\n".toList, [], (List.append_nil _).symm, .inr (by decide +kernel), .inl rfl⟩
    (fun other member line inside imports => Text.includes_eq_false_iff.mp (absent other member)
      (imports.within.trans (Document.isRow_of_mem_lines inside).within))
    (absent _ candidate)
  exact ⟨deletes_secondArgument, stays, unrecognised _ _ secondArgumentBody_eq ⟨by decide +kernel, by decide +kernel⟩⟩

/-! ## References in the code -/

/-- How the text at a place is read.  Behind a slash a comment may start, behind an asterisk it may
end, and behind a backslash a quote is part of its literal. -/
inductive Lexing where
  | code
  | slash
  | lineComment
  | blockComment
  | asterisk
  | literal (quote : Char)
  | escape (quote : Char)

namespace Lexing

def inCode (c : Char) : Lexing :=
  if c = '/' then .slash else if c = '"' ∨ c = '\'' then .literal c else .code

/-- How the text is read behind one more character.  A literal ends with its line at the latest. -/
def step : Lexing → Char → Lexing
  | .code, c => inCode c
  | .slash, c => if c = '/' then .lineComment else if c = '*' then .blockComment else inCode c
  | .lineComment, c => if c = '\n' then .code else .lineComment
  | .blockComment, c => if c = '*' then .asterisk else .blockComment
  | .asterisk, c => if c = '/' then .code else if c = '*' then .asterisk else .blockComment
  | .literal quote, c =>
    if c = '\\' then .escape quote else if c = quote ∨ c = '\n' then .code else .literal quote
  | .escape quote, _ => .literal quote

/-- Whether a name that starts here is in the code. -/
def isCode : Lexing → Bool
  | .code | .slash => true
  | _ => false

end Lexing

/-- Whether a place, given by what stands before it, is on a line that starts with a word. -/
def onLineOf (word before : Text) : Bool :=
  let line := (before.reverse.takeWhile (· != '\n')).reverse
  (Text.after? word (Text.trimStart line)).any fun rest => !rest.head?.any isWord

/-- A name occurs in a text as a whole word outside comments, literals and the lines of imports and
packages. -/
def Mentions (name text : Text) : Prop :=
  ∃ before after, text = before ++ name ++ after ∧ WholeWord before after ∧
    (before.foldl Lexing.step .code).isCode = true ∧ onLineOf "import".toList before = false ∧
    onLineOf "package".toList before = false

/-- A class may be mentioned in the code after pruning has taken its import out. -/
theorem deleted_import_mentioned :
    Deletes "import java.net.URI;".toList secondArgument
        (pruneImports resourceImports [] secondArgument).1.text ∧
      Mentions (importClassName "import java.net.URI;".toList)
        (pruneImports resourceImports [] secondArgument).1.text := by
  refine ⟨deletes_secondArgument, ?_⟩
  rw [pruneImports_secondArgument]
  exact ⟨_, _, secondArgumentBody_eq, ⟨by decide +kernel, by decide +kernel⟩, by decide +kernel, by decide +kernel,
    by decide +kernel⟩

end Java

end ReadOnlyViews
