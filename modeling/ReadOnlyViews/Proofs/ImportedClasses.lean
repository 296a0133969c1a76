import ReadOnlyViews.Proofs.DroppedRows
import ReadOnlyViews.Proofs.ImportReferences

/-!
The class that an import names, and where a text uses it.  The name is the last one before the
semicolon.  A text that uses a class has its name as a whole word, in one of the positions that keep
an import; a word never runs over the end of a line.
-/

namespace ReadOnlyViews

namespace Pattern

/-- A repetition of a part spells it a number of times. -/
theorem exists_replicate_of_spans {part before mid after : Text}
    (spans : (repeated (exactly part)).Spans before mid after) :
    ∃ count, mid = (List.replicate count part).flatten := by
  have steps (bound : Nat) {place stop : Cursor}
      (member : stop ∈ repetitions (exactly part).stops bound place) :
      ∃ count, place.after = (List.replicate count part).flatten ++ stop.after := by
    induction bound generalizing place with
    | zero =>
      obtain rfl : stop = place := by simpa [repetitions] using member
      exact ⟨0, rfl⟩
    | succ bound ih =>
      rw [repetitions, List.mem_append, List.mem_flatMap] at member
      rcases member with ⟨next, stepped, rest⟩ | here
      · obtain ⟨passed, -⟩ := Cursor.past?_eq_some_iff.mp (Option.mem_toList.mp (List.mem_filter.mp stepped).1)
        obtain ⟨count, further⟩ := ih rest
        exact ⟨count + 1, by rw [passed, further, List.replicate_succ]; simp⟩
      · obtain rfl := List.mem_singleton.mp here
        exact ⟨0, rfl⟩
  obtain ⟨count, same⟩ := steps _ spans
  exact ⟨count, List.append_cancel_right same⟩

end Pattern

namespace Probe

/-- The first match of a probe is its lead, the target and its tail in a row. -/
theorem exists_spans_of_find?_eq_some {probe : Probe} {text : Text} {found : Stretch}
    (first : probe.find? text = some found) :
    ∃ before lead tail after, text = before ++ lead ++ found.text ++ tail ++ after ∧
      probe.lead.Spans before.reverse lead (found.text ++ tail ++ after) ∧
      probe.target.Spans (before ++ lead).reverse found.text (tail ++ after) ∧
      probe.tail.Spans (before ++ lead ++ found.text).reverse tail after := by
  obtain ⟨front, rest, rfl, there⟩ := Cursor.exists_of_scan_eq_some first
  obtain ⟨start, leads, inside⟩ := List.exists_of_findSome?_eq_some there
  obtain ⟨stop, matched, ended⟩ := List.exists_of_findSome?_eq_some inside
  split at ended
  · next tails =>
    obtain rfl := Option.some.inj ended
    obtain ⟨lead, leadAfter, leadBefore, leadSpans⟩ := Pattern.exists_spans_of_mem_stops leads
    obtain ⟨mid, midAfter, midBefore, midSpans⟩ := Pattern.exists_spans_of_mem_stops matched
    obtain ⟨last, others, listed⟩ :=
      List.exists_cons_of_ne_nil (by simpa [Pattern.startsAt] using tails : probe.tail.stops stop ≠ [])
    have member : last ∈ probe.tail.stops stop := by simp [listed]
    obtain ⟨tail, tailAfter, -, tailSpans⟩ := Pattern.exists_spans_of_mem_stops member
    have named : Stretch.text ⟨start, stop⟩ = mid := by
      simp [Stretch.text, Cursor.offset, midBefore, midAfter]
    simp only [List.append_nil] at leadAfter leadBefore leadSpans
    rw [leadBefore] at midBefore midSpans
    rw [midBefore] at tailSpans
    rw [named]
    refine ⟨front, lead, tail, last.after, ?_, ?_, ?_, ?_⟩
    · simp [leadAfter, midAfter, tailAfter]
    · simpa [midAfter, tailAfter] using leadSpans
    · simpa [tailAfter] using midSpans
    · simpa using tailSpans
  · cases ended

/-- A lead, a target and a tail in a row are found. -/
theorem isSome_find? {probe : Probe} {before lead mid tail after : Text}
    (leads : probe.lead.Spans before.reverse lead (mid ++ tail ++ after))
    (matched : probe.target.Spans (before ++ lead).reverse mid (tail ++ after))
    (tails : probe.tail.Spans (before ++ lead ++ mid).reverse tail after) :
    (probe.find? (before ++ lead ++ mid ++ tail ++ after)).isSome = true := by
  rw [find?, List.append_assoc, List.append_assoc, List.append_assoc]
  refine Cursor.isSome_scan ?_
  rw [List.append_nil, stretchAt?, List.findSome?_isSome_iff]
  refine ⟨⟨lead.reverse ++ before.reverse, mid ++ tail ++ after⟩, by simpa [Pattern.Spans] using leads, ?_⟩
  rw [List.findSome?_isSome_iff]
  refine ⟨⟨mid.reverse ++ (lead.reverse ++ before.reverse), tail ++ after⟩,
    by simpa [Pattern.Spans] using matched, ?_⟩
  have starts : probe.tail.startsAt ⟨mid.reverse ++ (lead.reverse ++ before.reverse), tail ++ after⟩ = true := by
    have some_ := List.ne_nil_of_mem tails
    simpa [Pattern.startsAt] using some_
  rw [if_pos starts]
  rfl

end Probe

namespace Java

/-! ## The class that an import names -/

/-- A statement ends with a point, the name of a class and a semicolon, blanks aside. -/
inductive ImportsClass : (statement name : Text) → Prop where
  | intro {first : Char} {others gap back : Text} (front : Text)
      (starts : first.isAlpha = true ∨ first = '_') (word : ∀ c ∈ others, isWord c = true)
      (gapBlank : ∀ c ∈ gap, isBlank c = true) (backBlank : ∀ c ∈ back, isBlank c = true) :
      ImportsClass (front ++ ['.'] ++ (first :: others) ++ (gap ++ [';'] ++ back)) (first :: others)

namespace ImportsClass

variable {statement name other : Text}

theorem ne_nil (imports : ImportsClass statement name) : name ≠ [] := by
  cases imports
  exact List.cons_ne_nil _ _

theorem isWord_of_mem (imports : ImportsClass statement name) : ∀ c ∈ name, isWord c = true := by
  cases imports with
  | intro front starts word =>
    intro c member
    rcases List.mem_cons.mp member with rfl | later
    · rcases starts with letter | rfl
      · simp [isWord, Char.isAlphanum, letter]
      · decide
    · exact word c later

theorem statement_ne_nil (imports : ImportsClass statement name) : statement ≠ [] := by
  cases imports
  simp

/-- Nothing but blanks follows the semicolon. -/
theorem exists_semicolon (imports : ImportsClass statement name) :
    ∃ middle tail, (∀ c ∈ tail, isBlank c = true) ∧ statement = middle ++ ';' :: tail := by
  cases imports with
  | @intro first others gap back front _ _ _ backBlank =>
    exact ⟨front ++ ['.'] ++ (first :: others) ++ gap, back, backBlank, by simp⟩

/-- The name is read off the statement from its end. -/
theorem eq_takeWhile (imports : ImportsClass statement name) :
    name = ((((statement.reverse.dropWhile isBlank).drop 1).dropWhile isBlank).takeWhile isWord).reverse := by
  have words := imports.isWord_of_mem
  cases imports with
  | @intro first others gap back front starts word gapBlank backBlank =>
    generalize spelled : first :: others = name at words
    have some_ : name.reverse ≠ [] := by simp [← spelled]
    obtain ⟨last, more, turned⟩ := List.exists_cons_of_ne_nil some_
    have visible : isBlank last = false := by
      by_contra blank
      have last_ : isWord last = true := words last (List.mem_reverse.mp (by simp [turned]))
      rw [isWord_of_isBlank (by simpa using blank)] at last_
      cases last_
    have wordy : ∀ c ∈ name.reverse, isWord c = true := fun c member => words c (List.mem_reverse.mp member)
    have cut : (front ++ ['.'] ++ name ++ (gap ++ [';'] ++ back)).reverse =
        back.reverse ++ ';' :: (gap.reverse ++ (name.reverse ++ '.' :: front.reverse)) := by simp
    have gapTurned : ∀ c ∈ gap.reverse, isBlank c = true := fun c member => gapBlank c (List.mem_reverse.mp member)
    have backTurned : ∀ c ∈ back.reverse, isBlank c = true := fun c member => backBlank c (List.mem_reverse.mp member)
    have stops : isBlank ';' = false := by decide
    have point : isWord '.' = false := by decide
    rw [cut, List.dropWhile_append_of_pos backTurned, List.dropWhile_cons_of_neg (by simp [stops]),
      List.drop_one, List.tail_cons, List.dropWhile_append_of_pos gapTurned]
    have behind : (name.reverse ++ '.' :: front.reverse).dropWhile isBlank = name.reverse ++ '.' :: front.reverse := by
      rw [turned, List.cons_append, List.dropWhile_cons_of_neg (by simp [visible])]
    rw [behind, List.takeWhile_append_of_pos wordy, List.takeWhile_cons_of_neg (by simp [point]), List.append_nil,
      List.reverse_reverse]

theorem unique (first : ImportsClass statement name) (second : ImportsClass statement other) : name = other :=
  first.eq_takeWhile.trans second.eq_takeWhile.symm

end ImportsClass

private theorem importsClass_of_find? {statement : Text} {found : Stretch}
    (first : importedClass.find? statement = some found) : ImportsClass statement found.text := by
  obtain ⟨before, lead, tail, after, same, leads, matched, tails⟩ := Probe.exists_spans_of_find?_eq_some first
  simp only [importedClass, Pattern.blanks, Pattern.spans_append, Pattern.spans_exactly, Pattern.spans_one,
    Pattern.spans_run, Pattern.spans_lastLineEnd] at leads matched tails
  obtain ⟨_, others, named, ⟨c, starts, rfl⟩, word⟩ := matched
  obtain ⟨_, _, rfl, ⟨_, back, rfl, ⟨gap, _, rfl, gapBlank, rfl⟩, backBlank⟩, rfl, ends⟩ := tails
  -- A line feed that the end of the statement passes over is one more blank.
  have behind : ∀ d ∈ back ++ after, isBlank d = true := by
    intro d member
    rcases List.mem_append.mp member with inBack | inAfter
    · exact backBlank d inBack
    · rcases ends with rfl | rfl
      · cases inAfter
      · obtain rfl := List.mem_singleton.mp inAfter
        decide
  have built := ImportsClass.intro before (by simpa using starts) word gapBlank behind
  rw [named]
  rw [same, leads, named]
  simpa using built

/-- The class that is found in a statement is the class that it imports. -/
theorem importClassName_eq_iff {statement name : Text} (some_ : name ≠ []) :
    importClassName statement = name ↔ ImportsClass statement name := by
  constructor
  · rintro rfl
    rw [importClassName] at some_ ⊢
    split at some_ <;> rename_i answer
    · exact importsClass_of_find? answer
    · exact absurd rfl some_
  · intro imports
    have found : (importedClass.find? statement).isSome = true := by
      cases imports with
      | @intro first others gap back front starts word gapBlank backBlank =>
        rw [← List.append_nil (front ++ ['.'] ++ (first :: others) ++ (gap ++ [';'] ++ back))]
        refine @Probe.isSome_find? importedClass front ['.'] (first :: others) _ []
          (Pattern.spans_exactly.mpr rfl) ?_ ?_
        · refine Pattern.spans_append.mpr ⟨[first], others, rfl, ?_, Pattern.spans_run.mpr word⟩
          exact Pattern.spans_one.mpr ⟨first, by simpa using starts, rfl⟩
        · simp only [importedClass, Pattern.blanks, Pattern.spans_append, Pattern.spans_exactly, Pattern.spans_run,
            Pattern.spans_lastLineEnd]
          exact ⟨_, [], (List.append_nil _).symm, ⟨_, back, rfl, ⟨gap, _, rfl, gapBlank, rfl⟩, backBlank⟩,
            rfl, by simp⟩
    obtain ⟨stretch, first⟩ := Option.isSome_iff_exists.mp found
    have named : importClassName statement = stretch.text := by rw [importClassName, first]
    rw [named]
    exact (importsClass_of_find? first).unique imports

/-! ## The positions in which a class counts as used -/

open Pattern (Spans spans_append spans_exactly spans_run spans_run1 spans_wordEdge spans_one spans_optional)

section Names

variable {name : Text} (some_ : name ≠ []) (word : ∀ c ∈ name, isWord c = true)

include some_ word

private theorem atWordEdge_ahead_iff {before rest : Text} :
    (⟨before.reverse, name ++ rest⟩ : Cursor).atWordEdge = true ↔ before.getLast?.any isWord = false := by
  obtain ⟨first, others, rfl⟩ := List.exists_cons_of_ne_nil some_
  have starts : isWord first = true := word first (by simp)
  simp [Cursor.atWordEdge, starts]

private theorem atWordEdge_past_iff {before after : Text} :
    (⟨name.reverse ++ before, after⟩ : Cursor).atWordEdge = true ↔ after.head?.any isWord = false :=
  ReadOnly.atWordEdge_behind (List.getLast?_eq_getLast_of_ne_nil some_) (word _ (List.getLast_mem some_))

omit some_ word in
private theorem last_apart {front gap : Text} (nonempty : gap ≠ []) (blank : ∀ c ∈ gap, isBlank c = true) :
    (front ++ gap).getLast?.any isWord = false := by
  rw [List.getLast?_append_of_ne_nil _ nonempty, List.getLast?_eq_getLast_of_ne_nil nonempty]
  exact isWord_of_isBlank (blank _ (List.getLast_mem nonempty))

omit some_ word in
/-- What a declaration has between the class and the name does not continue the class as a word. -/
theorem head?_apart {gap arguments blanks tail : Text} {brackets : Nat} (gapBlank : ∀ c ∈ gap, isBlank c = true)
    (typed : arguments = [] ∨ ∃ inside, arguments = ['<'] ++ inside ++ ['>'] ∧
      ∀ c ∈ inside, c ∉ [';', '\x7b', '(', ')'])
    (nonempty : blanks ≠ []) (blank : ∀ c ∈ blanks, isBlank c = true) :
    (gap ++ arguments ++ (List.replicate brackets "[]".toList).flatten ++ blanks ++ tail).head?.any isWord = false := by
  cases gap with
  | cons c gap => exact isWord_of_isBlank (gapBlank c (by simp))
  | nil =>
    rcases typed with rfl | ⟨inside, rfl, -⟩
    · cases brackets with
      | succ brackets => exact (by decide : isWord '[' = false)
      | zero =>
        obtain ⟨c, others, rfl⟩ := List.exists_cons_of_ne_nil nonempty
        exact isWord_of_isBlank (blank c (by simp))
    · exact (by decide : isWord '<' = false)

/-- A class that counts as used stands, as a whole word, in one of the positions. -/
theorem exists_recognised_of_isUsed {text : Text} (used : isUsed name text = true) :
    ∃ before after, text = before ++ name ++ after ∧ WholeWord before after ∧ Recognised before after := by
  obtain ⟨p, member, occurs⟩ := List.any_eq_true.mp used
  obtain ⟨front, mid, rest, rfl, spans⟩ := Pattern.occursIn_iff.mp occurs
  simp only [usagePatterns, List.mem_cons, List.not_mem_nil, or_false] at member
  -- Every pattern spells the name once.  The edges around it are in the pattern, or its neighbours are
  -- no word characters.
  have ahead {before tail : Text} (edge : (⟨before.reverse, name ++ tail⟩ : Cursor).atWordEdge = true) :
      before.getLast?.any isWord = false :=
    (atWordEdge_ahead_iff some_ word).mp edge
  have past (before : Text) {after : Text}
      (edge : (⟨name.reverse ++ before.reverse, after⟩ : Cursor).atWordEdge = true) :
      after.head?.any isWord = false :=
    (atWordEdge_past_iff some_ word).mp edge
  have apart {c : Char} (other : isWord c = false) (before : Text) :
      (before ++ [c]).getLast?.any isWord = false := by simp [other]
  have listed {clause : Text} (lists : clause = "throws".toList ∨ clause = "implements".toList)
      (spans : (.exactly clause ++ .blanks1 ++ .withinLine ++ .wordEdge ++ .exactly name ++ .wordEdge : Pattern).Spans
        front.reverse mid rest) :
      ∃ before after, front ++ mid ++ rest = before ++ name ++ after ∧ WholeWord before after ∧
        Recognised before after := by
    simp only [spans_append, spans_exactly, spans_wordEdge, Pattern.blanks1, Pattern.withinLine, spans_run1,
      spans_run] at spans
    obtain ⟨_, _, rfl, ⟨_, _, rfl, ⟨_, _, rfl, ⟨_, others, rfl, ⟨_, gap, rfl, rfl, nonempty, blank⟩, within⟩,
      rfl, edge⟩, rfl⟩, rfl, edgeBehind⟩ := spans
    have single : '\n' ∉ others := fun fed => by simpa using within '\n' fed
    exact ⟨front ++ _ ++ gap ++ others, rest, by simp,
      ⟨ahead (by simpa using edge), past (front ++ _ ++ gap ++ others) (by simpa using edgeBehind)⟩,
      .listed front rest lists nonempty blank single⟩
  rcases member with rfl | rfl | rfl | rfl | rfl | rfl | rfl | rfl | rfl
  · -- an annotation
    simp only [spans_append, spans_exactly, spans_wordEdge] at spans
    obtain ⟨_, _, rfl, ⟨_, _, rfl, rfl, rfl⟩, rfl, edge⟩ := spans
    exact ⟨front ++ ['@'], rest, by simp, ⟨apart (by decide) front, past (front ++ ['@']) (by simpa using edge)⟩,
      .annotated front rest⟩
  · -- the qualifier of a member
    simp only [spans_append, spans_exactly, spans_wordEdge] at spans
    obtain ⟨_, _, rfl, ⟨_, _, rfl, ⟨rfl, edge⟩, rfl⟩, rfl⟩ := spans
    exact ⟨front, '.' :: rest, by simp, ⟨ahead (by simpa using edge), (by decide : isWord '.' = false)⟩,
      .qualified front rest⟩
  · -- a constructor call
    simp only [spans_append, spans_exactly, spans_wordEdge, Pattern.blanks1, spans_run1] at spans
    obtain ⟨_, _, rfl, ⟨_, _, rfl, ⟨_, gap, rfl, ⟨_, _, rfl, ⟨rfl, edge⟩, rfl⟩, nonempty, blank⟩, rfl⟩, rfl,
      edgeBehind⟩ := spans
    have starts : front.getLast?.any isWord = false :=
      (@atWordEdge_ahead_iff "new".toList (by decide) (List.all_eq_true.mp (by decide)) front _).mp edge
    exact ⟨front ++ "new".toList ++ gap, rest, by simp,
      ⟨last_apart nonempty blank, past (front ++ "new".toList ++ gap) (by simpa using edgeBehind)⟩,
      .constructed rest starts nonempty blank⟩
  · -- the type of a declaration
    simp only [spans_append, spans_exactly, spans_wordEdge, Pattern.blanks, Pattern.blanks1, spans_run, spans_run1,
      spans_optional] at spans
    obtain ⟨_, variable_, rfl, ⟨_, blanks, rfl, ⟨_, brackets, rfl, ⟨_, arguments, rfl, ⟨_, gap, rfl,
      ⟨_, _, rfl, ⟨rfl, edge⟩, rfl⟩, gapBlank⟩, typed⟩, bracketed⟩, nonempty, blank⟩, someVariable, words⟩ := spans
    obtain ⟨first, others, rfl⟩ := List.exists_cons_of_ne_nil someVariable
    obtain ⟨count, rfl⟩ := Pattern.exists_replicate_of_spans bracketed
    have shaped : arguments = [] ∨ ∃ inside, arguments = ['<'] ++ inside ++ ['>'] ∧
        ∀ c ∈ inside, c ∉ [';', '\x7b', '(', ')'] := by
      rcases typed with ⟨_, _, rfl, ⟨_, inside, rfl, rfl, allowed⟩, rfl⟩ | none
      · refine .inr ⟨inside, rfl, fun c member => ?_⟩
        simpa [and_assoc] using allowed c member
      · exact .inl none
    refine ⟨front,
      gap ++ arguments ++ (List.replicate count "[]".toList).flatten ++ blanks ++ first :: (others ++ rest),
      by simp, ⟨ahead (by simpa using edge), head?_apart gapBlank shaped nonempty blank⟩,
      .declared front (others ++ rest) count gapBlank shaped nonempty blank (words first (by simp))⟩
  · -- a type argument
    simp only [spans_append, spans_exactly, spans_one] at spans
    obtain ⟨_, _, rfl, ⟨_, _, rfl, rfl, rfl⟩, mark, closes, rfl⟩ := spans
    have isMark : mark = '>' ∨ mark = ',' := by simpa using closes
    have other : isWord mark = false := by rcases isMark with rfl | rfl <;> decide
    exact ⟨front ++ ['<'], mark :: rest, by simp, ⟨apart (by decide) front, other⟩, .argument front rest isMark⟩
  · -- what a parenthesis opens with
    simp only [spans_append, spans_exactly, spans_wordEdge] at spans
    obtain ⟨_, _, rfl, ⟨_, _, rfl, rfl, rfl⟩, rfl, edge⟩ := spans
    exact ⟨front ++ ['('], rest, by simp, ⟨apart (by decide) front, past (front ++ ['(']) (by simpa using edge)⟩,
      .parenthesised front rest⟩
  · -- a `throws` clause
    exact listed (.inl rfl) spans
  · -- an `extends` clause
    simp only [spans_append, spans_exactly, spans_wordEdge, Pattern.blanks1, spans_run1] at spans
    obtain ⟨_, _, rfl, ⟨_, _, rfl, ⟨_, gap, rfl, rfl, nonempty, blank⟩, rfl⟩, rfl, edge⟩ := spans
    exact ⟨front ++ "extends".toList ++ gap, rest, by simp,
      ⟨last_apart nonempty blank, past (front ++ "extends".toList ++ gap) (by simpa using edge)⟩,
      .extended front rest nonempty blank⟩
  · -- an `implements` clause
    exact listed (.inr rfl) spans

end Names

/-! ## Words and parts of rows -/

/-- A text has a name as a whole word. -/
def HasWord (name text : Text) : Prop := ∃ before after, text = before ++ name ++ after ∧ WholeWord before after

instance (before after : Text) : Decidable (WholeWord before after) :=
  decidable_of_iff (before.getLast?.any isWord = false ∧ after.head?.any isWord = false)
    ⟨fun whole => ⟨whole.1, whole.2⟩, fun whole => ⟨whole.front, whole.back⟩⟩

private theorem hasWord_iff {name text : Text} : HasWord name text ↔ ∃ place ∈ List.range (text.length + 1),
    name <+: text.drop place ∧ WholeWord (text.take place) (text.drop (place + name.length)) := by
  constructor
  · rintro ⟨before, after, rfl, whole⟩
    have within : before.length ∈ List.range ((before ++ name ++ after).length + 1) := by
      simp only [List.mem_range, List.length_append]
      omega
    refine ⟨before.length, within, ⟨after, by simp⟩, ?_⟩
    rw [List.append_assoc, List.take_left, ← List.append_assoc, ← List.length_append, List.drop_left]
    exact whole
  · rintro ⟨place, -, ⟨after, same⟩, whole⟩
    have behind : text.drop (place + name.length) = after := by
      rw [← List.drop_drop, ← same, List.drop_left]
    rw [behind] at whole
    exact ⟨text.take place, after, by rw [List.append_assoc, same, List.take_append_drop], whole⟩

instance (name text : Text) : Decidable (HasWord name text) := decidable_of_iff _ hasWord_iff.symm

theorem hasWord_of_isUsed {name text : Text} (some_ : name ≠ []) (word : ∀ c ∈ name, isWord c = true)
    (used : isUsed name text = true) : HasWord name text := by
  obtain ⟨before, after, same, whole, -⟩ := exists_recognised_of_isUsed some_ word used
  exact ⟨before, after, same, whole⟩

theorem isSingleLine_of_word {name : Text} (word : ∀ c ∈ name, isWord c = true) : name.IsSingleLine :=
  ⟨fun fed => absurd (word _ fed) (by decide), fun returned => absurd (word _ returned) (by decide)⟩

end Java

namespace Document

open Java (HasWord WholeWord)

/-- A text of rows has a word exactly if one of its lines has it. -/
theorem AreRows.hasWord_textOf_iff {all : List Row} (areRows : AreRows all) {name : Text} (some_ : name ≠ [])
    (word : ∀ c ∈ name, isWord c = true) :
    HasWord name (textOf all) ↔ ∃ row ∈ all, HasWord name row.line := by
  constructor
  · rintro ⟨before, after, same, whole⟩
    rw [List.append_assoc] at same
    obtain ⟨front, row, back, left, right, rfl, inLine, rfl, rfl⟩ :=
      areRows.exists_row_of_part (Java.isSingleLine_of_word word) some_ same
    refine ⟨row, by simp, left, right, by rw [inLine, List.append_assoc], ?_, ?_⟩
    · rcases List.eq_nil_or_concat left with rfl | ⟨others, last, rfl⟩
      · rfl
      · simpa using whole.front
    · cases right with
      | nil => rfl
      | cons c right => simpa using whole.back
  · rintro ⟨row, member, left, right, inLine, whole⟩
    obtain ⟨front, back, rfl⟩ := List.append_of_mem member
    refine ⟨textOf front ++ left, right ++ (row.ending ++ textOf back), by simp [inLine],
      Java.apart_append areRows.ended_textOf whole.front, ?_⟩
    cases right with
    | cons c right => simpa using whole.back
    | nil =>
      have areRest : AreRows (row :: back) := areRows.sublist (List.sublist_append_right _ _)
      rcases areRest.ended_or with (short | long) | ⟨none, rfl⟩
      · rw [short]
        exact (by decide : isWord '\n' = false)
      · rw [long]
        exact (by decide : isWord '\r' = false)
      · rw [none]
        rfl

end Document

end ReadOnlyViews
