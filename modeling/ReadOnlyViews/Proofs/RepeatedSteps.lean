import ReadOnlyViews.Proofs.LineMatches
import ReadOnlyViews.Proofs.ReadOnlySources

/-! Steps that are taken once more.  A step leaves a text in which it finds its witness, no place for
its lines or no method to remove; a conversion is idempotent where this is so for all of its steps at
once, on the text that the last of them made.  So every step has to keep what the earlier ones made, and
must not bring about a place for one that had none. -/
namespace ReadOnlyViews

open Document (IsRow)

/-! ## Steps that leave a text -/

/-- A step leaves a text as it is. -/
def Leaves (step : EditStep) (text : Text) : Prop := ∃ edit, step text = .ok edit ∧ edit.text = text

private theorem exists_runSteps_of_leaves {steps : List (Text × EditStep)} {text : Text}
    (leave : ∀ step ∈ steps, Leaves step.2 text) : ∃ results, runSteps text steps = .ok (text, results) := by
  induction steps with
  | nil => exact ⟨[], rfl⟩
  | cons step steps ih =>
    obtain ⟨edit, ran, same⟩ := leave step (by simp)
    obtain ⟨results, rest⟩ := ih fun later member => leave later (by simp [member])
    refine ⟨(step.1, edit) :: results, ?_⟩
    simp only [runSteps, ran, bind, Except.bind, same, rest, pure, Except.pure]

section Insertions

variable {witness : Witness} {insertion : List Text} {anchors : List Anchor} {required : Bool}
  {text : Text} {edit : Edit}

theorem leaves_insertOnce_of_present (present : witness.presentIn text = true) :
    Leaves (insertOnce witness insertion anchors required) text :=
  ⟨_, if_pos present, rfl⟩

theorem leaves_insertOnce_of_no_place (none : anchors.findSome? (·.place? text) = none) :
    Leaves (insertOnce witness insertion anchors false) text := by
  unfold Leaves insertOnce
  rw [none]
  split
  · exact ⟨_, rfl, rfl⟩
  · exact ⟨_, rfl, rfl⟩

/-- An insertion leaves the text that it made, if it then finds its witness there. -/
theorem leaves_insertOnce_again (ran : insertOnce witness insertion anchors required text = .ok edit)
    (marks : edit.outcome = .applied → witness.presentIn edit.text = true) :
    Leaves (insertOnce witness insertion anchors required) edit.text := by
  rcases insertOnce_cases ran with ⟨-, -, same⟩ | ⟨line, position, -, -, applied, -⟩ | ⟨-, -, -, same⟩
  · exact ⟨edit, by rw [same]; exact ran, rfl⟩
  · exact leaves_insertOnce_of_present (marks applied)
  · exact ⟨edit, by rw [same]; exact ran, rfl⟩

theorem mem_insertAt {line : Text} {block lines : List Text} {position : Nat} :
    line ∈ Document.insertAt position block lines ↔ line ∈ block ∨ line ∈ lines := by
  have cut : line ∈ lines ↔ line ∈ lines.take position ∨ line ∈ lines.drop position := by
    rw [← List.mem_append, List.take_append_drop]
  rw [Document.insertAt, List.mem_append, List.mem_append, cut]
  tauto

/-- What is inserted stands in rows of the text that is made. -/
theorem exists_isRow_of_applied (ran : insertOnce witness insertion anchors required text = .ok edit)
    (applied : edit.outcome = .applied) {new : Text} (member : new ∈ insertion) (some_ : new ≠ []) :
    ∃ line position, anchors.findSome? (·.place? text) = some (line, position) ∧
      IsRow (Text.indentation ((Document.lines text).getD line []) ++ new) edit.text := by
  rcases insertOnce_cases ran with ⟨-, skipped, -⟩ | ⟨line, position, -, found, -, made⟩ | ⟨-, -, skipped, -⟩
  · cases applied.symm.trans skipped
  · refine ⟨line, position, found, ?_⟩
    rw [made]
    refine Document.isRow_of_mem_render (mem_insertAt.mpr (.inl ?_))
    exact List.mem_map.mpr ⟨new, member, by simp [some_]⟩
  · cases applied.symm.trans skipped

/-- The lines of a text are rows of what an insertion makes of it. -/
theorem isRow_insertOnce (ran : insertOnce witness insertion anchors required text = .ok edit)
    {line : Text} (member : line ∈ Document.lines text) : IsRow line edit.text := by
  rcases insertOnce_cases ran with ⟨-, -, same⟩ | ⟨_, position, -, -, -, made⟩ | ⟨-, -, -, same⟩
  · exact same ▸ Document.isRow_of_mem_lines member
  · rw [made]
    exact Document.isRow_of_mem_render (mem_insertAt.mpr (.inr member))
  · exact same ▸ Document.isRow_of_mem_lines member

/-- What a text includes within a line is not lost by an insertion. -/
theorem includes_insertOnce {part : Text} (single : part.IsSingleLine)
    (ran : insertOnce witness insertion anchors required text = .ok edit)
    (included : Text.includes part text = true) : Text.includes part edit.text = true := by
  obtain ⟨line, member, inside⟩ :=
    Document.exists_line_of_infix single.1 single.2 (Text.includes_iff.mp included)
  exact Text.includes_iff.mpr (inside.trans (isRow_insertOnce ran member).within)

/-- A text that is inserted within a line is found again. -/
theorem includes_of_applied {part new : Text}
    (ran : insertOnce witness insertion anchors required text = .ok edit)
    (applied : edit.outcome = .applied) (member : new ∈ insertion) (inside : part <:+: new)
    (some_ : new ≠ []) : Text.includes part edit.text = true := by
  obtain ⟨line, position, -, row⟩ := exists_isRow_of_applied ran applied member some_
  exact Text.includes_iff.mpr
    ((inside.trans (List.suffix_append _ new).isInfix).trans row.within)

end Insertions

/-! ## Removals that find nothing -/

namespace Java

private theorem removeFrom_of_free {test : LineTest} {opened : Bool} {index : Nat} {lines : List Text}
    (free : ∀ line ∈ codeLines opened lines, test line = false) :
    removeFrom test 0 opened index lines = ⟨lines, 0, none⟩ := by
  induction lines generalizing opened index with
  | nil => rfl
  | cons line more ih =>
    rw [codeLines] at free
    have passed : (isComment opened line || !test line) = true := by
      cases comment : isComment opened line with
      | true => rfl
      | false => simp [free line (by simp [comment])]
    rw [removeFrom_cons, if_pos passed, ih fun later member => free later ?_]
    · rfl
    · split
      · exact member
      · exact List.mem_cons_of_mem _ member

/-- A removal leaves a text whose code has nothing to remove. -/
theorem leaves_removing {test : LineTest} {text : Text} (free : FreeOf test text) :
    Leaves (ReadOnly.removing test) text := by
  refine ⟨_, rfl, ?_⟩
  rw [removeMethods_text, removeFrom_of_free free, Document.render_lines]

end Java

namespace ReadOnly

open Java (AskedNames)

/-! ## Converting what its steps leave -/

theorem exists_runSteps_cons {name : Text} {step : EditStep} {others : List (Text × EditStep)}
    {text final : Text} {results : Steps}
    (ran : runSteps text ((name, step) :: others) = .ok (final, results)) :
    ∃ edit rest, step text = .ok edit ∧ runSteps edit.text others = .ok (final, rest) ∧
      results = (name, edit) :: rest := by
  rw [runSteps] at ran
  cases stepped : step text with
  | error failure => simp [stepped, bind, Except.bind] at ran
  | ok edit =>
    simp only [stepped, bind, Except.bind] at ran
    cases more : runSteps edit.text others with
    | error failure => simp [more] at ran
    | ok pair =>
      obtain ⟨last, rest⟩ := pair
      simp only [more, pure, Except.pure, Except.ok.injEq, Prod.mk.injEq] at ran
      obtain ⟨rfl, rfl⟩ := ran
      exact ⟨edit, rest, rfl, more, rfl⟩

/-- The steps of a conversion, for a source that is no resource. -/
theorem exists_steps_of_convert {kind : SourceKind} {table text : Text} {asked : AskedNames}
    {converted : Converted} (ran : convert kind table asked text = .ok converted)
    (plain : kind ≠ .resource) :
    runSteps text (steps kind table) = .ok (converted.text, converted.steps) := by
  unfold convert at ran
  cases stepped : runSteps text (steps kind table) with
  | error failure => simp [stepped, bind, Except.bind] at ran
  | ok pair =>
    obtain ⟨final, results⟩ := pair
    simp only [stepped, bind, Except.bind] at ran
    cases kind with
    | resource => exact absurd rfl plain
    | entity | repository | service | test =>
      cases ran
      rfl

/-- A conversion leaves what its steps leave. -/
theorem exists_convert_of_leaves {kind : SourceKind} {table text : Text}
    (leave : ∀ step ∈ steps kind table, Leaves step.2 text)
    (asked : AskedNames) (pruned : kind = .resource →
      (Java.pruneImports Java.resourceImports asked text).1.text = text) :
    ∃ again, convert kind table asked text = .ok again ∧ again.text = text := by
  obtain ⟨results, ran⟩ := exists_runSteps_of_leaves leave
  unfold convert
  simp only [ran, bind, Except.bind]
  cases kind with
  | resource =>
    have same := pruned rfl
    generalize Java.pruneImports Java.resourceImports asked text = pair at same ⊢
    exact ⟨_, rfl, same⟩
  | entity | repository | service | test => exact ⟨_, rfl, rfl⟩

/-! ## Entities and repositories -/

/-- Where a stretch at the start of a line stands, its line is the one that starts with it. -/
theorem exists_getElem?_lineOf {front mid : Text} (ended : front = [] ∨ front.getLast? = some '\n')
    (single : mid.IsSingleLine) (rest : Text) {offset : Nat} (from_ : front.length ≤ offset)
    (within : offset ≤ front.length + mid.length) :
    ∃ tail, (Document.lines (front ++ (mid ++ rest)))[Document.lineOf (front ++ (mid ++ rest)) offset]? =
      some (mid ++ tail) := by
  obtain ⟨tail, others, cut, -⟩ := Document.exists_first_line single.1 single.2 rest
  have ahead : (front ++ (mid ++ rest)).take offset = front ++ mid.take (offset - front.length) := by
    rw [List.take_append, List.take_of_length_le from_, List.take_append_of_le_length (by omega)]
  have free : (mid.take (offset - front.length)).count '\n' = 0 :=
    List.count_eq_zero.mpr fun fed => single.1 (List.mem_of_mem_take fed)
  have counted : Document.lineOf (front ++ (mid ++ rest)) offset = (Document.lines front).dropLast.length := by
    rw [Document.lineOf, ahead, Text.lineFeeds, List.count_append, free, List.length_dropLast,
      Document.length_lines, Nat.add_zero, Nat.add_sub_cancel, Text.lineFeeds]
  refine ⟨tail, ?_⟩
  rw [counted, Document.lines_append_of_ended ended, cut]
  simp

/-- A pattern whose matches start a line with a word, blanks and tabs aside. -/
def HeadsLine (word : Text) (target : Pattern) : Prop :=
  ∀ before mid after, target.Spans before mid after → (before = [] ∨ before.head? = some '\n') ∧
    ∃ indent tail, (∀ c ∈ indent, isBlankOrTab c = true) ∧ mid = indent ++ word ++ tail

/-- The line before which new lines go starts with the word of the pattern. -/
theorem exists_line_of_place {word text : Text} {target : Pattern} {line position : Nat}
    (heads : HeadsLine word target) (single : word.IsSingleLine)
    (placed : Anchor.place? { target } text = some (line, position)) :
    ∃ indent tail, (∀ c ∈ indent, isBlankOrTab c = true) ∧
      (Document.lines text)[line]? = some (indent ++ word ++ tail) := by
  obtain ⟨found, matched, placed⟩ := Option.map_eq_some_iff.mp placed
  obtain ⟨mid, split, -, spans⟩ := Pattern.exists_spans_of_find?_eq_some matched
  obtain ⟨begins, indent, more, blank, rfl⟩ := heads _ _ _ spans
  have ended : found.start.before.reverse = [] ∨ found.start.before.reverse.getLast? = some '\n' := by
    simpa using begins
  have offset : found.start.offset = found.start.before.reverse.length := by simp [Cursor.offset]
  have whole : text = found.start.before.reverse ++ (indent ++ word ++ (more ++ found.stop.after)) := by
    rw [split]
    simp
  obtain ⟨tail, there⟩ := exists_getElem?_lineOf ended
    ⟨notMem_indent_append rfl blank single.1, notMem_indent_append rfl blank single.2⟩
    (more ++ found.stop.after) offset.ge (Nat.le_add_right_of_le offset.le)
  rw [← whole, (Prod.mk.inj placed).1] at there
  exact ⟨indent, tail, blank, there⟩

private theorem headsLine_headed (word : Text) : HeadsLine word (lineIndent ++ .exactly word ++ .wordEdge) := by
  intro before mid after spans
  obtain ⟨indent, blank, rfl, begins, -⟩ := exists_indent_of_spans spans
  exact ⟨begins, indent, [], blank, by simp⟩

/-- The line behind which new lines go starts with the word of the anchor. -/
theorem exists_line_of_place_after {word text : Text} {line position : Nat} (single : word.IsSingleLine)
    (placed : Anchor.place? { target := lineIndent ++ .exactly word ++ .wordEdge, side := .after } text =
      some (line, position)) :
    position = line + 1 ∧ ∃ indent tail, (∀ c ∈ indent, isBlankOrTab c = true) ∧
      (Document.lines text)[line]? = some (indent ++ word ++ tail) := by
  obtain ⟨found, matched, placed⟩ := Option.map_eq_some_iff.mp placed
  obtain ⟨mid, after, before, spans⟩ := Probe.spans_of_find?_eq_some matched
  obtain ⟨indent, blank, rfl, begins, -⟩ := exists_indent_of_spans spans
  have ended : found.start.before.reverse = [] ∨ found.start.before.reverse.getLast? = some '\n' := by
    simpa using begins
  have start : found.start.offset = found.start.before.reverse.length := by simp [Cursor.offset]
  have stop : found.stop.offset = found.start.before.reverse.length + (indent ++ word).length := by
    rw [Cursor.offset, before, List.length_append, List.length_reverse, List.length_reverse, Nat.add_comm]
  obtain ⟨tail, there⟩ := @exists_getElem?_lineOf _ _ ended
    ⟨notMem_indent_append rfl blank single.1, notMem_indent_append rfl blank single.2⟩ found.stop.after
    (max found.start.offset (found.stop.offset - 1)) (by omega) (by omega)
  rw [← after, ← Probe.text_of_find?_eq_some matched] at there
  obtain ⟨rfl, rfl⟩ := Prod.mk.inj placed
  exact ⟨rfl, indent, tail, blank, there⟩

/-- The indentation of a line is the blanks and tabs before its first visible character. -/
theorem indentation_append {indent rest : Text} {first : Char} (blank : ∀ c ∈ indent, isBlankOrTab c = true)
    (visible : isBlank first = false) : Text.indentation (indent ++ first :: rest) = indent := by
  have blanks : ∀ c ∈ indent, isBlank c = true := fun c member => Text.isBlank_of_isBlankOrTab (blank c member)
  rw [Text.indentation, List.takeWhile_append_of_pos blanks, List.takeWhile_cons_of_neg (by simp [visible]),
    List.append_nil]

/-- An entity that was marked immutable is left by the same steps. -/
theorem leaves_entitySteps {text final : Text} {results : Steps}
    (ran : runSteps text entitySteps = .ok (final, results)) :
    ∀ step ∈ entitySteps, Leaves step.2 final := by
  obtain ⟨imported, rest, importing, ran, -⟩ := exists_runSteps_cons ran
  obtain ⟨marked, rest, marking, ran, -⟩ := exists_runSteps_cons ran
  obtain rfl : marked.text = final := by cases ran; rfl
  have single : immutableImport.IsSingleLine := by decide
  have included : Text.includes immutableImport imported.text = true := by
    rcases insertOnce_cases importing with ⟨present, -, same⟩ | ⟨_, _, -, -, applied, -⟩ | ⟨required, -⟩
    · exact same ▸ present
    · exact includes_of_applied importing applied (List.mem_singleton_self _) (List.infix_refl _) (by decide)
    · cases required
  intro step member
  rcases List.mem_cons.mp member with rfl | member
  · exact leaves_insertOnce_of_present (includes_insertOnce single marking included)
  · obtain rfl := List.mem_singleton.mp member
    refine leaves_insertOnce_again marking fun applied => ?_
    obtain ⟨line, position, found, row⟩ :=
      exists_isRow_of_applied marking applied (List.mem_singleton_self _) (by decide)
    have placed : entityAnchor.place? imported.text = some (line, position) := by
      simpa using found
    obtain ⟨indent, tail, blank, there⟩ := exists_line_of_place (headsLine_headed "@Entity".toList) (by decide) placed
    have indented : Text.indentation ((Document.lines imported.text).getD line []) = indent := by
      rw [List.getD_eq_getElem?_getD, there, Option.getD_some, List.append_assoc]
      exact indentation_append blank (by decide)
    rw [indented] at row
    have headed : Headed "@Immutable".toList _ := ⟨indent, [], blank, (List.append_nil _).symm, rfl⟩
    exact occursIn_headed_of_isRow rfl (by decide) headed row

/-- A mark that is put in is found again. -/
theorem includes_mark {marker table note text : Text} {anchor : Anchor} {edit : Edit}
    (ran : insertOnce (.literal marker) (classComment marker table note) [anchor] false text = .ok edit)
    (applied : edit.outcome = .applied) : Text.includes marker edit.text = true := by
  have member : " * ".toList ++ marker ++ ": ".toList ++ table ∈ classComment marker table note := by
    simp [classComment]
  refine includes_of_applied ran applied member ?_ (by simp)
  exact ⟨" * ".toList, ": ".toList ++ table, by simp⟩

/-! ## Anchors that are not brought about -/

theorem place?_eq_none_iff {anchor : Anchor} (lead : anchor.lead = .nothing) {text : Text} :
    anchor.place? text = none ↔ anchor.target.occursIn text = false := by
  rw [Anchor.place?, Option.map_eq_none_iff, lead, Pattern.occursIn, Pattern.find?]
  cases Probe.find? { target := anchor.target } text <;> simp

/-- The first visible character of a line. -/
def firstVisible (line : Text) : Option Char := (line.dropWhile isBlank).head?

theorem firstVisible_indent {indent : Text} (blank : ∀ c ∈ indent, isBlank c = true) (rest : Text) :
    firstVisible (indent ++ rest) = firstVisible rest := by
  have trimmed := Text.trimStart_append_of_blank blank rest
  unfold firstVisible
  rw [show (indent ++ rest).dropWhile isBlank = rest.dropWhile isBlank from trimmed]

private theorem Headed.firstVisible_eq {word line : Text} {first : Char} (headed : Headed (first :: word) line)
    (visible : isBlank first = false) : firstVisible line = some first := by
  obtain ⟨indent, rest, blank, rfl, -⟩ := headed
  rw [List.append_assoc, firstVisible_indent fun c member => Text.isBlank_of_isBlankOrTab (blank c member)]
  simp [firstVisible, visible]

/-- A line that is put in has nothing but blanks in front of it. -/
theorem exists_indent_of_inserted (text : Text) (line : Nat) (new : Text) :
    ∃ indent, (∀ c ∈ indent, isBlank c = true) ∧ '\n' ∉ indent ∧
      (if new.isEmpty then new
        else Text.indentation ((Document.lines text).getD line []) ++ new) = indent ++ new := by
  have free : '\n' ∉ (Document.lines text).getD line [] := by
    rw [List.getD_eq_getElem?_getD]
    cases there : (Document.lines text)[line]? with
    | none => exact List.not_mem_nil
    | some given => exact Document.lineFeed_notMem_of_mem_lines (List.mem_of_getElem? there)
  split
  · exact ⟨[], by simp, by simp, rfl⟩
  · exact ⟨_, fun c => Text.isBlank_of_mem_indentation, fun fed => free (Text.mem_of_mem_indentation fed), rfl⟩

/-- A line of a text that an insertion made was there before, or is one of the inserted lines; either
way a carriage return at its end may have become a part of its line end. -/
theorem exists_given_of_mem_lines {witness : Witness} {insertion : List Text} {anchors : List Anchor}
    {required : Bool} {text line : Text} {edit : Edit} (single : ∀ new ∈ insertion, '\n' ∉ new)
    (ran : insertOnce witness insertion anchors required text = .ok edit)
    (member : line ∈ Document.lines edit.text) :
    ∃ given, (given = line ∨ given = line ++ ['\r']) ∧
      (given ∈ Document.lines text ∨ ∃ indent, (∀ c ∈ indent, isBlank c = true) ∧
        ∃ new ∈ insertion, given = indent ++ new) := by
  rcases insertOnce_cases ran with ⟨-, -, same⟩ | ⟨at_, position, -, -, -, made⟩ | ⟨-, -, -, same⟩
  · exact ⟨line, .inl rfl, .inl (same ▸ member)⟩
  · have origin {given : Text} (inside : given ∈ Document.insertAt position
        (insertion.map fun new => if new.isEmpty then new
          else Text.indentation ((Document.lines text).getD at_ []) ++ new) (Document.lines text)) :
        '\n' ∉ given ∧ (given ∈ Document.lines text ∨ ∃ indent, (∀ c ∈ indent, isBlank c = true) ∧
          ∃ new ∈ insertion, given = indent ++ new) := by
      rcases mem_insertAt.mp inside with block | old
      · obtain ⟨new, member, rfl⟩ := List.mem_map.mp block
        obtain ⟨indent, blank, unfed, shown⟩ := exists_indent_of_inserted text at_ new
        rw [shown]
        refine ⟨?_, .inr ⟨indent, blank, new, member, rfl⟩⟩
        rw [List.mem_append, not_or]
        exact ⟨unfed, single new member⟩
      · exact ⟨Document.lineFeed_notMem_of_mem_lines old, .inl old⟩
    have some_ : Document.insertAt position (insertion.map fun new => if new.isEmpty then new
        else Text.indentation ((Document.lines text).getD at_ []) ++ new) (Document.lines text) ≠ [] := by
      obtain ⟨first, others, cut⟩ := List.exists_cons_of_ne_nil (Document.lines_ne_nil text)
      exact List.ne_nil_of_mem (mem_insertAt.mpr (.inr (cut ▸ List.mem_cons_self)))
    rw [made] at member
    obtain ⟨given, inside, shown⟩ :=
      Document.exists_mem_of_mem_lines_render (fun given inside => (origin inside).1) some_ member
    exact ⟨given, shown, (origin inside).2⟩
  · exact ⟨line, .inl rfl, .inl (same ▸ member)⟩

/-- What the last line of a text starts with, blanks aside. -/
def lastStart (text : Text) : Option Char := (Document.lines text).getLast?.bind firstVisible

/-- The last line of a rendered text is the last one that it is rendered from. -/
theorem getLast?_lines_render (text : Text) {changed : List Text} {last : Text} (free : '\n' ∉ last) :
    (Document.lines (Document.render text (changed ++ [last]))).getLast? = some last := by
  have single := Document.lines_eq_singleton free
  unfold Document.render
  split
  · next same => rw [← same, List.getLast?_concat]
  · by_cases none : changed = []
    · subst none
      rw [List.nil_append, Text.join, single]
      rfl
    · obtain ⟨shown, cut, -⟩ := Document.exists_lines_append_lineEnd
        (Text.join (Document.newline text) changed) (Document.isLineEnd_newline text) last
      rw [Document.join_append none (by simp), Text.join, cut, single, List.getLast?_concat]

/-- The last line stays the last one, unless lines are put in behind it. -/
theorem lastStart_insertOnce {witness : Witness} {insertion : List Text} {anchors : List Anchor}
    {required : Bool} {text : Text} {edit : Edit} (single : ∀ new ∈ insertion, '\n' ∉ new)
    (ran : insertOnce witness insertion anchors required text = .ok edit) :
    lastStart edit.text = lastStart text ∨ ∃ line position,
      anchors.findSome? (·.place? text) = some (line, position) ∧ (Document.lines text).length ≤ position ∧
        ∃ new ∈ insertion, lastStart edit.text = firstVisible new := by
  rcases insertOnce_cases ran with ⟨-, -, same⟩ | ⟨line, position, -, found, -, made⟩ | ⟨-, -, -, same⟩
  · exact .inl (by rw [same])
  · obtain ⟨front, last, cut⟩ := (List.eq_nil_or_concat (Document.lines text)).resolve_left
      (Document.lines_ne_nil text)
    rw [List.concat_eq_append] at cut
    have freeLast : '\n' ∉ last := Document.lineFeed_notMem_of_mem_lines (cut ▸ List.mem_append_right _ (by simp))
    by_cases behind : (Document.lines text).length ≤ position
    · rcases List.eq_nil_or_concat insertion with rfl | ⟨others, new, rfl⟩
      · left
        rw [made, Document.insertAt, List.map_nil, List.append_nil, List.take_append_drop, Document.render,
          if_pos rfl]
      · rw [List.concat_eq_append] at made single ⊢
        obtain ⟨indent, blank, unfed, shown⟩ := exists_indent_of_inserted text line new
        refine .inr ⟨line, position, found, behind, new, by simp, ?_⟩
        have free : '\n' ∉ indent ++ new := by
          rw [List.mem_append, not_or]
          exact ⟨unfed, single new (by simp)⟩
        rw [made, Document.insertAt, List.drop_eq_nil_of_le behind, List.append_nil, List.map_append,
          List.map_singleton, shown, ← List.append_assoc, lastStart, getLast?_lines_render text free,
          Option.bind_some, firstVisible_indent blank]
    · left
      have kept : (Document.lines text).drop position = (front.drop position) ++ [last] := by
        rw [cut, List.length_append, List.length_singleton] at behind
        rw [cut, List.drop_append_of_le_length (by omega)]
      rw [made, Document.insertAt, kept, ← List.append_assoc, lastStart, getLast?_lines_render text freeLast,
        lastStart, cut, List.getLast?_concat]
  · exact .inl (by rw [same])

/-- A line that starts with a part still does after an insertion. -/
theorem start_insertOnce {witness : Witness} {insertion : List Text} {anchors : List Anchor}
    {required : Bool} {part text : Text} {edit : Edit} (free : '\n' ∉ part) (unreturned : '\r' ∉ part)
    (ran : insertOnce witness insertion anchors required text = .ok edit)
    (occurs : (.lineStart ++ .exactly part : Pattern).occursIn text = true) :
    (.lineStart ++ .exactly part : Pattern).occursIn edit.text = true := by
  obtain ⟨line, member, tail, rfl⟩ := (occursIn_start_iff free unreturned).mp occurs
  exact occursIn_start_of_isRow (isRow_insertOnce ran member)

/-- An insertion brings about no line that starts with a part that starts visibly, if none of its
lines starts with the same character. -/
theorem no_start_insertOnce {witness : Witness} {insertion : List Text} {anchors : List Anchor}
    {required : Bool} {part text : Text} {edit : Edit} {first : Char}
    (starts : part.head? = some first) (visible : isBlank first = false) (free : '\n' ∉ part)
    (unreturned : '\r' ∉ part) (single : ∀ new ∈ insertion, '\n' ∉ new)
    (other : ∀ new ∈ insertion, firstVisible new ≠ some first)
    (ran : insertOnce witness insertion anchors required text = .ok edit)
    (none : (.lineStart ++ .exactly part : Pattern).occursIn text = false) :
    (.lineStart ++ .exactly part : Pattern).occursIn edit.text = false := by
  rw [← Bool.not_eq_true, occursIn_start_iff free unreturned] at none ⊢
  rintro ⟨line, member, starting⟩
  obtain ⟨given, shown, origin⟩ := exists_given_of_mem_lines single ran member
  have startsGiven : part <+: given := by
    rcases shown with rfl | rfl
    · exact starting
    · exact starting.trans (List.prefix_append _ _)
  rcases origin with old | ⟨indent, blank, new, inside, rfl⟩
  · exact none ⟨given, old, startsGiven⟩
  · refine other new inside ?_
    rw [← firstVisible_indent blank]
    obtain ⟨rest, same⟩ := startsGiven
    obtain ⟨tail, rfl⟩ := List.head?_eq_some_iff.mp starts
    rw [← same]
    simp [firstVisible, visible]

/-- Likewise for a word at the start of a line, blanks and tabs aside. -/
theorem no_headed_insertOnce {witness : Witness} {insertion : List Text} {anchors : List Anchor}
    {required : Bool} {word text : Text} {edit : Edit} {first last : Char}
    (ends : (first :: word).getLast? = some last) (isLast : isWord last = true)
    (visible : isBlank first = false) (free : '\n' ∉ first :: word) (unreturned : '\r' ∉ first :: word)
    (single : ∀ new ∈ insertion, '\n' ∉ new) (other : ∀ new ∈ insertion, firstVisible new ≠ some first)
    (ran : insertOnce witness insertion anchors required text = .ok edit)
    (none : (lineIndent ++ .exactly (first :: word) ++ .wordEdge).occursIn text = false) :
    (lineIndent ++ .exactly (first :: word) ++ .wordEdge).occursIn edit.text = false := by
  rw [← Bool.not_eq_true, occursIn_headed_iff ends isLast free unreturned] at none ⊢
  rintro ⟨line, member, headed⟩
  obtain ⟨given, shown, origin⟩ := exists_given_of_mem_lines single ran member
  have headedGiven : Headed (first :: word) given := by
    rcases shown with rfl | rfl
    · exact headed
    · exact headed.append_return
  rcases origin with old | ⟨indent, blank, new, inside, rfl⟩
  · exact none ⟨given, old, headedGiven⟩
  · refine other new inside ?_
    rw [← firstVisible_indent blank]
    exact headedGiven.firstVisible_eq visible

end ReadOnly

end ReadOnlyViews
