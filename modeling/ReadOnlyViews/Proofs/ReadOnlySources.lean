import ReadOnlyViews.Proofs.Pruning
import ReadOnlyViews.ReadOnly.Conversion

/-! Resources and services lose their mutating methods for good: what one removal takes out of the
code is not brought back by the removals after it, by the class comment that marks the source, or by
the pruning of imports.  Two things can undo it, and both are stated as conditions: a method that is
dropped with a comment opened but not closed, and a mark that is put inside a comment and closes it. -/
namespace ReadOnlyViews

namespace Java

/-! ## Removals in a row -/

/-- The removals of several kinds of methods in a row. -/
def removals : List LineTest → Text → List Edit
  | [], _ => []
  | test :: later, text =>
    let edit := removeMethods test text
    edit :: removals later edit.text

/-- The text that removals in a row leave. -/
def removeAll : List LineTest → Text → Text
  | [], text => text
  | test :: later, text => removeAll later (removeMethods test text).text

/-- Whether no removal in a row drops a method that leaves a block comment open. -/
def allDropClosed : List LineTest → Text → Bool
  | [], _ => true
  | test :: later, text =>
    dropsClosed test text && allDropClosed later (removeMethods test text).text

/-- Whether no removal behind the first drops a method that leaves a block comment open. -/
def laterDropClosed : List LineTest → Text → Bool
  | [], _ => true
  | test :: later, text => allDropClosed later (removeMethods test text).text

private theorem length_removals (tests : List LineTest) (text : Text) :
    (removals tests text).length = tests.length := by
  induction tests generalizing text with
  | nil => rfl
  | cons test later ih => simp [removals, ih]

private theorem codeWithin_removeAll {tests : List LineTest} {text : Text}
    (closed : allDropClosed tests text = true) : CodeWithin text (removeAll tests text) := by
  induction tests generalizing text with
  | nil => exact .refl _
  | cons test later ih =>
    simp only [allDropClosed, Bool.and_eq_true] at closed
    exact (codeWithin_removeMethods closed.1).trans (ih closed.2)

/-- Removals in a row leave a text free of all that each of them removes. -/
theorem freeOf_removeAll {tests : List LineTest} {text : Text}
    (blank : ∀ test ∈ tests, test [] = false)
    (fine : ∀ edit ∈ removals tests text, edit.outcome ≠ .failed)
    (closed : laterDropClosed tests text = true) :
    ∀ test ∈ tests, FreeOf test (removeAll tests text) := by
  induction tests generalizing text with
  | nil => simp
  | cons first later ih =>
    simp only [removals, List.mem_cons, forall_eq_or_imp] at blank fine ⊢
    rw [laterDropClosed] at closed
    constructor
    · exact (freeOf_removeMethods blank.1 fine.1).mono blank.1 (codeWithin_removeAll closed)
    · -- What holds of all later removals holds of those behind the second one.
      refine ih blank.2 fine.2 ?_
      cases later with
      | nil => rfl
      | cons second later =>
        simp only [allDropClosed, Bool.and_eq_true] at closed
        exact closed.2

end Java

/-- What an insertion comes to. -/
theorem insertOnce_cases {witness : Witness} {insertion : List Text} {anchors : List Anchor}
    {required : Bool} {text : Text} {edit : Edit}
    (ran : insertOnce witness insertion anchors required text = .ok edit) :
    (witness.presentIn text = true ∧ edit.outcome = .alreadyPresent ∧ edit.text = text) ∨
    (∃ line position, witness.presentIn text = false ∧
      anchors.findSome? (·.place? text) = some (line, position) ∧ edit.outcome = .applied ∧
      edit.text = Document.render text (Document.insertAt position
        (insertion.map fun new => if new.isEmpty then new
          else Text.indentation ((Document.lines text).getD line []) ++ new)
        (Document.lines text))) ∨
    (required = false ∧ anchors.findSome? (·.place? text) = none ∧ edit.outcome = .noAnchor ∧
      edit.text = text) := by
  unfold insertOnce at ran
  split at ran
  · next present =>
    cases ran
    exact .inl ⟨present, rfl, rfl⟩
  · next absent =>
    split at ran
    · next line position found =>
      cases ran
      exact .inr (.inl ⟨line, position, by simpa using absent, found, rfl, rfl⟩)
    · next none =>
      split at ran
      · cases ran
      · next optional =>
        cases ran
        exact .inr (.inr ⟨by simpa using optional, none, rfl, rfl⟩)

namespace ReadOnly

open Java

private theorem runSteps_append (text : Text) (front back : List (Text × EditStep)) :
    runSteps text (front ++ back) = do
      let (between, first) ← runSteps text front
      let (final, second) ← runSteps between back
      return (final, first ++ second) := by
  induction front generalizing text with
  | nil =>
    simp only [List.nil_append, runSteps, bind, Except.bind]
    cases runSteps text back <;> rfl
  | cons step front ih =>
    obtain ⟨name, step⟩ := step
    simp only [List.cons_append, runSteps]
    cases step text with
    | error failure => rfl
    | ok edit =>
      simp only [ih, bind, Except.bind]
      cases runSteps edit.text front with
      | error failure => rfl
      | ok result =>
        obtain ⟨between, first⟩ := result
        simp only [pure, Except.pure]
        cases runSteps between back <;> rfl

/-- Steps that remove methods always go through, each with its own result. -/
theorem runSteps_removing (named : List (Text × LineTest)) (text : Text) :
    runSteps text (named.map fun step => (step.1, removing step.2)) =
      .ok (removeAll (named.map (·.2)) text,
        (named.map (·.1)).zip (removals (named.map (·.2)) text)) := by
  induction named generalizing text with
  | nil => rfl
  | cons step named ih =>
    simp [runSteps, removing, ih, removeAll, removals, bind, Except.bind, pure, Except.pure]

/-! ## The class comment -/

section ClassComment

/-- The lines of a class comment behind an indentation. -/
def indentedComment (indent marker table note : Text) : List Text :=
  (classComment marker table note).map (indent ++ ·)

variable {indent : Text}

private theorem commentBehind_indent (blank : ∀ c ∈ indent, isBlank c = true) (opened : Bool)
    (line : Text) : commentBehind opened (indent ++ line) = commentBehind opened line := by
  simp only [commentBehind.eq_def, Text.trim_append_of_blank blank]

private theorem isComment_indent (blank : ∀ c ∈ indent, isBlank c = true) (opened : Bool)
    (line : Text) : isComment opened (indent ++ line) = isComment opened line := by
  simp only [isComment, Text.trim_append_of_blank blank]

/-- A class comment is closed at its end, whatever the table is called. -/
theorem commentOpen_indentedComment (blank : ∀ c ∈ indent, isBlank c = true)
    (marker table note : Text) :
    commentOpen false (indentedComment indent marker table note) = false := by
  have closes (opened : Bool) : commentBehind opened " */".toList = false := by
    cases opened <;> decide
  simp only [indentedComment, classComment, List.map, commentOpen_cons, commentOpen_nil]
  rw [commentBehind_indent blank, closes]

/-- A table name that closes the comment leaves at most the last two lines of it in the code. -/
theorem mem_codeLines_indentedComment (blank : ∀ c ∈ indent, isBlank c = true)
    (marker table note : Text) {line : Text}
    (member : line ∈ codeLines false (indentedComment indent marker table note)) :
    line = indent ++ (" * " ++ note) ∨ line = indent ++ " */".toList := by
  have opens : commentBehind false (indent ++ "/**".toList) = true := by
    rw [commentBehind_indent blank]
    decide
  have inside : isComment false (indent ++ "/**".toList) = true := by
    rw [isComment_indent blank]
    decide
  simp only [indentedComment, classComment, List.map] at member
  rw [codeLines, if_pos inside, opens, codeLines, if_pos (by simp [isComment])] at member
  simpa using codeLines_subset _ _ member

theorem notMem_classComment {marker table note : Text} {c : Char} (inMarker : c ∉ marker)
    (inTable : c ∉ table) (inNote : c ∉ note) (other : c ∉ "/* :".toList) :
    ∀ line ∈ classComment marker table note, c ∉ line := by
  simp only [String.reduceToList, List.mem_cons, List.not_mem_nil, or_false, not_or] at other
  simp [classComment, inMarker, inTable, inNote, other]

/-- The lines of a class comment can be told apart again once they are joined. -/
private theorem indentedComment_separable {line marker table note : Text} (freeLine : '\n' ∉ line)
    (marker_ : marker.IsSingleLine) (table_ : table.IsSingleLine) (note_ : note.IsSingleLine) :
    ∀ new ∈ indentedComment (Text.indentation line) marker table note,
      '\n' ∉ new ∧ new.getLast? ≠ some '\r' := by
  intro new member
  obtain ⟨bare, inside, rfl⟩ := List.mem_map.mp member
  have unfed := notMem_classComment marker_.1 table_.1 note_.1 (by decide) bare inside
  have unreturned := notMem_classComment marker_.2 table_.2 note_.2 (by decide) bare inside
  have visible : bare ≠ [] := by
    rintro rfl
    simp [classComment] at inside
  constructor
  · rw [List.mem_append, not_or]
    exact ⟨fun fed => freeLine (Text.mem_of_mem_indentation fed), unfed⟩
  · rw [List.getLast?_append_of_ne_nil _ visible]
    exact fun last => unreturned (List.mem_of_getLast? last)

end ClassComment

/-! ## The mark of a source -/

/-- Whether the mark of a source, unless it is there already, goes outside comments. -/
def marksOutside (marker : Text) (anchor : Anchor) (text : Text) : Bool :=
  Text.includes marker text ||
    (anchor.place? text).all fun (_, position) =>
      !commentOpen false ((Document.lines text).take position)

private theorem place?_before {anchor : Anchor} (side : anchor.side = .before) {text : Text}
    {line position : Nat} (placed : anchor.place? text = some (line, position)) :
    line = position ∧ position < (Document.lines text).length := by
  obtain ⟨found, _, pair⟩ := Option.map_eq_some_iff.mp placed
  rw [side] at pair
  obtain ⟨rfl, rfl⟩ := Prod.mk.inj pair
  refine ⟨rfl, ?_⟩
  rw [Document.length_lines, Document.lineOf, Text.lineFeeds, Text.lineFeeds]
  exact Nat.lt_succ_of_le ((List.take_sublist _ _).count_le _)

/-- An optional insertion always goes through. -/
theorem exists_insertOnce (witness : Witness) (insertion : List Text) (anchors : List Anchor)
    (text : Text) : ∃ edit, insertOnce witness insertion anchors false text = .ok edit := by
  unfold insertOnce
  split
  · exact ⟨_, rfl⟩
  · split
    · exact ⟨_, rfl⟩
    · exact ⟨_, rfl⟩

/-- A mark that is put in stands before the line of the anchor. -/
theorem lines_mark {marker table note text : Text} {anchor : Anchor} {edit : Edit}
    (side : anchor.side = .before) (marker_ : marker.IsSingleLine) (table_ : table.IsSingleLine)
    (note_ : note.IsSingleLine)
    (ran : insertOnce (.literal marker) (classComment marker table note) [anchor] false text = .ok edit) :
    edit.text = text ∨ Text.includes marker text = false ∧ ∃ line indent,
      anchor.place? text = some (line, line) ∧ (∀ c ∈ indent, isBlank c = true) ∧
        Document.lines edit.text = (Document.lines text).take line ++
          indentedComment indent marker table note ++ (Document.lines text).drop line := by
  obtain ⟨-, -, same⟩ | ⟨line, position, absent, found, -, marked⟩ | ⟨-, -, -, same⟩ := insertOnce_cases ran
  · exact .inl same
  · have placed : anchor.place? text = some (line, position) := by
      obtain ⟨first, member, placed⟩ := List.exists_of_findSome?_eq_some found
      exact List.mem_singleton.mp member ▸ placed
    obtain ⟨rfl, inside⟩ := place?_before side placed
    let anchorLine := (Document.lines text).getD line []
    have freeLine : '\n' ∉ anchorLine := by
      have member : anchorLine ∈ Document.lines text := by
        simp [anchorLine, List.getElem?_eq_getElem inside]
      exact Document.lineFeed_notMem_of_mem_lines member
    have block : ((classComment marker table note).map fun new => if new.isEmpty then new
        else Text.indentation anchorLine ++ new) =
          indentedComment (Text.indentation anchorLine) marker table note := by
      simp [indentedComment, classComment]
    have apart := indentedComment_separable freeLine marker_ table_ note_
    refine .inr ⟨absent, line, Text.indentation anchorLine, placed, fun _ => Text.isBlank_of_mem_indentation, ?_⟩
    rw [marked, block, Document.lines_render_insertAt_of_lt inside fun new member => (apart new member).2,
      Document.flatMap_lines fun new member => (apart new member).1]
    rfl
  · exact .inl same

/-- A mark that goes outside comments brings nothing into the code but, at most, two of its lines. -/
theorem freeOf_mark {test : LineTest} {marker table note text : Text} {anchor : Anchor} {edit : Edit}
    (side : anchor.side = .before) (marker_ : marker.IsSingleLine) (table_ : table.IsSingleLine)
    (note_ : note.IsSingleLine) (outside : marksOutside marker anchor text = true)
    (passedOver : ∀ indent : Text, (∀ c ∈ indent, isBlank c = true) →
      test (indent ++ (" * " ++ note)) = false ∧ test (indent ++ " */".toList) = false)
    (ran : insertOnce (.literal marker) (classComment marker table note) [anchor] false text = .ok edit)
    (free : FreeOf test text) : FreeOf test edit.text := by
  obtain same | ⟨unmarked, line, indent, placed, blank, lines⟩ := lines_mark side marker_ table_ note_ ran
  · exact same ▸ free
  have closed : commentOpen false ((Document.lines text).take line) = false := by
    simpa [marksOutside, unmarked, placed] using outside
  have before : code text = codeLines false ((Document.lines text).take line) ++
      codeLines false ((Document.lines text).drop line) := by
    have parts := codeLines_append false ((Document.lines text).take line)
      ((Document.lines text).drop line)
    rwa [List.take_append_drop, closed] at parts
  intro shown member
  rw [code, lines, List.append_assoc, codeLines_append, closed, codeLines_append,
    commentOpen_indentedComment blank, List.mem_append, List.mem_append] at member
  obtain front | new | back := member
  · exact free shown (before ▸ List.mem_append_left _ front)
  · obtain rfl | rfl := mem_codeLines_indentedComment blank marker table note new
    · exact (passedOver indent blank).1
    · exact (passedOver indent blank).2
  · exact free shown (before ▸ List.mem_append_right _ back)

/-! ## The lines that start mutating methods -/

/-- The tests for the endpoints of a resource that change data. -/
def resourceTests : List LineTest := mutatingMappings.map annotatedWith

/-- The tests for the methods of a service that change data. -/
def serviceTests : List LineTest := mutatingSignatures.map fun signature => holdsSignature signature.2

/-- What a resource's class comment says about it. -/
def resourceNote : Text := "POST/PUT/PATCH/DELETE operations are not supported for views."

/-- What a service's class comment says about it. -/
def serviceNote : Text := "Create/Update/Delete operations are not supported for views."

private theorem annotatedWith_indent {indent : Text} (blank : ∀ c ∈ indent, isBlank c = true)
    (name line : Text) :
    annotatedWith name (indent ++ line) = annotatedWith name line := by
  simp only [annotatedWith, Text.trim_append_of_blank blank]

theorem resourceTests_nil : ∀ test ∈ resourceTests, test [] = false := by decide

theorem resourceTests_comment {indent : Text} (blank : ∀ c ∈ indent, isBlank c = true) :
    ∀ test ∈ resourceTests,
      test (indent ++ (" * " ++ resourceNote)) = false ∧ test (indent ++ " */".toList) = false := by
  have bare : ∀ mapping ∈ mutatingMappings,
      annotatedWith mapping (" * " ++ resourceNote) = false ∧
        annotatedWith mapping " */".toList = false := by decide
  intro test member
  obtain ⟨mapping, inside, rfl⟩ := List.mem_map.mp member
  rw [annotatedWith_indent blank, annotatedWith_indent blank]
  exact bare mapping inside

/-- A line with the signature of a public method has every letter of that word. -/
theorem mem_of_publicMethod_occursIn {result : Pattern} {name line : Text}
    (occurs : (publicMethod result name).occursIn line = true) : 'b' ∈ line := by
  obtain ⟨found, first⟩ := Option.isSome_iff_exists.mp occurs
  obtain ⟨mid, rfl, _, spans⟩ := Pattern.exists_spans_of_find?_eq_some first
  simp only [publicMethod, Pattern.spans_append, Pattern.spans_exactly] at spans
  obtain ⟨_, _, rfl, ⟨_, _, rfl, ⟨_, _, rfl, ⟨_, _, rfl, ⟨_, _, rfl, ⟨_, _, rfl, rfl, _⟩, _⟩, _⟩, _⟩, _⟩, _⟩ :=
    spans
  simp

theorem serviceTests_eq_false {line : Text} (absent : 'b' ∉ line) :
    ∀ test ∈ serviceTests, test line = false := by
  intro test member
  obtain ⟨⟨name, signature⟩, inside, rfl⟩ := List.mem_map.mp member
  rw [Bool.eq_false_iff]
  intro occurs
  refine absent ?_
  simp only [mutatingSignatures, List.mem_cons, List.not_mem_nil, or_false, Prod.mk.injEq] at inside
  obtain ⟨_, rfl⟩ | ⟨_, rfl⟩ | ⟨_, rfl⟩ | ⟨_, rfl⟩ := inside <;>
    exact mem_of_publicMethod_occursIn occurs

theorem serviceTests_comment {indent : Text} (blank : ∀ c ∈ indent, isBlank c = true) :
    ∀ test ∈ serviceTests,
      test (indent ++ (" * " ++ serviceNote)) = false ∧ test (indent ++ " */".toList) = false := by
  have behind {rest : Text} (absent : 'b' ∉ rest) : 'b' ∉ indent ++ rest := by
    rw [List.mem_append, not_or]
    exact ⟨fun member => absurd (blank 'b' member) (by decide), absent⟩
  intro test member
  exact ⟨serviceTests_eq_false (behind (by decide)) test member,
    serviceTests_eq_false (behind (by decide)) test member⟩

/-! ## Converted resources and services -/

/-- Whether comments stay closed to the code while methods are removed and the source is marked: no
removal behind the first drops a method that leaves a comment open, and the mark goes outside
comments. -/
def keepsComments (tests : List LineTest) (marker : Text) (anchor : Anchor) (text : Text) : Bool :=
  laterDropClosed tests text && marksOutside marker anchor (removeAll tests text)

/-- Removals that go through and a mark leave a source free of all that was removed. -/
theorem freeOf_marked {tests : List LineTest} {marker table note text : Text} {anchor : Anchor}
    {edit : Edit} (side : anchor.side = .before) (marker_ : marker.IsSingleLine)
    (table_ : table.IsSingleLine) (note_ : note.IsSingleLine)
    (blank : ∀ test ∈ tests, test [] = false)
    (passedOver : ∀ indent : Text, (∀ c ∈ indent, isBlank c = true) → ∀ test ∈ tests,
      test (indent ++ (" * " ++ note)) = false ∧ test (indent ++ " */".toList) = false)
    (fine : ∀ edit ∈ removals tests text, edit.outcome ≠ .failed)
    (comments : keepsComments tests marker anchor text = true)
    (ran : insertOnce (.literal marker) (classComment marker table note) [anchor] false
      (removeAll tests text) = .ok edit) :
    ∀ test ∈ tests, FreeOf test edit.text := by
  simp only [keepsComments, Bool.and_eq_true] at comments
  intro test member
  refine freeOf_mark side marker_ table_ note_ comments.2
    (fun indent blank => passedOver indent blank test member) ran ?_
  exact freeOf_removeAll blank fine comments.1 test member

/-- What holds of all named edits holds of all edits. -/
private theorem outcome_of_mem_zip {names : List Text} {edits : List Edit}
    (same : names.length = edits.length)
    (fine : ∀ step ∈ names.zip edits, step.2.outcome ≠ .failed) :
    ∀ edit ∈ edits, edit.outcome ≠ .failed := by
  intro edit member
  obtain ⟨index, inside, rfl⟩ := List.getElem_of_mem member
  have inZip : index < (names.zip edits).length := by simp [same, inside]
  have pair : (names.zip edits)[index] = (names[index], edits[index]) := List.getElem_zip
  have unfailed := fine (names.zip edits)[index] (List.getElem_mem inZip)
  rwa [pair] at unfailed

/-- Removals and one more step behind them. -/
private theorem runSteps_removing_append (named : List (Text × LineTest)) {text name : Text}
    {step : EditStep} {mark : Edit} (ran : step (removeAll (named.map (·.2)) text) = .ok mark) :
    runSteps text ((named.map fun step => (step.1, removing step.2)) ++ [(name, step)]) =
      .ok (mark.text, (named.map (·.1)).zip (removals (named.map (·.2)) text) ++ [(name, mark)]) := by
  rw [runSteps_append, runSteps_removing]
  simp only [bind, Except.bind, runSteps, ran, pure, Except.pure]

/-- A resource is converted by its removals, its mark, and the pruning of its imports. -/
theorem exists_convert_resource {table text : Text} (asked : AskedNames) {mark : Edit}
    (ran : insertOnce (.literal resourceMarker) (classComment resourceMarker table resourceNote)
      [resourceAnchor] false (removeAll resourceTests text) = .ok mark) :
    ∃ converted, convert .resource table asked text = .ok converted ∧
      converted.text = (pruneImports resourceImports asked mark.text).1.text ∧
      converted.steps.take mutatingMappings.length =
        (mutatingMappings.map ("remove ".toList ++ ·)).zip (removals resourceTests text) := by
  let named := mutatingMappings.map fun mapping =>
    ("remove ".toList ++ mapping, annotatedWith mapping)
  have steps : runSteps text (steps .resource table) = .ok (mark.text, _) :=
    runSteps_removing_append named ran
  rcases pruned : pruneImports resourceImports asked mark.text with ⟨edit, names⟩
  rw [convert, steps]
  simp only [bind, Except.bind, pruned]
  refine ⟨_, rfl, rfl, ?_⟩
  simp only [List.append_assoc]
  exact List.take_left' (by simp [length_removals, named])

/-- A service is converted by its removals and its mark. -/
theorem exists_convert_service {table text : Text} (asked : AskedNames) {mark : Edit}
    (ran : insertOnce (.literal serviceMarker) (classComment serviceMarker table serviceNote)
      [serviceAnchor] false (removeAll serviceTests text) = .ok mark) :
    ∃ converted, convert .service table asked text = .ok converted ∧ converted.text = mark.text ∧
      converted.steps.take mutatingSignatures.length =
        (mutatingSignatures.map fun signature => "remove ".toList ++ signature.1 ++ "()").zip
          (removals serviceTests text) := by
  let named := mutatingSignatures.map fun signature =>
    ("remove ".toList ++ signature.1 ++ "()", holdsSignature signature.2)
  have steps : runSteps text (steps .service table) = .ok (mark.text, _) :=
    runSteps_removing_append named ran
  rw [convert, steps]
  refine ⟨_, rfl, rfl, ?_⟩
  exact List.take_left' (by simp [length_removals, named])

/-- Converted resources and services have no mutating method left in their code: if none of the
removals failed and comments stayed closed to the code, no line outside comments starts one. -/
theorem mutating_methods_gone (text table : Text) (single : table.IsSingleLine) (asked : AskedNames) :
    (∃ converted, convert .resource table asked text = .ok converted ∧
      ((∀ step ∈ converted.steps.take mutatingMappings.length, step.2.outcome ≠ .failed) →
        keepsComments resourceTests resourceMarker resourceAnchor text = true →
        ∀ mapping ∈ mutatingMappings, FreeOf (annotatedWith mapping) converted.text)) ∧
    (∃ converted, convert .service table asked text = .ok converted ∧
      ((∀ step ∈ converted.steps.take mutatingSignatures.length, step.2.outcome ≠ .failed) →
        keepsComments serviceTests serviceMarker serviceAnchor text = true →
        ∀ signature ∈ mutatingSignatures, FreeOf (holdsSignature signature.2) converted.text)) := by
  constructor
  · obtain ⟨mark, ran⟩ := exists_insertOnce (.literal resourceMarker)
      (classComment resourceMarker table resourceNote) [resourceAnchor] (removeAll resourceTests text)
    obtain ⟨converted, converts, final, removed⟩ := exists_convert_resource asked ran
    refine ⟨converted, converts, fun fine comments mapping member => ?_⟩
    have test : annotatedWith mapping ∈ resourceTests := List.mem_map_of_mem member
    rw [removed] at fine
    have fineRemovals := outcome_of_mem_zip (by simp [length_removals, resourceTests]) fine
    have marked : FreeOf (annotatedWith mapping) mark.text :=
      freeOf_marked rfl (by decide) single (by decide) resourceTests_nil
        (fun indent blank => resourceTests_comment blank) fineRemovals comments ran _ test
    rw [final]
    exact marked.mono (resourceTests_nil _ test)
      (codeWithin_pruneImports isPlainImport_of_mem_resourceImports asked mark.text)
  · obtain ⟨mark, ran⟩ := exists_insertOnce (.literal serviceMarker)
      (classComment serviceMarker table serviceNote) [serviceAnchor] (removeAll serviceTests text)
    obtain ⟨converted, converts, final, removed⟩ := exists_convert_service asked ran
    refine ⟨converted, converts, fun fine comments signature member => ?_⟩
    have test : holdsSignature signature.2 ∈ serviceTests := List.mem_map.mpr ⟨signature, member, rfl⟩
    rw [removed] at fine
    have fineRemovals := outcome_of_mem_zip (by simp [length_removals, serviceTests]) fine
    rw [final]
    exact freeOf_marked rfl (by decide) single (by decide) (serviceTests_eq_false (by simp))
      (fun indent blank => serviceTests_comment blank) fineRemovals comments ran _ test

instance (test : LineTest) (text : Text) : Decidable (FreeOf test text) :=
  inferInstanceAs (Decidable (∀ line ∈ code text, test line = false))

/-- A conversion whose result passes a test gives that result. -/
theorem exists_of_convert_passes {kind : SourceKind} {table text : Text}
    {passes : Converted → Prop} [DecidablePred passes]
    (shown : (match convert kind table [] text with
      | .ok converted => decide (passes converted)
      | .error _ => false) = true) :
    ∃ converted, convert kind table [] text = .ok converted ∧ passes converted := by
  split at shown
  · next converted ran => exact ⟨converted, ran, of_decide_eq_true shown⟩
  · cases shown

/-- A resource with an endpoint of every kind, one of them in a comment too, and an unused import. -/
def busyResource : Text :=
  "import java.net.URI;\n@RestController\n@RequestMapping\n@PostMapping\nA a() \x7b\x7d\n@PutMapping\n" ++
    "A b() \x7b\x7d\n@PatchMapping\nA c() \x7b\x7d\n@DeleteMapping\nA d() \x7b\x7d\n/* @PutMapping */"

/-- A service with every method that changes data. -/
def busyService : Text :=
  "@Service\n@Transactional\npublic A save(A a) \x7b \x7d\npublic A update(A a) \x7b \x7d\n" ++
    "public A partialUpdate(A a) \x7b \x7d\npublic void delete(A a) \x7b\n\x7d\n"

/-- Every step of both conversions is taken, and no mutating method is left. -/
theorem mutating_methods_gone_from_busySources :
    (∃ converted, convert .resource "v" [] busyResource = .ok converted ∧
      (∀ step ∈ converted.steps, step.2.outcome = .applied) ∧
      ∀ mapping ∈ mutatingMappings, FreeOf (annotatedWith mapping) converted.text) ∧
    (∃ converted, convert .service "v" [] busyService = .ok converted ∧
      (∀ step ∈ converted.steps, step.2.outcome = .applied) ∧
      ∀ signature ∈ mutatingSignatures, FreeOf (holdsSignature signature.2) converted.text) := by
  have unfailed {converted : Converted} (taken : ∀ step ∈ converted.steps, step.2.outcome = .applied)
      (count : Nat) : ∀ step ∈ converted.steps.take count, step.2.outcome ≠ .failed := by
    intro step member
    simp [taken step (List.mem_of_mem_take member)]
  obtain ⟨⟨resource, ran, free⟩, -⟩ := mutating_methods_gone busyResource "v" (by decide) []
  obtain ⟨-, ⟨service, served, freed⟩⟩ := mutating_methods_gone busyService "v" (by decide) []
  obtain ⟨_, same, taken⟩ : ∃ converted, convert .resource "v" [] busyResource = .ok converted ∧
      ∀ step ∈ converted.steps, step.2.outcome = .applied :=
    exists_of_convert_passes (by decide +kernel)
  obtain ⟨_, alike, acted⟩ : ∃ converted, convert .service "v" [] busyService = .ok converted ∧
      ∀ step ∈ converted.steps, step.2.outcome = .applied :=
    exists_of_convert_passes (by decide +kernel)
  obtain rfl := Except.ok.inj (ran.symm.trans same)
  obtain rfl := Except.ok.inj (served.symm.trans alike)
  exact ⟨⟨resource, ran, taken, free (unfailed taken _) (by decide +kernel)⟩,
    ⟨service, served, acted, freed (unfailed acted _) (by decide +kernel)⟩⟩

/-- A service that is commented out as a whole. -/
def commentedService : Text := "/*\n@Service\n@Transactional\npublic A save(\n*/"

/-- A service with a comment that starts between the signature of a method and its body. -/
def commentedHeader : Text := "public A update(\n/* was\n{ }\npublic A save(\n*/"

/-- Without any failed removal a method in a comment may become code: a mark that is put inside the
comment closes it, and a removal may drop the line that opens it. -/
theorem method_uncovered :
    (∃ converted, convert .service "v" [] commentedService = .ok converted ∧
      (∀ step ∈ converted.steps.take mutatingSignatures.length, step.2.outcome ≠ .failed) ∧
      ∃ signature ∈ mutatingSignatures, ¬ FreeOf (holdsSignature signature.2) converted.text) ∧
    (∃ converted, convert .service "v" [] commentedHeader = .ok converted ∧
      (∀ step ∈ converted.steps.take mutatingSignatures.length, step.2.outcome ≠ .failed) ∧
      ∃ signature ∈ mutatingSignatures, ¬ FreeOf (holdsSignature signature.2) converted.text) :=
  ⟨exists_of_convert_passes (by decide +kernel), exists_of_convert_passes (by decide +kernel)⟩

end ReadOnly

end ReadOnlyViews
