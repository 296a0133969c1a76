import ReadOnlyViews.Java.Imports
import ReadOnlyViews.Proofs.Comments
import ReadOnlyViews.Proofs.Patterns
import ReadOnlyViews.Proofs.Texts

/-! Pruning takes whole import lines out of a text.  An import line neither opens nor closes a
comment, so the lines that are left are in the code afterwards only if they were before. -/
namespace ReadOnlyViews.Java

/-- An import statement on a line of its own, with blanks around it. -/
def IsImportLine (statement line : Text) : Prop :=
  ∃ front back : Text, (∀ c ∈ front, isBlankOrTab c = true) ∧ (∀ c ∈ back, isBlankOrTab c = true) ∧
    line = front ++ statement ++ back

theorem IsImportLine.mem {statement line : Text} (imports : IsImportLine statement line) {c : Char}
    (member : c ∈ line) : isBlankOrTab c = true ∨ c ∈ statement := by
  obtain ⟨front, back, blankFront, blankBack, rfl⟩ := imports
  rw [List.mem_append, List.mem_append] at member
  obtain (inFront | inside) | inBack := member
  · exact .inl (blankFront c inFront)
  · exact .inr inside
  · exact .inl (blankBack c inBack)

/-- A match of an import line is such a line at the start of a line, with its line end. -/
theorem exists_line_of_spans_importLine {statement before mid after : Text}
    (spans : (importLine statement).Spans before mid after) :
    (before = [] ∨ before.head? = some '\n') ∧ ∃ line ending, IsImportLine statement line ∧
      mid = line ++ ending ∧
      (ending = ['\n'] ∨ ending = ['\r', '\n'] ∨ ending = [] ∧ after = []) := by
  simp only [importLine, Pattern.lineBreakOrEnd, Pattern.spans_append, Pattern.spans_lineStart,
    Pattern.spans_run, Pattern.spans_exactly, Pattern.spans_either, Pattern.spans_optional,
    Pattern.spans_textEnd] at spans
  obtain ⟨_, ending, rfl, ⟨_, back, rfl, ⟨_, _, rfl, ⟨_, front, rfl, ⟨rfl, start⟩, blankFront⟩, part⟩,
    blankBack⟩, ends⟩ := spans
  obtain rfl := part.symm
  refine ⟨start, front ++ statement ++ back, ending, ⟨front, back, blankFront, blankBack, rfl⟩,
    by simp, ?_⟩
  obtain ⟨_, _, rfl, rfl | rfl, rfl⟩ | ⟨rfl, rfl⟩ := ends
  · exact .inr (.inl rfl)
  · exact .inl rfl
  · exact .inr (.inr ⟨rfl, rfl⟩)

/-- Erasing an import line takes it out of the lines; at the end of a text an empty line stays. -/
theorem exists_lines_of_eraseFirst? {statement text rest : Text} (single : statement.IsSingleLine)
    (erased : (importLine statement).eraseFirst? text = some rest) :
    ∃ front line back, IsImportLine statement line ∧ Document.lines text = front ++ line :: back ∧
      (Document.lines rest = front ++ back ∨ back = [] ∧ Document.lines rest = front ++ [[]]) := by
  obtain ⟨found, first, rfl⟩ := Option.map_eq_some_iff.mp erased
  obtain ⟨mid, whole, _, spans⟩ := Pattern.exists_spans_of_find?_eq_some first
  obtain ⟨start, line, ending, imports, rfl, ends⟩ := exists_line_of_spans_importLine spans
  have outside {c : Char} (other : isBlankOrTab c = false) (absent : c ∉ statement) : c ∉ line := by
    intro member
    obtain blank | inside := imports.mem member
    · simp [other] at blank
    · exact absent inside
  have freeLine : '\n' ∉ line := outside (by decide) single.1
  have openLine : line.getLast? ≠ some '\r' := fun last =>
    outside (by decide) single.2 (List.mem_of_getLast? last)
  have ended : found.start.before.reverse = [] ∨ found.start.before.reverse.getLast? = some '\n' := by
    simpa using start
  refine ⟨(Document.lines found.start.before.reverse).dropLast, line, ?_⟩
  rw [whole, List.append_assoc, Document.lines_append_of_ended ended,
    Document.lines_append_of_ended ended]
  obtain rfl | rfl | ⟨rfl, last⟩ := ends
  · refine ⟨Document.lines found.stop.after, imports, ?_, .inl rfl⟩
    simpa using Document.lines_append_lf freeLine openLine found.stop.after
  · refine ⟨Document.lines found.stop.after, imports, ?_, .inl rfl⟩
    simpa using Document.lines_append_crlf freeLine found.stop.after
  · refine ⟨[], imports, ?_, .inr ⟨rfl, ?_⟩⟩
    · simpa [last] using Document.lines_eq_singleton freeLine
    · simp [last, Document.lines]

/-- A line without an asterisk neither opens nor closes a block comment. -/
theorem commentBehind_of_star_notMem {line : Text} (absent : '*' ∉ line) (opened : Bool) :
    commentBehind opened line = opened := by
  have trimmed : '*' ∉ Text.trim line := fun member => absent (Text.mem_of_mem_trim member)
  cases opened with
  | true =>
    have unclosed := Text.includes_eq_false_of_notMem (show '*' ∈ "*/".toList by decide) trimmed
    simp only [commentBehind, unclosed, Bool.not_false]
  | false =>
    have unopened : Text.after? "/*" (Text.trim line) = none := by
      rw [Option.eq_none_iff_forall_ne_some]
      intro tail starts
      exact trimmed (by rw [Text.after?_eq_some_iff.mp starts]; simp)
    simp only [commentBehind, unopened]

/-- Taking out a line without an asterisk uncovers nothing. -/
theorem codeLines_subset_of_star_notMem {line : Text} (absent : '*' ∉ line) (opened : Bool)
    (front back : List Text) :
    codeLines opened (front ++ back) ⊆ codeLines opened (front ++ line :: back) := by
  have later : codeLines (commentOpen opened front) back ⊆
      codeLines (commentOpen opened front) (line :: back) := by
    rw [codeLines, commentBehind_of_star_notMem absent]
    split
    · exact List.Subset.refl _
    · exact List.subset_cons_self _ _
  rw [codeLines_append, codeLines_append]
  exact List.append_subset.mpr ⟨List.subset_append_left _ _,
    List.Subset.trans later (List.subset_append_right _ _)⟩

/-! ## Candidates in turn -/

/-- An import stands alone on a line of a text that does not use its class. -/
def Idle (statement text : Text) : Prop :=
  Text.includes statement text = true ∧
    isUsed (importClassName statement) (Text.eraseFirst statement text) = false ∧
    ((importLine statement).eraseFirst? text).isSome = true

instance (statement text : Text) : Decidable (Idle statement text) :=
  inferInstanceAs (Decidable (_ ∧ _ ∧ _))

/-- A candidate that goes when its turn comes: it names a class and is idle. -/
def Prunable (statement text : Text) : Prop := importClassName statement ≠ [] ∧ Idle statement text

theorem Prunable.ne_nil {statement text : Text} (prunable : Prunable statement text) : statement ≠ [] := by
  rintro rfl
  exact prunable.1 (by decide)

/-- What one candidate comes to. -/
theorem consider_cases (state : Pruning) (statement : Text) :
    (Prunable statement state.text ∧
      (importLine statement).eraseFirst? state.text = some (state.consider statement).text ∧
      (state.consider statement).removed = state.removed ++ [importClassName statement]) ∨
    (¬ Prunable statement state.text ∧ (state.consider statement).text = state.text ∧
      (state.consider statement).removed = state.removed) := by
  unfold Pruning.consider
  split
  · next absent =>
    refine .inr ⟨fun prunable => ?_, rfl, rfl⟩
    rw [prunable.2.1] at absent
    cases absent
  · next included =>
    dsimp only
    split
    · next nameless => exact .inr ⟨fun prunable => prunable.1 (by simpa using nameless), rfl, rfl⟩
    · next named =>
      rw [AskedNames.uses_eq_isUsed]
      split
      · next used =>
        refine .inr ⟨fun prunable => ?_, rfl, rfl⟩
        rw [prunable.2.2.1] at used
        cases used
      · next unused =>
        cases erased : (importLine statement).eraseFirst? state.text with
        | none =>
          refine .inr ⟨fun prunable => ?_, rfl, rfl⟩
          have stands := prunable.2.2.2
          rw [erased] at stands
          cases stands
        | some text =>
          refine .inl ⟨⟨by simpa using named, by simpa using included, by simpa using unused, ?_⟩, rfl, rfl⟩
          rw [erased]
          rfl

theorem text_pruneImports (candidates : List Text) (asked : AskedNames) (text : Text) :
    (pruneImports candidates asked text).1.text =
      (candidates.foldl Pruning.consider { text, asked, removed := [] }).text := by
  unfold pruneImports
  dsimp only
  split
  · rfl
  · rfl

/-- What every candidate that goes keeps, pruning keeps. -/
theorem pruneImports_induction {candidates : List Text} {holds : Text → Prop}
    (step : ∀ statement ∈ candidates, ∀ text rest, holds text → Idle statement text →
      (importLine statement).eraseFirst? text = some rest → holds rest)
    {text : Text} (start : holds text) (asked : AskedNames) :
    holds (pruneImports candidates asked text).1.text := by
  have folded (state : Pruning) (start : holds state.text) :
      holds (candidates.foldl Pruning.consider state).text := by
    induction candidates generalizing state with
    | nil => exact start
    | cons statement candidates ih =>
      refine ih (fun other member => step other (by simp [member])) _ ?_
      rcases consider_cases state statement with ⟨prunable, erased, -⟩ | ⟨-, same, -⟩
      · exact step statement (by simp) _ _ start prunable.2 erased
      · exact same ▸ start
  rw [text_pruneImports]
  exact folded _ start

/-- A candidate whose text has no asterisk and fits on a line. -/
structure IsPlainImport (statement : Text) : Prop where
  single : statement.IsSingleLine
  starless : '*' ∉ statement

/-- Erasing an import line uncovers nothing. -/
theorem codeWithin_of_eraseFirst? {statement text rest : Text} (plain : IsPlainImport statement)
    (erased : (importLine statement).eraseFirst? text = some rest) : CodeWithin text rest := by
  obtain ⟨front, line, back, imports, before, after⟩ := exists_lines_of_eraseFirst? plain.single erased
  have absent : '*' ∉ line := by
    intro member
    obtain blank | inside := imports.mem member
    · simp [isBlankOrTab] at blank
    · exact plain.starless inside
  intro left member
  rw [code] at member ⊢
  rw [before]
  obtain same | ⟨rfl, last⟩ := after
  · rw [same] at member
    exact .inr (codeLines_subset_of_star_notMem absent false front back member)
  · rw [last, codeLines_append, List.mem_append] at member
    obtain inFront | empty := member
    · rw [codeLines_append]
      exact .inr (List.mem_append_left _ inFront)
    · exact .inl (List.mem_singleton.mp (codeLines_subset _ _ empty))

/-- Pruning uncovers nothing. -/
theorem codeWithin_pruneImports {candidates : List Text}
    (plain : ∀ statement ∈ candidates, IsPlainImport statement) (asked : AskedNames) (text : Text) :
    CodeWithin text (pruneImports candidates asked text).1.text :=
  pruneImports_induction (fun statement candidate _ _ within _ erased =>
    within.trans (codeWithin_of_eraseFirst? (plain statement candidate) erased)) (.refl text) asked

set_option maxRecDepth 4000 in
theorem isPlainImport_of_mem_resourceImports :
    ∀ statement ∈ resourceImports, IsPlainImport statement := by
  have checked : ∀ statement ∈ resourceImports, statement.IsSingleLine ∧ '*' ∉ statement := by
    unfold resourceImports
    repeat rw [String.toList_ofList]
    decide +kernel
  exact fun statement candidate => ⟨(checked statement candidate).1, (checked statement candidate).2⟩

end ReadOnlyViews.Java
