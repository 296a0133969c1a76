import ReadOnlyViews.Proofs.DisabledTests
import ReadOnlyViews.Proofs.Includes
import ReadOnlyViews.Proofs.PruningOrder

/-! Conversions of sources that were converted before.  They are left as they are: entities and
repositories whatever they look like, the other sources under conditions on the text that is converted
first.  A resource has its imports in front of everything else, each of them once, so that pruning one of
them uncovers nothing; a test does not end with an annotation. -/
namespace ReadOnlyViews

open Document (Row rows textOf AreRows Drops areRows_rows)

namespace Java

/-! ## Imports in front -/

/-- The last visible character of a text. -/
def lastVisible (text : Text) : Option Char := (text.reverse.dropWhile isBlank).head?

private theorem lastVisible_append (front back : Text) :
    lastVisible (front ++ back) = (lastVisible back).or (lastVisible front) := by
  rw [lastVisible, List.reverse_append, List.dropWhile_append, lastVisible, lastVisible]
  split
  · next empty => rw [List.isEmpty_iff.mp empty, List.head?_nil, Option.none_or]
  · next some_ =>
    obtain ⟨c, rest, cut⟩ := List.exists_cons_of_ne_nil (List.isEmpty_eq_false_iff.mp (Bool.not_eq_true _ ▸ some_))
    rw [cut]
    rfl

private theorem lastVisible_of_blank {text : Text} (blank : ∀ c ∈ text, isBlank c = true) :
    lastVisible text = none := by
  rw [lastVisible, List.head?_eq_none_iff, List.dropWhile_eq_nil_iff]
  simpa using blank

/-- A line that is blank or ends with a semicolon, and does not start with an annotation. -/
def IsStatement (line : Text) : Prop :=
  ReadOnly.firstVisible line ≠ some '@' ∧ (lastVisible line).all (· == ';') = true

instance (line : Text) : Decidable (IsStatement line) := inferInstanceAs (Decidable (_ ∧ _))

/-- The imports that may be pruned are each there once at most, behind nothing but statements. -/
structure OrderlyImports (lines : List Text) : Prop where
  first : lines.Pairwise fun earlier line => Text.trim line ∈ resourceImports → IsStatement earlier
  once : ∀ statement ∈ resourceImports, Document.occurrencesIn statement lines ≤ 1

instance (lines : List Text) : Decidable (OrderlyImports lines) :=
  decidable_of_iff (_ ∧ _) ⟨fun both => ⟨both.1, both.2⟩, fun orderly => ⟨orderly.first, orderly.once⟩⟩

set_option maxRecDepth 4000 in
private theorem ends_of_mem_resourceImports : ∀ statement ∈ resourceImports,
    statement.head? = some 'i' ∧ statement.getLast? = some ';' := by
  unfold resourceImports
  repeat rw [String.toList_ofList]
  decide +kernel

/-- Without the blanks around it the line of an import is the import. -/
theorem IsImportLine.trim_eq {statement line : Text} (imports : IsImportLine statement line)
    (candidate : statement ∈ resourceImports) : Text.trim line = statement := by
  obtain ⟨front, back, blankFront, blankBack, rfl⟩ := imports
  obtain ⟨starts, ends⟩ := ends_of_mem_resourceImports statement candidate
  obtain ⟨inner, rfl⟩ := List.head?_eq_some_iff.mp starts
  obtain ⟨middle, rfl⟩ : ∃ middle, inner = middle ++ [';'] := by
    cases inner with
    | nil => cases ends
    | cons c inner => exact List.getLast?_eq_some_iff.mp (by simpa using ends)
  have behind : Text.trimEnd back = [] := by
    rw [Text.trimEnd, List.reverse_eq_nil_iff, List.dropWhile_eq_nil_iff]
    exact fun c member => Text.isBlank_of_isBlankOrTab (blankBack c (List.mem_reverse.mp member))
  rw [List.append_assoc, List.cons_append, Text.trim_indent_cons
    (fun c member => Text.isBlank_of_isBlankOrTab (blankFront c member)) (by decide), List.append_assoc,
    List.singleton_append, Text.trimEnd_append_cons (by decide), behind]

/-- A line that is an import starts like one. -/
theorem firstVisible_of_trim_mem {line : Text} (candidate : Text.trim line ∈ resourceImports) :
    ReadOnly.firstVisible line = some 'i' := by
  have starts := (ends_of_mem_resourceImports _ candidate).1
  have visible : line.all isBlank = false := by
    rw [← Text.isEmpty_trim, List.isEmpty_eq_false_iff]
    intro none
    rw [none] at starts
    cases starts
  obtain ⟨indent, c, rest, rfl, blank, shown⟩ := Text.exists_visible visible
  rw [Text.trim_indent_cons blank shown, List.head?_cons] at starts
  rw [ReadOnly.firstVisible_indent blank, ← starts]
  simp [ReadOnly.firstVisible, shown]

namespace OrderlyImports

variable {all : List Text}

theorem sublist (orderly : OrderlyImports all) {fewer : List Text} (sub : fewer.Sublist all) :
    OrderlyImports fewer where
  first := orderly.first.sublist sub
  once statement candidate :=
    Nat.le_trans (Document.occurrencesIn_le_of_sublist statement sub) (orderly.once statement candidate)

theorem blank : OrderlyImports [[]] where
  first := List.pairwise_singleton _ _
  once _ _ := Nat.zero_le _

/-- Behind an annotation there is no import any more. -/
theorem not_import_from {front back : List Text} {line : Text} (orderly : OrderlyImports (front ++ line :: back))
    (annotated : ReadOnly.firstVisible line = some '@') :
    ∀ other ∈ line :: back, Text.trim other ∉ resourceImports := by
  intro other member candidate
  rcases List.mem_cons.mp member with rfl | behind
  · rw [firstVisible_of_trim_mem candidate] at annotated
    cases annotated
  · have pairs := (List.pairwise_append.mp orderly.first).2.1
    exact ((List.pairwise_cons.mp pairs).1 other behind candidate).1 annotated

end OrderlyImports

/-! ## What pruning is given -/

private theorem two_le_occurrences {part before after later rest : Text} (some_ : part ≠ [])
    (longer : before.length < later.length) (same : before ++ part ++ after = later ++ part ++ rest) :
    2 ≤ Text.occurrences part (before ++ part ++ after) := by
  rw [List.append_assoc, List.append_assoc] at same
  rcases List.append_eq_append_iff.mp same with ⟨gap, rfl, cut⟩ | ⟨gap, rfl, -⟩
  · cases gap with
    | nil => simp at longer
    | cons c gap =>
      have starts : part <+: c :: (gap ++ (part ++ rest)) := ⟨after, cut⟩
      have again : Text.occurrences part (part ++ rest) ≠ 0 := fun none =>
        (Text.occurrences_eq_zero_iff some_).mp none (List.prefix_append _ _).isInfix
      have here := Text.occurrences_le_append part before (part ++ after)
      have there := Text.occurrences_le_append part gap (part ++ rest)
      rw [List.append_assoc]
      rw [cut, List.cons_append, Text.occurrences_cons_of_begins starts] at here
      rw [cut, List.cons_append]
      omega
  · rw [List.length_append] at longer
    omega

/-- A part that is there occurs once if it does not occur more often. -/
theorem occursOnce_of_occurrences_le {part text : Text} (some_ : part ≠ [])
    (most : Text.occurrences part text ≤ 1) (included : Text.includes part text = true) : OccursOnce part text := by
  obtain ⟨before, after, rfl⟩ := Text.includes_iff.mp included
  refine ⟨before, ⟨after, rfl⟩, ?_⟩
  rintro later ⟨rest, same⟩
  rcases Nat.lt_trichotomy before.length later.length with longer | even | shorter
  · have twice := two_le_occurrences some_ longer same
    omega
  · rw [List.append_assoc, List.append_assoc] at same
    exact (List.append_inj same even).1.symm
  · have twice := two_le_occurrences some_ shorter same.symm
    rw [← same] at twice
    omega

private theorem lastVisible_textOf {all : List Row} (areRows : AreRows all)
    (statements : ∀ row ∈ all, IsStatement row.line) : (lastVisible (textOf all)).all (· == ';') = true := by
  induction all with
  | nil => rfl
  | cons row others ih =>
    have behind := ih areRows.tail fun other member => statements other (by simp [member])
    rw [Document.textOf_cons, lastVisible_append, lastVisible_append,
      lastVisible_of_blank (isBlank_of_mem_ending areRows)]
    cases seen : lastVisible (textOf others) with
    | none => simpa using (statements row (by simp)).2
    | some c => simpa [seen] using behind

/-- Imports that are orderly are independent of each other. -/
theorem OrderlyImports.independent {text : Text} (orderly : OrderlyImports (Document.lines text)) :
    Independent resourceImports text where
  single statement candidate := (isPlainImport_of_mem_resourceImports statement candidate).single
  once statement candidate name imports included := by
    have single := (isPlainImport_of_mem_resourceImports statement candidate).single
    have within : Document.WithinLine statement :=
      ⟨imports.statement_ne_nil, single.1, fun last => single.2 (List.mem_of_getLast? last)⟩
    refine occursOnce_of_occurrences_le imports.statement_ne_nil ?_ included
    rw [← within.occurrencesIn_lines]
    exact orderly.once statement candidate
  foreign statement candidate name imports other := foreign_resourceImports candidate imports
  closed front row back split inRow statement candidate name imports := by
    obtain ⟨own, isOwn, inLine⟩ := inRow
    have areAll : AreRows (front ++ row :: back) := split ▸ areRows_rows text
    have statements : ∀ other ∈ front, IsStatement other.line := by
      have pairs := orderly.first
      rw [← Document.map_line_rows, split, List.map_append, List.map_cons] at pairs
      intro other member
      refine (List.pairwise_append.mp pairs).2.2 _ (List.mem_map_of_mem member) row.line (by simp) ?_
      rw [inLine.trim_eq isOwn]
      exact isOwn
    refine closed_of_lastVisible imports.ne_nil imports.isWord_of_mem fun c last => ?_
    have stops := lastVisible_textOf (areAll.sublist (List.sublist_append_left _ _)) statements
    rw [lastVisible, Option.mem_def.mp last] at stops
    simp only [Option.all_some, beq_iff_eq] at stops
    simp [stops, stoppers]

theorem lines_removeMethods (test : LineTest) (text : Text) :
    (Document.lines (removeMethods test text).text).Sublist (Document.lines text) ∨
      Document.lines (removeMethods test text).text = [[]] := by
  have sub : (removeFrom test 0 false 0 (Document.lines text)).kept.Sublist (Document.lines text) :=
    kept_sublist _ 0 _ _ _
  rw [removeMethods_text]
  by_cases empty : (removeFrom test 0 false 0 (Document.lines text)).kept = []
  · exact .inr (by rw [empty, Document.lines_render_nil])
  · rw [((Document.separable_lines text).of_sublist sub).lines_render empty]
    exact .inl sub

/-- Removals leave imports orderly. -/
theorem OrderlyImports.removeAll {text : Text} (orderly : OrderlyImports (Document.lines text))
    (tests : List LineTest) : OrderlyImports (Document.lines (removeAll tests text)) := by
  induction tests generalizing text with
  | nil => exact orderly
  | cons test later ih =>
    refine ih ?_
    rcases lines_removeMethods test text with fewer | none
    · exact orderly.sublist fewer
    · rw [none]
      exact .blank

end Java

namespace ReadOnly

open Java (AskedNames OrderlyImports)

/-! ## Resources -/

private theorem spans_resourceAnchor_iff {before mid after : Text} :
    resourceAnchor.target.Spans before mid after ↔ (before = [] ∨ before.head? = some '\n') ∧
      ∃ indent first second, (∀ c ∈ indent, isBlankOrTab c = true) ∧ (∀ c ∈ first, isBlank c = true) ∧
        (∀ c ∈ second, isBlank c = true) ∧
        mid = indent ++ "@RestController".toList ++ first ++ "\n".toList ++ second ++ "@RequestMapping".toList := by
  simp only [resourceAnchor, lineIndent, Pattern.blanks, Pattern.spans_append, Pattern.spans_lineStart,
    Pattern.spans_run, Pattern.spans_exactly]
  constructor
  · rintro ⟨_, _, rfl, ⟨_, second, rfl, ⟨_, _, rfl, ⟨_, first, rfl, ⟨_, _, rfl,
      ⟨_, indent, rfl, ⟨rfl, starts⟩, blank⟩, rfl⟩, firstBlank⟩, rfl⟩, secondBlank⟩, rfl⟩
    exact ⟨starts, indent, first, second, blank, firstBlank, secondBlank, rfl⟩
  · rintro ⟨starts, indent, first, second, blank, firstBlank, secondBlank, rfl⟩
    exact ⟨_, _, rfl, ⟨_, second, rfl, ⟨_, _, rfl, ⟨_, first, rfl, ⟨_, _, rfl,
      ⟨[], indent, rfl, ⟨rfl, starts⟩, blank⟩, rfl⟩, firstBlank⟩, rfl⟩, secondBlank⟩, rfl⟩

private theorem headsLine_resourceAnchor : HeadsLine "@RestController".toList resourceAnchor.target := by
  intro before mid after spans
  obtain ⟨starts, indent, first, second, blank, -, -, rfl⟩ := spans_resourceAnchor_iff.mp spans
  exact ⟨starts, indent, first ++ "\n".toList ++ second ++ "@RequestMapping".toList, blank, by simp⟩

private theorem firstVisible_annotated {indent tail : Text} (blank : ∀ c ∈ indent, isBlankOrTab c = true) :
    firstVisible (indent ++ "@RestController".toList ++ tail) = some '@' := by
  rw [List.append_assoc, firstVisible_indent fun c member => Text.isBlank_of_isBlankOrTab (blank c member)]
  rfl

private theorem firstVisible_of_mem_indentedComment {indent marker table note new : Text}
    (blank : ∀ c ∈ indent, isBlank c = true) (member : new ∈ indentedComment indent marker table note) :
    firstVisible new = some '/' ∨ firstVisible new = some '*' := by
  obtain ⟨bare, inComment, rfl⟩ := List.mem_map.mp member
  rw [firstVisible_indent blank]
  simp only [classComment, List.mem_cons, List.not_mem_nil, or_false] at inComment
  rcases inComment with rfl | rfl | rfl | rfl
  · exact .inl rfl
  · exact .inr rfl
  · exact .inr rfl
  · exact .inr rfl

/-- No import stands in the comment, which has no semicolon. -/
private theorem occurrencesIn_indentedComment {indent table statement : Text}
    (blank : ∀ c ∈ indent, isBlank c = true) (ends : ';' ∉ table)
    (candidate : statement ∈ Java.resourceImports) :
    Document.occurrencesIn statement (indentedComment indent resourceMarker table resourceNote) = 0 := by
  have semicolon : ';' ∈ statement := List.mem_of_getLast? (Java.ends_of_mem_resourceImports statement candidate).2
  refine (Document.occurrencesIn_eq_zero_iff (List.ne_nil_of_mem semicolon)).mpr fun new member within => ?_
  obtain ⟨bare, inComment, rfl⟩ := List.mem_map.mp member
  rcases List.mem_append.mp (within.subset semicolon) with inIndent | inBare
  · exact absurd (blank _ inIndent) (by decide)
  · exact notMem_classComment (by decide) ends (by decide) (by decide) bare inComment inBare

/-- The class comment of a resource leaves imports orderly. -/
theorem orderlyImports_mark {table text : Text} {mark : Edit} (single : table.IsSingleLine) (ends : ';' ∉ table)
    (orderly : OrderlyImports (Document.lines text))
    (ran : insertOnce (.literal resourceMarker) (classComment resourceMarker table resourceNote)
      [resourceAnchor] false text = .ok mark) :
    OrderlyImports (Document.lines mark.text) := by
  rcases lines_mark rfl (by decide) single (by decide) ran with same | ⟨-, line, indent, placed, blank, lines⟩
  · rwa [same]
  obtain ⟨lead, tail, leads, there⟩ := exists_line_of_place headsLine_resourceAnchor (by decide) placed
  obtain ⟨inside, found⟩ := List.getElem?_eq_some_iff.mp there
  have cut : (Document.lines text).drop line =
      (lead ++ "@RestController".toList ++ tail) :: (Document.lines text).drop (line + 1) := by
    rw [List.drop_eq_getElem_cons inside, found]
  have behind : ∀ other ∈ (Document.lines text).drop line, Text.trim other ∉ Java.resourceImports := by
    have whole := orderly
    rw [← List.take_append_drop line (Document.lines text), cut] at whole
    rw [cut]
    exact whole.not_import_from (firstVisible_annotated leads)
  rw [lines, List.append_assoc]
  constructor
  · have free : ∀ other ∈ indentedComment indent resourceMarker table resourceNote ++ (Document.lines text).drop line,
        Text.trim other ∉ Java.resourceImports := by
      intro other member candidate
      rcases List.mem_append.mp member with new | old
      · have starts := Java.firstVisible_of_trim_mem candidate
        rcases firstVisible_of_mem_indentedComment blank new with seen | seen
        · cases starts.symm.trans seen
        · cases starts.symm.trans seen
      · exact behind other old candidate
    refine List.pairwise_append.mpr ⟨orderly.first.sublist (List.take_sublist _ _), ?_, ?_⟩
    · exact List.pairwise_of_forall_mem_list fun _ _ other member candidate => absurd candidate (free other member)
    · exact fun _ _ other member candidate => absurd candidate (free other member)
  · intro statement candidate
    have most := orderly.once statement candidate
    rw [← List.take_append_drop line (Document.lines text), Document.occurrencesIn_append] at most
    rw [Document.occurrencesIn_append, Document.occurrencesIn_append,
      occurrencesIn_indentedComment blank ends candidate]
    omega

/-- Pruning brings no place for the class comment about: what it takes out stands in front of it. -/
theorem place?_resourceAnchor_pruneImports {text : Text} (orderly : OrderlyImports (Document.lines text))
    (unplaced : resourceAnchor.place? text = none) (asked : AskedNames) :
    resourceAnchor.place? (Java.pruneImports Java.resourceImports asked text).1.text = none := by
  obtain ⟨kept, drops, -, pruned⟩ := orderly.independent.exists_kept (List.Perm.refl _) asked
  rw [place?_eq_none_iff rfl, Pattern.occursIn_eq_false_iff] at unplaced ⊢
  intro front mid rest split spans
  obtain ⟨starts, indent, first, second, blank, firstBlank, secondBlank, rfl⟩ := spans_resourceAnchor_iff.mp spans
  have cut : textOf kept = front ++ (indent ++ "@RestController".toList ++
      (first ++ "\n".toList ++ second ++ "@RequestMapping".toList ++ rest)) := by
    rw [← pruned, split]
    simp
  obtain ⟨before, row, behind, right, rfl, inLine, rfl, tail⟩ :=
    ((areRows_rows text).sublist drops.sublist).exists_row_of_start
      ⟨notMem_indent_append rfl blank (by decide), notMem_indent_append rfl blank (by decide)⟩ (by simp)
      (by simpa using starts) cut
  obtain ⟨ahead, back, all, -, inBack⟩ := drops.exists_of_left
  have areAll : AreRows (ahead ++ row :: back) := all ▸ areRows_rows text
  have stays : ∀ other ∈ back, ¬ Java.Goes Java.resourceImports text other := by
    intro other member goes
    have lines := orderly
    rw [← Document.map_line_rows, all, List.map_append, List.map_cons] at lines
    obtain ⟨statement, candidate, inRow⟩ := goes.isCandidateRow
    refine lines.not_import_from (inLine ▸ firstVisible_annotated blank) other.line
      (List.mem_cons_of_mem _ (List.mem_map_of_mem member)) ?_
    rwa [inRow.trim_eq candidate]
  obtain rfl : behind = back := inBack.unique (.refl _ _)
    (fun other member => stays other (inBack.sublist.subset member)) stays
  refine unplaced (textOf ahead) _ rest ?_ (spans_resourceAnchor_iff.mpr
    ⟨by simpa using areAll.ended_textOf, indent, first, second, blank, firstBlank, secondBlank, rfl⟩)
  calc text = textOf ahead ++ (row.line ++ (row.ending ++ textOf behind)) := by
        rw [← Document.textOf_cons, ← Document.textOf_append, ← all, Document.textOf_rows]
    _ = textOf ahead ++ (indent ++ "@RestController".toList ++ (right ++ (row.ending ++ textOf behind))) := by
        rw [inLine, List.append_assoc _ right]
    _ = _ := by
        rw [← tail]
        simp

/-- What a text includes within a line, with a character that no import has, is not pruned. -/
theorem includes_pruneImports {candidates : List Text} {part text : Text} {c : Char}
    (plain : ∀ statement ∈ candidates, Java.IsPlainImport statement)
    (foreign : ∀ statement ∈ candidates, c ∉ statement) (visible : isBlankOrTab c = false)
    (inside : c ∈ part) (single : part.IsSingleLine) (included : Text.includes part text = true)
    (asked : AskedNames) :
    Text.includes part (Java.pruneImports candidates asked text).1.text = true := by
  refine @Java.pruneImports_induction candidates (Text.includes part · = true) ?_ _ included asked
  intro statement candidate text rest included _ erased
  obtain ⟨front, gone, back, imports, cut, left⟩ :=
    Java.exists_lines_of_eraseFirst? (plain statement candidate).single erased
  obtain ⟨line, member, within⟩ :=
    Document.exists_line_of_infix single.1 single.2 (Text.includes_iff.mp included)
  have apart : line ≠ gone := by
    rintro rfl
    rcases imports.mem (within.subset inside) with blank | spelled
    · rw [visible] at blank
      cases blank
    · exact foreign statement candidate spelled
  have stays : line ∈ Document.lines rest := by
    rw [cut, List.mem_append, List.mem_cons] at member
    rcases left with same | ⟨rfl, same⟩
    · rw [same, List.mem_append]
      tauto
    · rw [same, List.mem_append]
      rcases member with member | same | none
      · exact .inl member
      · exact absurd same apart
      · cases none
  exact Text.includes_iff.mpr (within.trans (Document.isRow_of_mem_lines stays).within)

/-! ## Any source -/

/-- Removals come to their end without opening comments to the code. -/
structure RemovesAll (tests : List Java.LineTest) (marker : Text) (anchor : Anchor) (text : Text) : Prop where
  fine : ∀ edit ∈ Java.removals tests text, edit.outcome ≠ .failed
  comments : keepsComments tests marker anchor text = true

instance (tests : List Java.LineTest) (marker : Text) (anchor : Anchor) (text : Text) :
    Decidable (RemovesAll tests marker anchor text) :=
  decidable_of_iff (_ ∧ _) ⟨fun both => ⟨both.1, both.2⟩, fun removes => ⟨removes.fine, removes.comments⟩⟩

/-- What a second conversion needs of a source to leave what the first one made of it.  Removals must
come to their end without opening comments to the code, the imports of a resource must be orderly, and
its table must not spell another one; a test must not end with an annotation. -/
def Settles (kind : SourceKind) (table text : Text) : Prop :=
  match kind with
  | .entity | .repository => True
  | .service => RemovesAll serviceTests serviceMarker serviceAnchor text
  | .resource =>
    RemovesAll resourceTests resourceMarker resourceAnchor text ∧ OrderlyImports (Document.lines text) ∧
      ';' ∉ table
  | .test => SettlesTest text

instance (kind : SourceKind) (table text : Text) : Decidable (Settles kind table text) :=
  match kind with
  | .entity | .repository => inferInstanceAs (Decidable True)
  | .service => inferInstanceAs (Decidable (RemovesAll _ _ _ _))
  | .resource => inferInstanceAs (Decidable (_ ∧ _ ∧ _))
  | .test => inferInstanceAs (Decidable (SettlesTest text))

private theorem leaves_serviceSteps {table text : Text} {mark : Edit} (single : table.IsSingleLine)
    (removes : RemovesAll serviceTests serviceMarker serviceAnchor text)
    (ran : insertOnce (.literal serviceMarker) (classComment serviceMarker table serviceNote)
      [serviceAnchor] false (Java.removeAll serviceTests text) = .ok mark) :
    ∀ step ∈ steps .service table, Leaves step.2 mark.text := by
  have free : ∀ test ∈ serviceTests, Java.FreeOf test mark.text :=
    freeOf_marked rfl (by decide) single (by decide) (serviceTests_eq_false (by simp))
      (fun indent blank => serviceTests_comment blank) removes.fine removes.comments ran
  intro step member
  rcases List.mem_append.mp member with removal | last
  · obtain ⟨signature, inside, rfl⟩ := List.mem_map.mp removal
    exact Java.leaves_removing (free _ (List.mem_map.mpr ⟨signature, inside, rfl⟩))
  · obtain rfl := List.mem_singleton.mp last
    exact leaves_insertOnce_again ran (includes_mark ran)

set_option maxRecDepth 4000 in
private theorem hyphen_notMem_of_mem_resourceImports : ∀ statement ∈ Java.resourceImports, '-' ∉ statement := by
  unfold Java.resourceImports
  repeat rw [String.toList_ofList]
  decide +kernel

private theorem leaves_resourceSteps {table text : Text} {mark : Edit} {asked : AskedNames}
    (single : table.IsSingleLine)
    (removes : RemovesAll resourceTests resourceMarker resourceAnchor text)
    (orderly : OrderlyImports (Document.lines mark.text))
    (ran : insertOnce (.literal resourceMarker) (classComment resourceMarker table resourceNote)
      [resourceAnchor] false (Java.removeAll resourceTests text) = .ok mark) :
    ∀ step ∈ steps .resource table,
      Leaves step.2 (Java.pruneImports Java.resourceImports asked mark.text).1.text := by
  have free : ∀ test ∈ resourceTests, Java.FreeOf test mark.text :=
    freeOf_marked rfl (by decide) single (by decide) resourceTests_nil
      (fun indent blank => resourceTests_comment blank) removes.fine removes.comments ran
  intro step member
  rcases List.mem_append.mp member with removal | last
  · obtain ⟨mapping, inside, rfl⟩ := List.mem_map.mp removal
    have test : Java.annotatedWith mapping ∈ resourceTests := List.mem_map_of_mem inside
    exact Java.leaves_removing ((free _ test).mono (resourceTests_nil _ test)
      (Java.codeWithin_pruneImports Java.isPlainImport_of_mem_resourceImports asked mark.text))
  · obtain rfl := List.mem_singleton.mp last
    have kept (included : Text.includes resourceMarker mark.text = true) :
        (Witness.literal resourceMarker).presentIn
          (Java.pruneImports Java.resourceImports asked mark.text).1.text = true :=
      @includes_pruneImports _ _ _ '-' Java.isPlainImport_of_mem_resourceImports
        hyphen_notMem_of_mem_resourceImports (by decide) (by decide) (by decide) included asked
    rcases insertOnce_cases ran with ⟨present, -, same⟩ | ⟨_, _, -, -, applied, -⟩ | ⟨-, nowhere, -, same⟩
    · exact leaves_insertOnce_of_present (kept (same ▸ present))
    · exact leaves_insertOnce_of_present (kept (includes_mark ran applied))
    · have unplaced : resourceAnchor.place? mark.text = none := by
        rw [same]
        simpa using nowhere
      have still := place?_resourceAnchor_pruneImports orderly unplaced asked
      exact leaves_insertOnce_of_no_place (by simp [still])

/-- Conversions are idempotent, for entities and repositories of any text and for the other sources
if they settle: a second conversion leaves what the first one made, whatever names it is asked about. -/
theorem convert_again {kind : SourceKind} {table text : Text} {asked : AskedNames}
    {converted : Converted} (single : table.IsSingleLine)
    (ran : convert kind table asked text = .ok converted) (settles : Settles kind table text)
    (later : AskedNames) :
    ∃ again, convert kind table later converted.text = .ok again ∧ again.text = converted.text := by
  cases kind with
  | entity =>
    have steps := exists_steps_of_convert ran nofun
    exact @exists_convert_of_leaves .entity _ _ (leaves_entitySteps steps) later nofun
  | repository =>
    have steps := exists_steps_of_convert ran nofun
    obtain ⟨mark, rest, marking, last, -⟩ := exists_runSteps_cons steps
    have same : mark.text = converted.text := (Prod.mk.inj (Except.ok.inj last)).1
    refine exists_convert_of_leaves (fun step member => ?_) later nofun
    obtain rfl := List.mem_singleton.mp member
    exact same ▸ leaves_insertOnce_again marking (includes_mark marking)
  | service =>
    obtain ⟨mark, marking⟩ := exists_insertOnce (.literal serviceMarker)
      (classComment serviceMarker table serviceNote) [serviceAnchor] (Java.removeAll serviceTests text)
    obtain ⟨first, converts, final, -⟩ := exists_convert_service asked marking
    obtain rfl := Except.ok.inj (ran.symm.trans converts)
    rw [final]
    exact exists_convert_of_leaves (leaves_serviceSteps single settles marking) later nofun
  | resource =>
    obtain ⟨mark, marking⟩ := exists_insertOnce (.literal resourceMarker)
      (classComment resourceMarker table resourceNote) [resourceAnchor] (Java.removeAll resourceTests text)
    obtain ⟨first, converts, final, -⟩ := exists_convert_resource asked marking
    obtain rfl := Except.ok.inj (ran.symm.trans converts)
    obtain ⟨removes, orderly, ends⟩ := settles
    have orderly := orderlyImports_mark single ends (orderly.removeAll resourceTests) marking
    rw [final]
    refine exists_convert_of_leaves (leaves_resourceSteps single removes orderly marking) later fun _ => ?_
    rw [Java.pruneImports_of_none_prunable (orderly.independent.not_prunable_pruned asked)]
  | test =>
    have steps := exists_steps_of_convert ran nofun
    exact @exists_convert_of_leaves .test _ _ (leaves_testSteps settles steps) later nofun

/-- A resource with two imports, one of which only its endpoint uses. -/
def smallResource : Text :=
  "import java.net.URI;\nimport java.util.Objects;\n@RestController\n@RequestMapping\n" ++
    "@PostMapping\npublic URI save(URI a) \x7b \x7d\nObjects all;\n"

/-- The resource loses its endpoint and its import and gets its mark, and is then left as it is. -/
theorem convert_again_of_smallResource :
    Settles .resource "v" smallResource ∧
    ∃ converted again, convert .resource "v" [] smallResource = .ok converted ∧
      converted.steps.countP (fun step => step.2.outcome = .applied) = 3 ∧
      convert .resource "v" [] converted.text = .ok again ∧ again.text = converted.text := by
  have settles : Settles .resource "v" smallResource := by decide +kernel
  obtain ⟨converted, ran, applied⟩ : ∃ converted,
      convert .resource "v" [] smallResource = .ok converted ∧
        converted.steps.countP (fun step => step.2.outcome = .applied) = 3 :=
    exists_of_convert_passes (by decide +kernel)
  obtain ⟨again, converts, same⟩ := convert_again (by decide) ran settles []
  exact ⟨settles, converted, again, ran, applied, converts, same⟩

/-- A test whose annotation is its last line gets the annotation that disables it once more. -/
theorem disabled_twice :
    (convert .test "v" [] "import org.junit.jupiter.api.Disabled;\n@IntegrationTest").bind (fun once =>
      (convert .test "v" [] once.text).map fun again => decide (again.text = once.text)) = .ok false := by
  decide +kernel

end ReadOnly

end ReadOnlyViews
