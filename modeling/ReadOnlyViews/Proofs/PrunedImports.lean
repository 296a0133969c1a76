import ReadOnlyViews.Proofs.ImportedClasses

/-!
What pruning takes out of a text.  Every candidate that goes takes its whole row along and leaves all
other rows as they are, so a pruned text is the text without some of its rows.  A candidate goes at
the latest when its turn comes, if its class is no word of any other row: the rows that are gone by
then cannot have brought its name about.
-/

namespace ReadOnlyViews

open Document (Row rows textOf AreRows Drops EndsLine areRows_rows)

namespace Java

/-! ## One candidate -/

private theorem IsImportLine.isSingleLine {statement line : Text} (imports : IsImportLine statement line)
    (single : statement.IsSingleLine) : line.IsSingleLine := by
  refine ⟨fun fed => ?_, fun returned => ?_⟩
  · rcases imports.mem fed with blank | inside
    · exact absurd blank (by decide)
    · exact single.1 inside
  · rcases imports.mem returned with blank | inside
    · exact absurd blank (by decide)
    · exact single.2 inside

/-- Erasing an import line from rows takes out one of them. -/
theorem exists_row_of_eraseFirst? {statement rest : Text} {all : List Row} (single : statement.IsSingleLine)
    (some_ : statement ≠ []) (areRows : AreRows all)
    (erased : (importLine statement).eraseFirst? (textOf all) = some rest) :
    ∃ front row back, all = front ++ row :: back ∧ IsImportLine statement row.line ∧
      rest = textOf (front ++ back) := by
  obtain ⟨found, first, rfl⟩ := Option.map_eq_some_iff.mp erased
  obtain ⟨mid, whole, -, spans⟩ := Pattern.exists_spans_of_find?_eq_some first
  obtain ⟨start, line, ending, imports, rfl, ends⟩ := exists_line_of_spans_importLine spans
  have nonempty : line ≠ [] := by
    rintro rfl
    exact some_ (by simpa using imports.within)
  rw [List.append_assoc, List.append_assoc] at whole
  obtain ⟨front, back, rfl, before, after⟩ :=
    areRows.exists_row_of_line (imports.isSingleLine single) nonempty (by simpa using start) ends whole
  refine ⟨front, ⟨line, ending⟩, back, rfl, imports, ?_⟩
  rw [before, after, Document.textOf_append]

/-- A row that consists of an import can be erased. -/
theorem isSome_eraseFirst?_of_row {statement : Text} {front back : List Row} {row : Row}
    (areRows : AreRows (front ++ row :: back)) (imports : IsImportLine statement row.line) :
    ((importLine statement).eraseFirst? (textOf (front ++ row :: back))).isSome = true := by
  have areRest : AreRows (row :: back) := areRows.sublist (List.sublist_append_right _ _)
  obtain ⟨left, right, blankLeft, blankRight, inLine⟩ := imports
  rw [Pattern.eraseFirst?, Option.isSome_map]
  refine Pattern.occursIn_iff.mpr ⟨textOf front, row.line ++ row.ending, textOf back, by simp, ?_⟩
  have started : textOf front = [] ∨ (textOf front).reverse.head? = some '\n' := by
    simpa using areRows.ended_textOf
  simp only [importLine, Pattern.lineBreakOrEnd, Pattern.spans_append, Pattern.spans_lineStart, Pattern.spans_run,
    Pattern.spans_exactly, Pattern.spans_either, Pattern.spans_optional, Pattern.spans_textEnd]
  refine ⟨row.line, row.ending, rfl, ⟨left ++ statement, right, inLine, ⟨left, statement, rfl,
    ⟨[], left, rfl, ⟨rfl, by simpa using started⟩, blankLeft⟩, rfl⟩, blankRight⟩, ?_⟩
  rcases areRest.ended_or with (short | long) | ⟨none, rfl⟩
  · exact .inl ⟨[], ['\n'], short, .inr rfl, rfl⟩
  · exact .inl ⟨['\r'], ['\n'], long, .inl rfl, rfl⟩
  · exact .inr ⟨none, rfl⟩

/-! ## All candidates in turn -/

/-- A candidate takes out one row, which consists of it, or none. -/
theorem exists_drops_consider {statement : Text} {all : List Row} (single : statement.IsSingleLine)
    (areRows : AreRows all) {state : Pruning} (same : state.text = textOf all) :
    ∃ kept, Drops (fun row => IsImportLine statement row.line) all kept ∧
      (state.consider statement).text = textOf kept := by
  rcases consider_cases state statement with ⟨prunable, erased, -⟩ | ⟨-, left, -⟩
  · rw [same] at erased
    obtain ⟨front, row, back, rfl, imports, rest⟩ :=
      exists_row_of_eraseFirst? single prunable.ne_nil areRows erased
    exact ⟨front ++ back, .one imports front back, rest⟩
  · exact ⟨all, .refl _ _, left.trans same⟩

/-- The rows that consist of one of the candidates. -/
def IsCandidateRow (candidates : List Text) (row : Row) : Prop :=
  ∃ statement ∈ candidates, IsImportLine statement row.line

private theorem exists_drops_foldl {candidates : List Text} {all : List Row}
    (single : ∀ statement ∈ candidates, statement.IsSingleLine) (areRows : AreRows all) {state : Pruning}
    (same : state.text = textOf all) :
    ∃ kept, Drops (IsCandidateRow candidates) all kept ∧
      (candidates.foldl Pruning.consider state).text = textOf kept := by
  induction candidates generalizing state all with
  | nil => exact ⟨all, .refl _ _, same⟩
  | cons statement candidates ih =>
    obtain ⟨kept, drops, left⟩ := exists_drops_consider (single statement (by simp)) areRows same
    obtain ⟨fewer, further, final⟩ :=
      ih (fun other member => single other (by simp [member])) (areRows.sublist drops.sublist) left
    refine ⟨fewer, (drops.mono fun row _ imports => ⟨statement, by simp, imports⟩).trans
      (further.mono fun row _ => ?_), final⟩
    rintro ⟨other, member, imports⟩
    exact ⟨other, by simp [member], imports⟩

/-- Two prunings that differ only in the names asked about. -/
def Pruning.Alike (state other : Pruning) : Prop := state.text = other.text ∧ state.removed = other.removed

theorem Pruning.Alike.consider {state other : Pruning} (alike : state.Alike other) (statement : Text) :
    (state.consider statement).Alike (other.consider statement) := by
  obtain ⟨sameText, sameRemoved⟩ := alike
  rcases consider_cases state statement with ⟨prunable, erased, removed⟩ | ⟨stays, left, kept⟩ <;>
    rcases consider_cases other statement with ⟨prunable', erased', removed'⟩ | ⟨stays', left', kept'⟩
  · rw [sameText, erased'] at erased
    exact ⟨(Option.some.inj erased).symm, by rw [removed, removed', sameRemoved]⟩
  · exact absurd (sameText ▸ prunable) stays'
  · exact absurd (sameText ▸ prunable') stays
  · exact ⟨by rw [left, left', sameText], by rw [kept, kept', sameRemoved]⟩

/-- What was asked about before makes no difference. -/
theorem pruneImports_fresh (candidates : List Text) (asked : AskedNames) (text : Text) :
    (pruneImports candidates asked text).1 = (pruneImports candidates [] text).1 := by
  have folded {state other : Pruning} (alike : state.Alike other) :
      (candidates.foldl Pruning.consider state).Alike (candidates.foldl Pruning.consider other) := by
    induction candidates generalizing state other with
    | nil => exact alike
    | cons statement candidates ih => exact ih (alike.consider statement)
  obtain ⟨sameText, sameRemoved⟩ := @folded ⟨text, asked, []⟩ ⟨text, [], []⟩ ⟨rfl, rfl⟩
  simp only [pruneImports, sameText, sameRemoved]

/-! ## The only place of an import -/

/-- Among rows, one consists of an import, and the import is nowhere else. -/
structure StandsAlone (statement : Text) (front : List Row) (row : Row) (back : List Row) : Prop where
  imports : IsImportLine statement row.line
  inFront : ∀ other ∈ front, Text.includes statement other.line = false
  inBack : ∀ other ∈ back, Text.includes statement other.line = false
  inside : ∀ left right, row.line = left ++ statement ++ right → ∀ c ∈ left ++ right, isBlankOrTab c = true

/-- A part stands at exactly one place of a text. -/
def OccursOnce (part text : Text) : Prop := ∃! before, ∃ after, text = before ++ part ++ after

private theorem occursOnce_iff {part text : Text} : OccursOnce part text ↔
    ∃ place ∈ List.range (text.length + 1), part <+: text.drop place ∧
      ∀ other ∈ List.range (text.length + 1), part <+: text.drop other → other = place := by
  have stands {before after : Text} (same : text = before ++ part ++ after) :
      before.length ∈ List.range (text.length + 1) ∧ part <+: text.drop before.length := by
    have within : before.length ∈ List.range (text.length + 1) := by
      simp only [same, List.mem_range, List.length_append]
      omega
    refine ⟨within, after, ?_⟩
    rw [same, List.append_assoc, List.drop_left]
  have cut {place : Nat} (within : place ∈ List.range (text.length + 1)) (starts : part <+: text.drop place) :
      (text.take place).length = place ∧ ∃ after, text = text.take place ++ part ++ after := by
    obtain ⟨after, same⟩ := starts
    refine ⟨by simp at within ⊢; omega, after, ?_⟩
    rw [List.append_assoc, same, List.take_append_drop]
  constructor
  · rintro ⟨before, ⟨after, same⟩, only⟩
    refine ⟨before.length, (stands same).1, (stands same).2, fun other within starts => ?_⟩
    obtain ⟨length, there⟩ := cut within starts
    rw [← only _ there, length]
  · rintro ⟨place, within, starts, only⟩
    obtain ⟨length, there⟩ := cut within starts
    refine ⟨text.take place, there, ?_⟩
    rintro before ⟨after, same⟩
    have sameLength := only _ (stands same).1 (stands same).2
    rw [← sameLength, same, List.append_assoc, List.take_left]

instance (part text : Text) : Decidable (OccursOnce part text) := decidable_of_iff _ occursOnce_iff.symm

theorem OccursOnce.standsAlone {statement : Text} {front back : List Row} {row : Row} (some_ : statement ≠ [])
    (once : OccursOnce statement (textOf (front ++ row :: back))) (imports : IsImportLine statement row.line) :
    StandsAlone statement front row back := by
  obtain ⟨left, right, blankLeft, blankRight, inLine⟩ := imports
  -- Any other place of the import would be a second place in the text.
  have place (before after : Text) (same : textOf (front ++ row :: back) = before ++ statement ++ after) :
      before = textOf front ++ left :=
    once.unique ⟨after, same⟩ ⟨right ++ (row.ending ++ textOf back), by simp [inLine]⟩
  have size : 0 < statement.length := List.length_pos_of_ne_nil some_
  refine ⟨⟨left, right, blankLeft, blankRight, inLine⟩, fun other member => ?_, fun other member => ?_, ?_⟩
  · rw [← Bool.not_eq_true, Text.includes_iff]
    rintro ⟨inner, rest, spelled⟩
    obtain ⟨before, behind, rfl⟩ := List.append_of_mem member
    have same := place (textOf before ++ inner) (rest ++ (other.ending ++ textOf (behind ++ row :: back)))
      (by simp [← spelled])
    have lengths := congrArg List.length same
    simp only [Document.textOf_append, Document.textOf_cons, ← spelled, List.length_append] at lengths
    omega
  · rw [← Bool.not_eq_true, Text.includes_iff]
    rintro ⟨inner, rest, spelled⟩
    obtain ⟨before, behind, rfl⟩ := List.append_of_mem member
    have same := place (textOf (front ++ row :: before) ++ inner) (rest ++ (other.ending ++ textOf behind))
      (by simp [← spelled])
    have lengths := congrArg List.length same
    simp only [Document.textOf_append, Document.textOf_cons, inLine, List.length_append] at lengths
    omega
  · intro left' right' inLine'
    have same := place (textOf front ++ left') (right' ++ (row.ending ++ textOf back)) (by simp [inLine'])
    obtain rfl := List.append_cancel_left same
    obtain rfl : right = right' := List.append_cancel_left (inLine.symm.trans inLine')
    intro c member
    rcases List.mem_append.mp member with inLeft | inRight
    · exact blankLeft c inLeft
    · exact blankRight c inRight

namespace StandsAlone

variable {statement : Text} {front back : List Row} {row : Row}

theorem sublist {fewer less : List Row} (alone : StandsAlone statement front row back)
    (before : fewer.Sublist front) (behind : less.Sublist back) : StandsAlone statement fewer row less :=
  ⟨alone.imports, fun other member => alone.inFront other (before.subset member),
    fun other member => alone.inBack other (behind.subset member), alone.inside⟩

/-- The row is the one in which the import is found. -/
theorem eq_of_includes (alone : StandsAlone statement front row back) {before behind : List Row} {other : Row}
    (same : front ++ row :: back = before ++ other :: behind) (included : Text.includes statement other.line = true) :
    front = before ∧ row = other ∧ back = behind := by
  rcases List.append_eq_append_iff.mp same with ⟨gap, rfl, rest⟩ | ⟨gap, rfl, rest⟩
  · cases gap with
    | nil =>
      obtain ⟨rfl, rfl⟩ := List.cons.inj rest
      exact ⟨by simp, rfl, rfl⟩
    | cons first gap =>
      obtain ⟨rfl, rfl⟩ := List.cons.inj rest
      have absent := alone.inBack other (by simp)
      rw [included] at absent
      cases absent
  · cases gap with
    | nil =>
      obtain ⟨rfl, rfl⟩ := List.cons.inj rest
      exact ⟨by simp, rfl, rfl⟩
    | cons first gap =>
      obtain ⟨rfl, rfl⟩ := List.cons.inj rest
      have absent := alone.inFront other (by simp)
      rw [included] at absent
      cases absent

/-- Without the import its row is blank. -/
theorem exists_eraseFirst (alone : StandsAlone statement front row back) (single : statement.IsSingleLine)
    (some_ : statement ≠ []) (areRows : AreRows (front ++ row :: back)) :
    ∃ blank, (∀ c ∈ blank, isBlankOrTab c = true) ∧
      Text.eraseFirst statement (textOf (front ++ row :: back)) = textOf (front ++ ⟨blank, row.ending⟩ :: back) := by
  have included : Text.includes statement (textOf (front ++ row :: back)) = true :=
    (areRows.includes_textOf_iff single some_).mpr
      ⟨row, by simp, Text.includes_iff.mpr alone.imports.within⟩
  obtain ⟨before, after, same, erased⟩ := Text.exists_eraseFirst_of_includes included
  rw [List.append_assoc] at same
  obtain ⟨before', other, behind', left, right, split, inLine, rfl, rfl⟩ :=
    areRows.exists_row_of_part single some_ same
  obtain ⟨rfl, rfl, rfl⟩ := alone.eq_of_includes split
    (Text.includes_iff.mpr ⟨left, right, by rw [inLine, List.append_assoc]⟩)
  refine ⟨left ++ right, alone.inside left right (by rw [inLine, List.append_assoc]), ?_⟩
  rw [erased]
  simp

/-- A candidate that stands alone goes with its row when its turn comes, if no other row has its class
as a word. -/
theorem consider {name : Text} (alone : StandsAlone statement front row back) (single : statement.IsSingleLine)
    (imports : ImportsClass statement name) (areRows : AreRows (front ++ row :: back))
    (unused : ∀ other ∈ front ++ back, ¬ HasWord name other.line) {state : Pruning}
    (same : state.text = textOf (front ++ row :: back)) :
    (state.consider statement).text = textOf (front ++ back) := by
  have named : importClassName statement = name := (importClassName_eq_iff imports.ne_nil).mpr imports
  have some_ : statement ≠ [] := imports.statement_ne_nil
  have included : Text.includes statement (textOf (front ++ row :: back)) = true :=
    (areRows.includes_textOf_iff single some_).mpr
      ⟨row, by simp, Text.includes_iff.mpr alone.imports.within⟩
  have idle : isUsed name (Text.eraseFirst statement (textOf (front ++ row :: back))) = false := by
    obtain ⟨blank, isBlank_, erased⟩ := alone.exists_eraseFirst single some_ areRows
    have singleBlank : blank.IsSingleLine :=
      ⟨fun fed => absurd (isBlank_ _ fed) (by decide), fun returned => absurd (isBlank_ _ returned) (by decide)⟩
    rw [erased, ← Bool.not_eq_true]
    intro used
    obtain ⟨other, member, has⟩ := ((areRows.replace singleBlank).hasWord_textOf_iff imports.ne_nil
      imports.isWord_of_mem).mp (hasWord_of_isUsed imports.ne_nil imports.isWord_of_mem used)
    simp only [List.mem_append, List.mem_cons] at member
    rcases member with inFront | rfl | inBack
    · exact unused other (by simp [inFront]) has
    · obtain ⟨before, after, spelled, -⟩ := has
      obtain ⟨first, others, rfl⟩ := List.exists_cons_of_ne_nil imports.ne_nil
      have inside : first ∈ blank := by
        simp only at spelled
        rw [spelled]
        simp
      have blankFirst := isBlank_ first inside
      have wordFirst := imports.isWord_of_mem first (by simp)
      rw [isWord_of_isBlank (Text.isBlank_of_isBlankOrTab blankFirst)] at wordFirst
      cases wordFirst
    · exact unused other (by simp [inBack]) has
  have prunable : Prunable statement state.text := by
    rw [same]
    exact ⟨named ▸ imports.ne_nil, included, named ▸ idle, isSome_eraseFirst?_of_row areRows alone.imports⟩
  rcases consider_cases state statement with ⟨-, erased, -⟩ | ⟨stays, -, -⟩
  · rw [same] at erased
    obtain ⟨before, other, behind, split, isOther, rest⟩ := exists_row_of_eraseFirst? single some_ areRows erased
    obtain ⟨rfl, rfl, rfl⟩ := alone.eq_of_includes split (Text.includes_iff.mpr isOther.within)
    exact rest
  · exact absurd prunable stays

end StandsAlone

/-- Once its row is gone, an import that stood alone is not in the text. -/
theorem StandsAlone.absent {statement : Text} {front back kept : List Row} {row : Row}
    (alone : StandsAlone statement front row back) (single : statement.IsSingleLine) (some_ : statement ≠ [])
    (areRows : AreRows kept) (sub : kept.Sublist (front ++ back)) :
    Text.includes statement (textOf kept) = false := by
  rw [← Bool.not_eq_true, areRows.includes_textOf_iff single some_]
  rintro ⟨other, member, included⟩
  have absent : Text.includes statement other.line = false := by
    rcases List.mem_append.mp (sub.subset member) with inFront | inBack
    · exact alone.inFront other inFront
    · exact alone.inBack other inBack
  rw [included] at absent
  cases absent

/-- A candidate that stands alone is gone after its turn, whatever went before. -/
theorem StandsAlone.gone {statement name : Text} {front back : List Row} {row : Row}
    (alone : StandsAlone statement front row back) (imports : ImportsClass statement name)
    (areRows : AreRows (front ++ row :: back)) (unused : ∀ other ∈ front ++ back, ¬ HasWord name other.line)
    {candidates : List Text} (single : ∀ statement ∈ candidates, statement.IsSingleLine)
    (candidate : statement ∈ candidates) {state : Pruning} (same : state.text = textOf (front ++ row :: back)) :
    Text.includes statement (candidates.foldl Pruning.consider state).text = false := by
  have some_ : statement ≠ [] := imports.statement_ne_nil
  obtain ⟨earlier, later, rfl⟩ := List.append_of_mem candidate
  obtain ⟨kept, drops, before⟩ := @exists_drops_foldl earlier _
    (fun other member => single other (by simp [member])) areRows state same
  have areKept : AreRows kept := areRows.sublist drops.sublist
  have turn : ∃ fewer, fewer.Sublist (front ++ back) ∧ AreRows fewer ∧
      ((earlier.foldl Pruning.consider state).consider statement).text = textOf fewer := by
    -- The row went before, with a candidate that is spelled alike, or it goes now.
    obtain ⟨less, lesser, inFront, inBack, rfl | ⟨-, rfl⟩⟩ := drops.around
    · have sub : (less ++ lesser).Sublist (less ++ row :: lesser) :=
        (List.Sublist.refl less).append (List.sublist_cons_self row lesser)
      have fewer : (less ++ lesser).Sublist (front ++ back) := inFront.sublist.append inBack.sublist
      refine ⟨less ++ lesser, fewer, areKept.sublist sub, ?_⟩
      exact (alone.sublist inFront.sublist inBack.sublist).consider (single statement candidate) imports areKept
        (fun other member => unused other (fewer.subset member)) before
    · obtain ⟨fewer, further, left⟩ := exists_drops_consider (single statement candidate) areKept before
      exact ⟨fewer, further.sublist.trans (inFront.sublist.append inBack.sublist),
        areKept.sublist further.sublist, left⟩
  obtain ⟨fewer, sub, areFewer, left⟩ := turn
  obtain ⟨final, further, result⟩ := @exists_drops_foldl later _
    (fun other member => single other (by simp [member])) areFewer _ left
  rw [List.foldl_append, List.foldl_cons, result]
  exact alone.absent (single statement candidate) some_ (areFewer.sublist further.sublist)
    (further.sublist.trans sub)

/-! ## Pruning -/

/-- A pruned text is the text without some of the rows that consist of a candidate.  A candidate that
stands once in the text, in a row of its own, goes if its class is no word of the other rows.  What
was asked about before makes no difference. -/
theorem unused_imports_go_with_their_rows {candidates : List Text}
    (single : ∀ statement ∈ candidates, statement.IsSingleLine) (asked : AskedNames) (text : Text) :
    (∃ kept, Drops (IsCandidateRow candidates) (rows text) kept ∧
      (pruneImports candidates asked text).1.text = textOf kept) ∧
    (∀ statement ∈ candidates, ∀ name front row back, ImportsClass statement name → OccursOnce statement text →
      rows text = front ++ row :: back → IsImportLine statement row.line →
      ¬ HasWord name (textOf front) → ¬ HasWord name (textOf back) →
      Text.includes statement (pruneImports candidates asked text).1.text = false) ∧
    (pruneImports candidates asked text).1 = (pruneImports candidates [] text).1 := by
  rw [text_pruneImports]
  refine ⟨exists_drops_foldl single (areRows_rows text) (Document.textOf_rows text).symm, ?_,
    pruneImports_fresh candidates asked text⟩
  intro statement candidate name front row back imports once split inRow unusedInFront unusedInBack
  have areAll : AreRows (front ++ row :: back) := split ▸ areRows_rows text
  have whole : textOf (front ++ row :: back) = text := by rw [← split, Document.textOf_rows]
  have some_ : statement ≠ [] := imports.statement_ne_nil
  have alone : StandsAlone statement front row back := OccursOnce.standsAlone some_ (whole.symm ▸ once) inRow
  refine alone.gone imports areAll (fun other member has => ?_) single candidate whole.symm
  have areFront : AreRows front := areAll.sublist (List.sublist_append_left _ _)
  have areBack : AreRows back := (areAll.sublist (List.sublist_append_right front _)).tail
  rcases List.mem_append.mp member with inFront | inBack
  · exact unusedInFront
      ((areFront.hasWord_textOf_iff imports.ne_nil imports.isWord_of_mem).mpr ⟨other, inFront, has⟩)
  · exact unusedInBack
      ((areBack.hasWord_textOf_iff imports.ne_nil imports.isWord_of_mem).mpr ⟨other, inBack, has⟩)

/-- A source that uses one of the classes that it imports. -/
def sourceWithIdleImport : Text :=
  "import java.net.URI;\r\n\timport java.util.Objects; \r\nclass A \x7b int h = Objects.hash(0); \x7d\r\n".toList

/-- The two imports of the source, as candidates. -/
def idleCandidates : List Text := ["import java.util.Objects;".toList, "import java.net.URI;".toList]

/-- The unused import goes with its row and the other rows stay, whatever was asked about before. -/
theorem idle_import_gone_with_its_row :
    (∃ kept, Drops (IsCandidateRow idleCandidates) (rows sourceWithIdleImport) kept ∧
      (pruneImports idleCandidates [.ofName "URI".toList] sourceWithIdleImport).1.text = textOf kept) ∧
    Text.includes "import java.net.URI;".toList
      (pruneImports idleCandidates [.ofName "URI".toList] sourceWithIdleImport).1.text = false ∧
    (pruneImports idleCandidates [.ofName "URI".toList] sourceWithIdleImport).1.text =
      textOf (rows sourceWithIdleImport).tail := by
  have single : ∀ statement ∈ idleCandidates, Text.IsSingleLine statement := by decide
  obtain ⟨drops, gone, fresh⟩ :=
    unused_imports_go_with_their_rows single [.ofName "URI".toList] sourceWithIdleImport
  refine ⟨drops, gone "import java.net.URI;".toList (by decide) "URI".toList []
    ⟨"import java.net.URI;".toList, ['\r', '\n']⟩ (rows sourceWithIdleImport).tail ?_ ?_ rfl ?_ ?_ ?_, ?_⟩
  · exact (importClassName_eq_iff (by decide)).mp (by decide +kernel)
  · decide +kernel
  · exact ⟨[], [], by simp, by simp, rfl⟩
  · decide +kernel
  · decide +kernel
  · rw [fresh]
    decide +kernel

end Java

end ReadOnlyViews
