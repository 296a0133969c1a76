import ReadOnlyViews.Proofs.RepeatedSteps

/-! Tests that were disabled before.  The annotation that disables a test may stand anywhere in its text
and go on over several lines, and it is recognised only with a line end behind it.  Lines that are put in
later keep it recognisable, unless it is the last thing in the text. -/
namespace ReadOnlyViews

open Document (IsRow)

namespace ReadOnly

/-! ## The annotation -/

/-- How far what follows an annotation's name is read. -/
inductive Reading where
  | before
  | inside
  | behind

/-- Whether an annotation's name is followed by the end of its line, white space and arguments in
parentheses aside. -/
def endsLine : Reading → Text → Bool
  | _, [] => false
  | .before, c :: rest =>
    c == '\r' || c == '\n' || (isBlank c && endsLine .before rest) || (c == '(' && endsLine .inside rest)
  | .inside, c :: rest => if c = ')' then endsLine .behind rest else endsLine .inside rest
  | .behind, c :: rest => c == '\r' || c == '\n' || (isBlank c && endsLine .behind rest)

/-- The annotation that disables a test stands in a text, with its line end. -/
def Disabled (text : Text) : Prop :=
  ∃ front rest, text = front ++ "@Disabled".toList ++ rest ∧ endsLine .before rest = true

private theorem endsLine_behind_iff {rest : Text} :
    endsLine .behind rest = true ↔ ∃ blanks c tail, rest = blanks ++ c :: tail ∧
      (∀ c ∈ blanks, isBlank c = true) ∧ (c = '\r' ∨ c = '\n') := by
  constructor
  · intro ends
    induction rest with
    | nil => cases ends
    | cons c rest ih =>
      simp only [endsLine, Bool.or_eq_true, beq_iff_eq, Bool.and_eq_true] at ends
      rcases ends with now | ⟨blank, later⟩
      · exact ⟨[], c, rest, rfl, by simp, now⟩
      · obtain ⟨blanks, d, tail, rfl, all, isEnd⟩ := ih later
        exact ⟨c :: blanks, d, tail, rfl, by simpa [blank] using all, isEnd⟩
  · rintro ⟨blanks, c, tail, rfl, all, isEnd⟩
    induction blanks with
    | nil => rcases isEnd with rfl | rfl <;> simp [endsLine]
    | cons d blanks ih =>
      simp only [List.cons_append, endsLine, Bool.or_eq_true, Bool.and_eq_true]
      exact .inr ⟨all d (by simp), ih fun c member => all c (by simp [member])⟩

private theorem endsLine_inside_append {front : Text} (free : ')' ∉ front) (rest : Text) :
    endsLine .inside (front ++ rest) = endsLine .inside rest := by
  induction front with
  | nil => rfl
  | cons c front ih =>
    simp only [List.mem_cons, not_or] at free
    rw [List.cons_append, endsLine, if_neg (Ne.symm free.1), ih free.2]

private theorem endsLine_inside_iff {rest : Text} :
    endsLine .inside rest = true ↔
      ∃ inner tail, rest = inner ++ ')' :: tail ∧ ')' ∉ inner ∧ endsLine .behind tail = true := by
  constructor
  · intro ends
    induction rest with
    | nil => cases ends
    | cons c rest ih =>
      rw [endsLine] at ends
      split at ends
      · next closes => exact ⟨[], rest, by simp [closes], by simp, ends⟩
      · next other =>
        obtain ⟨inner, tail, rfl, free, behind⟩ := ih ends
        exact ⟨c :: inner, tail, rfl, by simp [free, Ne.symm other], behind⟩
  · rintro ⟨inner, tail, rfl, free, behind⟩
    rw [endsLine_inside_append free, endsLine, if_pos rfl, behind]

private theorem endsLine_before_iff {rest : Text} :
    endsLine .before rest = true ↔
      endsLine .behind rest = true ∨ ∃ blanks tail, rest = blanks ++ '(' :: tail ∧
        (∀ c ∈ blanks, isBlank c = true) ∧ endsLine .inside tail = true := by
  constructor
  · intro ends
    induction rest with
    | nil => cases ends
    | cons c rest ih =>
      simp only [endsLine, Bool.or_eq_true, beq_iff_eq, Bool.and_eq_true] at ends ⊢
      rcases ends with (now | ⟨blank, later⟩) | ⟨rfl, inside⟩
      · exact .inl (.inl now)
      · rcases ih later with behind | ⟨blanks, tail, rfl, all, inside⟩
        · exact .inl (.inr ⟨blank, behind⟩)
        · exact .inr ⟨c :: blanks, tail, rfl, by simpa [blank] using all, inside⟩
      · exact .inr ⟨[], rest, rfl, by simp, inside⟩
  · rintro (behind | ⟨blanks, tail, rfl, all, inside⟩)
    · induction rest with
      | nil => cases behind
      | cons c rest ih =>
        simp only [endsLine, Bool.or_eq_true, Bool.and_eq_true] at behind ⊢
        exact .inl (behind.imp_right fun ⟨blank, later⟩ => ⟨blank, ih later⟩)
    · induction blanks with
      | nil => simp [endsLine, inside]
      | cons c blanks ih =>
        simp only [List.cons_append, endsLine, Bool.or_eq_true, Bool.and_eq_true]
        exact .inl (.inr ⟨all c (by simp), ih fun c member => all c (by simp [member])⟩)

/-- The pattern of the annotation finds exactly what `Disabled` says. -/
theorem disabledAnnotation_presentIn_iff {text : Text} :
    disabledAnnotation.presentIn text = true ↔ Disabled text := by
  unfold disabledAnnotation Witness.presentIn
  rw [Pattern.occursIn_iff]
  constructor
  · rintro ⟨front, mid, rest, rfl, spans⟩
    obtain ⟨_, _, rfl, spans, last⟩ := Pattern.spans_append.mp spans
    obtain ⟨_, gap, rfl, spans, gaps⟩ := Pattern.spans_append.mp spans
    obtain ⟨_, arguments, rfl, spans, optional⟩ := Pattern.spans_append.mp spans
    obtain ⟨_, lead, rfl, spans, leads⟩ := Pattern.spans_append.mp spans
    obtain rfl := Pattern.spans_exactly.mp spans
    obtain ⟨c, isEnd, rfl⟩ := Pattern.spans_one.mp last
    have leadBlank : ∀ c ∈ lead, isBlank c = true := Pattern.spans_run.mp leads
    have gapBlank : ∀ c ∈ gap, isBlank c = true := Pattern.spans_run.mp gaps
    have ends : c = '\r' ∨ c = '\n' := by simpa using isEnd
    refine ⟨front, lead ++ (arguments ++ (gap ++ c :: rest)), by simp, endsLine_before_iff.mpr ?_⟩
    rcases Pattern.spans_optional.mp optional with given | rfl
    · obtain ⟨_, _, rfl, spans, closes⟩ := Pattern.spans_append.mp given
      obtain ⟨_, inner, rfl, opens, inners⟩ := Pattern.spans_append.mp spans
      obtain rfl := Pattern.spans_exactly.mp opens
      obtain rfl := Pattern.spans_exactly.mp closes
      have free : ')' ∉ inner := fun member => by simpa using Pattern.spans_run.mp inners ')' member
      refine .inr ⟨lead, inner ++ ')' :: (gap ++ c :: rest), by simp, leadBlank, ?_⟩
      refine endsLine_inside_iff.mpr ⟨inner, _, rfl, free, ?_⟩
      exact endsLine_behind_iff.mpr ⟨gap, c, rest, rfl, gapBlank, ends⟩
    · refine .inl (endsLine_behind_iff.mpr ⟨lead ++ gap, c, rest, by simp, ?_, ends⟩)
      intro d member
      exact (List.mem_append.mp member).elim (leadBlank d) (gapBlank d)
  · rintro ⟨front, rest, rfl, ends⟩
    have blanks {gap before after : Text} (all : ∀ c ∈ gap, isBlank c = true) :
        Pattern.blanks.Spans before gap after := Pattern.spans_run.mpr all
    have final {c : Char} (isEnd : c = '\r' ∨ c = '\n') (before after : Text) :
        (Pattern.one fun c => c == '\r' || c == '\n').Spans before [c] after :=
      Pattern.spans_one.mpr ⟨c, by simpa using isEnd, rfl⟩
    rcases endsLine_before_iff.mp ends with behind | ⟨lead, tail, rfl, leadBlank, inside⟩
    · obtain ⟨gap, c, tail, rfl, gapBlank, isEnd⟩ := endsLine_behind_iff.mp behind
      refine ⟨front, "@Disabled".toList ++ [] ++ [] ++ gap ++ [c], tail, by simp, ?_⟩
      refine Pattern.spans_append.mpr ⟨_, _, rfl, ?_, final isEnd _ _⟩
      refine Pattern.spans_append.mpr ⟨_, _, rfl, ?_, blanks gapBlank⟩
      refine Pattern.spans_append.mpr ⟨_, _, rfl, ?_, Pattern.spans_optional.mpr (.inr rfl)⟩
      exact Pattern.spans_append.mpr ⟨_, _, rfl, Pattern.spans_exactly.mpr rfl, blanks (by simp)⟩
    · obtain ⟨inner, behind, rfl, free, ends⟩ := endsLine_inside_iff.mp inside
      obtain ⟨gap, c, tail, rfl, gapBlank, isEnd⟩ := endsLine_behind_iff.mp ends
      refine ⟨front, "@Disabled".toList ++ lead ++ ("(".toList ++ inner ++ ")".toList) ++ gap ++ [c], tail,
        by simp, ?_⟩
      refine Pattern.spans_append.mpr ⟨_, _, rfl, ?_, final isEnd _ _⟩
      refine Pattern.spans_append.mpr ⟨_, _, rfl, ?_, blanks gapBlank⟩
      refine Pattern.spans_append.mpr ⟨_, _, rfl, ?_, Pattern.spans_optional.mpr (.inl ?_)⟩
      · exact Pattern.spans_append.mpr ⟨_, _, rfl, Pattern.spans_exactly.mpr rfl, blanks leadBlank⟩
      · refine Pattern.spans_append.mpr ⟨_, _, rfl, ?_, Pattern.spans_exactly.mpr rfl⟩
        refine Pattern.spans_append.mpr ⟨_, _, rfl, Pattern.spans_exactly.mpr rfl, Pattern.spans_run.mpr ?_⟩
        intro d member
        simpa using fun same : d = ')' => free (same ▸ member)

/-! ### The annotation and lines that are put in -/

/-- Lines with further lines between them, none of which closes a parenthesis. -/
inductive Widened : List Text → List Text → Prop where
  | nil : Widened [] []
  | keep {lines wider : List Text} (line : Text) (rest : Widened lines wider) :
      Widened (line :: lines) (line :: wider)
  | put {lines wider : List Text} {line : Text} (free : ')' ∉ line) (rest : Widened lines wider) :
      Widened lines (line :: wider)

theorem Widened.refl (lines : List Text) : Widened lines lines := by
  induction lines with
  | nil => exact .nil
  | cons line lines ih => exact .keep line ih

private theorem widened_insertAt {block : List Text} (free : ∀ line ∈ block, ')' ∉ line) (position : Nat)
    (lines : List Text) : Widened lines (Document.insertAt position block lines) := by
  have between (front back : List Text) : Widened (front ++ back) (front ++ block ++ back) := by
    induction front with
    | cons line front ih => exact .keep line ih
    | nil =>
      induction block with
      | nil => exact .refl _
      | cons line block ih =>
        exact .put (free line (by simp)) (ih fun other member => free other (by simp [member]))
  have whole := between (lines.take position) (lines.drop position)
  rwa [List.take_append_drop] at whole

/-- The first line that was there comes behind lines that were put in. -/
theorem Widened.head {back wider : List Text} {line : Text} (widened : Widened (line :: back) wider) :
    ∃ before behind, wider = before ++ line :: behind ∧ (∀ new ∈ before, ')' ∉ new) ∧
      Widened back behind := by
  generalize whole : line :: back = lines at widened
  induction widened with
  | nil => cases whole
  | keep kept rest =>
    obtain ⟨rfl, rfl⟩ := List.cons.inj whole
    exact ⟨[], _, rfl, by simp, rest⟩
  | put free rest ih =>
    obtain ⟨before, behind, rfl, all, wide⟩ := ih whole
    exact ⟨_ :: before, behind, rfl, by simpa [free] using all, wide⟩

/-- A line that was there is still there, with more lines before and behind it. -/
theorem Widened.split {front back wider : List Text} {line : Text}
    (widened : Widened (front ++ line :: back) wider) :
    ∃ before behind, wider = before ++ line :: behind ∧ Widened back behind := by
  generalize whole : front ++ line :: back = lines at widened
  induction widened generalizing front with
  | nil => simp at whole
  | put free rest ih =>
    obtain ⟨before, behind, rfl, wide⟩ := ih whole
    exact ⟨_ :: before, behind, rfl, wide⟩
  | keep kept rest ih =>
    cases front with
    | nil =>
      obtain ⟨rfl, rfl⟩ := List.cons.inj whole
      exact ⟨[], _, rfl, rest⟩
    | cons first front =>
      obtain ⟨rfl, rfl⟩ := List.cons.inj whole
      obtain ⟨before, behind, rfl, wide⟩ := ih rfl
      exact ⟨_ :: before, behind, rfl, wide⟩

/-- Joined lines, from one of them on. -/
theorem exists_join_append {ending : Text} (before : List Text) (line : Text) (behind : List Text) :
    ∃ front, Text.join ending (before ++ line :: behind) = front ++ Text.join ending (line :: behind) ∧
      ∀ c ∈ front, c ∈ ending ∨ ∃ new ∈ before, c ∈ new := by
  induction before with
  | nil => exact ⟨[], rfl, by simp⟩
  | cons first before ih =>
    obtain ⟨front, joined, from_⟩ := ih
    obtain ⟨next, others, same⟩ : ∃ next others, before ++ line :: behind = next :: others :=
      List.exists_cons_of_ne_nil (by simp)
    refine ⟨first ++ ending ++ front, ?_, fun c member => ?_⟩
    · rw [List.cons_append, same, Text.join, ← same, joined, List.append_assoc, List.append_assoc,
        List.append_assoc]
    · rw [List.mem_append, List.mem_append] at member
      rcases member with (inFirst | inEnding) | inFront
      · exact .inr ⟨first, by simp, inFirst⟩
      · exact .inl inEnding
      · rcases from_ c inFront with inEnding | ⟨new, member, inside⟩
        · exact .inl inEnding
        · exact .inr ⟨new, by simp [member], inside⟩

private theorem join_cons_cons (ending first line : Text) (others : List Text) :
    Text.join ending ((first ++ line) :: others) = first ++ Text.join ending (line :: others) := by
  cases others with
  | nil => rfl
  | cons next others => simp [Text.join]

/-- A line end is what an annotation needs behind it, and is passed over inside its arguments. -/
theorem endsLine_join_nil {reading : Reading} {ending line : Text} {back wider : List Text}
    (isEnd : Document.IsLineEnd ending) (widened : Widened (line :: back) wider)
    (further : reading = .inside → ∀ behind, Widened back behind →
      endsLine .inside (Text.join ending (line :: behind)) = true) :
    endsLine reading (Text.join ending ([] :: wider)) = true := by
  obtain ⟨before, behind, rfl, free, wide⟩ := widened.head
  cases reading with
  | inside =>
    obtain ⟨front, joined, from_⟩ := @exists_join_append ending ([] :: before) line behind
    have clean : ')' ∉ front := by
      intro member
      rcases from_ ')' member with inEnding | ⟨new, inside, member⟩
      · rcases isEnd with rfl | rfl <;> simp at inEnding
      · rcases List.mem_cons.mp inside with rfl | inside
        · cases member
        · exact free new inside member
    rw [← List.cons_append, joined, endsLine_inside_append clean]
    exact further rfl behind wide
  | before | behind =>
    obtain ⟨next, others, same⟩ : ∃ next others, before ++ line :: behind = next :: others :=
      List.exists_cons_of_ne_nil (by simp)
    rw [same, Text.join]
    rcases isEnd with rfl | rfl <;> simp [endsLine]

/-- Lines that are put in behind an annotation do not come between it and its line end. -/
theorem endsLine_join {reading : Reading} {rest ending first : Text} {others wider : List Text}
    (isEnd : Document.IsLineEnd ending) (ends : endsLine reading rest = true)
    (cut : Document.lines rest = first :: others) (widened : Widened others wider) :
    endsLine reading (Text.join ending (first :: wider)) = true := by
  fun_induction Document.lines rest generalizing reading first others wider with
  | case1 => cases reading <;> cases ends
  | case2 rest ih | case3 rest ih =>
    obtain ⟨rfl, rfl⟩ := List.cons.inj cut
    obtain ⟨line, back, next⟩ := List.exists_cons_of_ne_nil (Document.lines_ne_nil rest)
    rw [next] at widened
    refine endsLine_join_nil isEnd widened ?_
    rintro rfl behind wide
    exact ih (by simpa [endsLine] using ends) next wide
  | case4 c rest _ plain none ih => exact absurd none (Document.lines_ne_nil rest)
  | case5 c rest _ plain line others whole ih =>
    obtain ⟨rfl, rfl⟩ := List.cons.inj cut
    have joined : Text.join ending ((c :: line) :: wider) = c :: Text.join ending (line :: wider) :=
      join_cons_cons ending [c] line wider
    rw [joined]
    have further {reading : Reading} (ends : endsLine reading rest = true) :
        endsLine reading (Text.join ending (line :: wider)) = true := ih ends whole widened
    cases reading with
    | inside =>
      rw [endsLine] at ends ⊢
      split at ends
      · next closes => rw [if_pos closes, further ends]
      · next other => rw [if_neg other, further ends]
    | before =>
      simp only [endsLine, Bool.or_eq_true, Bool.and_eq_true] at ends ⊢
      exact ends.imp (·.imp_right (·.imp_right further)) (·.imp_right further)
    | behind =>
      simp only [endsLine, Bool.or_eq_true, Bool.and_eq_true] at ends ⊢
      exact ends.imp_right (·.imp_right further)

/-- The annotation stays recognisable in lines that are joined anew with further ones. -/
theorem Disabled.join {text ending : Text} {wider : List Text} (disabled : Disabled text)
    (isEnd : Document.IsLineEnd ending) (widened : Widened (Document.lines text) wider) :
    Disabled (Text.join ending wider) := by
  obtain ⟨front, rest, rfl, ends⟩ := disabled
  obtain ⟨tail, back, starts, cut⟩ :=
    @Document.exists_first_line "@Disabled".toList (by decide) (by decide) rest
  obtain ⟨before, more, first, others, same, all⟩ :=
    Document.exists_lines_append front ("@Disabled".toList ++ rest)
  obtain ⟨rfl, rfl⟩ := List.cons.inj (same.symm.trans starts)
  rw [List.append_assoc, all] at widened
  obtain ⟨ahead, behind, rfl, wide⟩ := widened.split
  obtain ⟨lead, joined, -⟩ := @exists_join_append ending ahead (more ++ ("@Disabled".toList ++ tail)) behind
  refine ⟨lead ++ more, Text.join ending (tail :: behind), ?_, endsLine_join isEnd ends cut wide⟩
  rw [joined, join_cons_cons, join_cons_cons]
  simp only [List.append_assoc]

/-- An insertion of lines that close no parenthesis keeps the annotation recognisable. -/
theorem Disabled.insertOnce {witness : Witness} {insertion : List Text} {anchors : List Anchor}
    {required : Bool} {text : Text} {edit : Edit} (disabled : Disabled text)
    (free : ∀ new ∈ insertion, ')' ∉ new)
    (ran : insertOnce witness insertion anchors required text = .ok edit) : Disabled edit.text := by
  rcases insertOnce_cases ran with ⟨-, -, same⟩ | ⟨line, position, -, -, -, made⟩ | ⟨-, -, -, same⟩
  · exact same ▸ disabled
  · rw [made, Document.render]
    split
    · exact disabled
    · refine disabled.join (Document.isLineEnd_newline text) (widened_insertAt ?_ _ _)
      intro new member
      obtain ⟨bare, inside, rfl⟩ := List.mem_map.mp member
      split
      · exact free bare inside
      · rw [List.mem_append, not_or]
        refine ⟨fun blank => ?_, free bare inside⟩
        exact absurd (Text.isBlank_of_mem_indentation blank) (by decide)
  · exact same ▸ disabled

set_option maxRecDepth 4000 in
private theorem exists_disabledLine_eq :
    ∃ inner, disabledLine = "@Disabled".toList ++ '(' :: (inner ++ [')']) ∧ ')' ∉ inner := by
  refine ⟨(disabledLine.drop 10).dropLast, ?_⟩
  unfold disabledLine
  repeat rw [String.toList_ofList]
  decide +kernel

/-- The annotation's own line makes it recognisable, unless it is the last one. -/
theorem disabled_of_isRow {lead text : Text} (row : IsRow (lead ++ disabledLine) text)
    (blank : ∀ c ∈ lead, isBlank c = true) (unfed : '\n' ∉ lead) (more : lastStart text ≠ some '@') :
    Disabled text := by
  obtain ⟨inner, line, free⟩ := exists_disabledLine_eq
  obtain ⟨front, rest, rfl, ended, ends⟩ := row
  rcases ends with rfl | ⟨ending, tail, isEnd, rfl⟩
  · have single : '\n' ∉ lead ++ disabledLine := by
      rw [List.mem_append, not_or]
      exact ⟨unfed, by decide⟩
    refine absurd ?_ more
    rw [List.append_nil, lastStart, Document.lines_append_of_ended ended, Document.lines_eq_singleton single,
      List.getLast?_concat, Option.bind_some, firstVisible_indent blank, line]
    rfl
  · refine ⟨front ++ lead, '(' :: (inner ++ [')']) ++ (ending ++ tail), by simp [line], ?_⟩
    refine endsLine_before_iff.mpr (.inr ⟨[], inner ++ ')' :: (ending ++ tail), by simp, by simp, ?_⟩)
    refine endsLine_inside_iff.mpr ⟨inner, _, rfl, free, ?_⟩
    rcases isEnd with rfl | rfl <;> simp [endsLine]

/-! ## The steps of a test -/

/-- What the import of the annotation comes to. -/
theorem ensureDisabledImport_cases {text : Text} {edit : Edit} (ran : ensureDisabledImport text = .ok edit) :
    ((Text.includes disabledImport text = true ∨ junitWildcard.presentIn text = true) ∧ edit.text = text) ∨
    (∃ insertion anchor made, disabledImport ∈ insertion ∧ (∀ new ∈ insertion, new = [] ∨ new = disabledImport) ∧
      insertOnce (.literal disabledImport) insertion [anchor] false text = .ok made ∧
      made.outcome = .applied ∧ edit.text = made.text) ∨
    (testImportAnchor.place? text = none ∧ packageAnchor.place? text = none ∧ edit.text = text) := by
  unfold ensureDisabledImport at ran
  split at ran
  · next included =>
    cases ran
    exact .inl ⟨.inl included, rfl⟩
  · next absent =>
    split at ran
    · next wild =>
      cases ran
      exact .inl ⟨.inr wild, rfl⟩
    · obtain ⟨beside, inserting⟩ := exists_insertOnce (.literal disabledImport) [disabledImport]
        [testImportAnchor] text
      obtain ⟨behind, inserted⟩ := exists_insertOnce (.literal disabledImport) [[], disabledImport]
        [packageAnchor] text
      simp only [inserting, inserted, bind, Except.bind, pure, Except.pure] at ran
      -- The import is not there yet, so it is put in or has no place.
      have placed {insertion : List Text} {anchor : Anchor} {made : Edit}
          (ran : insertOnce (.literal disabledImport) insertion [anchor] false text = .ok made) :
          made.outcome = .applied ∨
            made.outcome = .noAnchor ∧ anchor.place? text = none ∧ made.text = text := by
        rcases insertOnce_cases ran with ⟨present, -⟩ | ⟨_, _, -, -, applied, -⟩ | ⟨-, none, skipped, same⟩
        · exact absurd present absent
        · exact .inl applied
        · exact .inr ⟨skipped, by simpa using none, same⟩
      rcases placed inserting with applied | ⟨skipped, noTest, -⟩
      · rw [if_pos (by simp [applied])] at ran
        cases ran
        exact .inr (.inl ⟨_, _, _, by simp, by simp, inserting, applied, rfl⟩)
      · rw [if_neg (by simp [skipped])] at ran
        rcases placed inserted with applied | ⟨skipped, noPackage, same⟩
        · rw [if_pos applied] at ran
          cases ran
          exact .inr (.inl ⟨_, _, _, by simp, by simp, inserted, applied, rfl⟩)
        · rw [if_neg (by simp [skipped])] at ran
          cases ran
          exact .inr (.inr ⟨noTest, noPackage, same⟩)

private theorem leaves_ensureDisabledImport {text : Text}
    (settled : Text.includes disabledImport text = true ∨ junitWildcard.presentIn text = true ∨
      testImportAnchor.place? text = none ∧ packageAnchor.place? text = none) :
    Leaves ensureDisabledImport text := by
  unfold Leaves ensureDisabledImport
  split
  · exact ⟨_, rfl, rfl⟩
  · next absent =>
    split
    · exact ⟨_, rfl, rfl⟩
    · next unwild =>
      obtain ⟨noTest, noPackage⟩ := (settled.resolve_left absent).resolve_left unwild
      have skips {insertion : List Text} {anchor : Anchor} (none : anchor.place? text = none) :
          insertOnce (.literal disabledImport) insertion [anchor] false text =
            .ok { outcome := .noAnchor, text, reason := "anchor not found" } := by
        have absent' : ¬ (Witness.literal disabledImport).presentIn text = true := absent
        unfold insertOnce
        rw [if_neg absent']
        simp [none]
      simp only [skips noTest, skips noPackage, bind, Except.bind, pure, Except.pure]
      exact ⟨_, rfl, rfl⟩

/-- What a test's comment says about it. -/
def testNotes : List Text :=
  ["* " ++ testMarker ++ ".",
    "* @Immutable entities cannot be persisted or deleted via JPA repository.",
    "* To test view queries, use native SQL to populate the underlying table.",
    "*"]

set_option maxRecDepth 4000 in
/-- The notes are lines that close no parenthesis and start with a star. -/
theorem testNotes_plain : ∀ new ∈ testNotes,
    new.IsSingleLine ∧ ')' ∉ new ∧ firstVisible new = some '*' := by
  unfold testNotes testMarker
  repeat rw [String.toList_ofList]
  decide +kernel

set_option maxRecDepth 4000 in
theorem disabledLine_plain : ∀ new ∈ [disabledLine],
    new.IsSingleLine ∧ firstVisible new = some '@' := by
  unfold disabledLine
  rw [String.toList_ofList]
  decide +kernel

/-- What a second conversion of a test needs to leave what the first one made: the last line starts with
no annotation, so that the new one has a line end behind it, and a line starts with the word only where
there is a package statement, so that none comes about by new line ends. -/
structure SettlesTest (text : Text) : Prop where
  last : lastStart text ≠ some '@'
  package : (.lineStart ++ .exactly "package".toList : Pattern).occursIn text = true →
    (packageAnchor.place? text).isSome = true

instance (text : Text) : Decidable (SettlesTest text) :=
  decidable_of_iff (_ ∧ _) ⟨fun both => ⟨both.1, both.2⟩, fun settles => ⟨settles.last, settles.package⟩⟩

/-- There is no package statement where no line starts with the word. -/
theorem place?_packageAnchor_of_no_start {text : Text}
    (unstarted : (.lineStart ++ .exactly "package".toList : Pattern).occursIn text = false) :
    packageAnchor.place? text = none := by
  rw [Pattern.occursIn_eq_false_iff] at unstarted
  rw [place?_eq_none_iff rfl, Pattern.occursIn_eq_false_iff]
  rintro front mid rest rfl spans
  obtain ⟨_, semicolon, rfl, spans, -⟩ := Pattern.spans_append.mp spans
  obtain ⟨_, name, rfl, spans, -⟩ := Pattern.spans_append.mp spans
  obtain ⟨word, gap, rfl, spans, -⟩ := Pattern.spans_append.mp spans
  exact unstarted front word _ (by simp) spans

/-- The import is no annotation, wherever it goes. -/
theorem lastStart_ensureDisabledImport {text : Text} {edit : Edit} (last : lastStart text ≠ some '@')
    (ran : ensureDisabledImport text = .ok edit) : lastStart edit.text ≠ some '@' := by
  rcases ensureDisabledImport_cases ran with
    ⟨-, same⟩ | ⟨insertion, anchor, made, -, only, inserting, -, same⟩ | ⟨-, -, same⟩
  · rwa [same]
  · have single : ∀ new ∈ insertion, '\n' ∉ new := by
      intro new member
      rcases only new member with rfl | rfl <;> decide
    rw [same]
    rcases lastStart_insertOnce single inserting with kept | ⟨-, -, -, -, new, member, starts⟩
    · rwa [kept]
    · rw [starts]
      rcases only new member with rfl | rfl <;> decide
  · rwa [same]

/-- An annotation that is put in is recognised. -/
theorem disabled_of_applied {text : Text} {edit : Edit} (last : lastStart text ≠ some '@')
    (ran : insertOnce disabledAnnotation [disabledLine] [integrationTestAnchor] false text = .ok edit)
    (applied : edit.outcome = .applied) : Disabled edit.text := by
  obtain ⟨line, position, found, row⟩ :=
    exists_isRow_of_applied ran applied (List.mem_singleton_self _) (by decide)
  have placed : integrationTestAnchor.place? text = some (line, position) := by
    simpa using found
  obtain ⟨rfl, indent, tail, blank, there⟩ := exists_line_of_place_after (by decide) placed
  have blanks : ∀ c ∈ indent, isBlank c = true := fun c member => Text.isBlank_of_isBlankOrTab (blank c member)
  have indented : Text.indentation ((Document.lines text).getD line []) = indent := by
    rw [List.getD_eq_getElem?_getD, there, Option.getD_some, List.append_assoc]
    exact indentation_append blank (by decide)
  rw [indented] at row
  refine disabled_of_isRow row blanks (fun fed => absurd (blank _ fed) (by decide)) ?_
  have single : ∀ new ∈ [disabledLine], '\n' ∉ new := fun new member => (disabledLine_plain new member).1.1
  rcases lastStart_insertOnce single ran with kept | ⟨_, _, found', behind, -⟩
  · rwa [kept]
  · -- The anchor would stand on the last line, which starts with no annotation.
    obtain ⟨rfl, rfl⟩ := Prod.mk.inj (Option.some.inj (found.symm.trans found'))
    have inside : line < (Document.lines text).length := (List.getElem?_eq_some_iff.mp there).1
    have isLast : line = (Document.lines text).length - 1 := by omega
    refine absurd ?_ last
    rw [lastStart, List.getLast?_eq_getElem?, ← isLast, there, Option.bind_some, List.append_assoc,
      firstVisible_indent blanks]
    rfl

private theorem testNotes_single : ∀ new ∈ testNotes, '\n' ∉ new :=
  fun new member => (testNotes_plain new member).1.1

private theorem testNotes_unlike {first : Char} (other : '*' ≠ first) :
    ∀ new ∈ testNotes, firstVisible new ≠ some first := by
  intro new member
  simpa [(testNotes_plain new member).2.2] using other

section Again

variable {text : Text} {imported marked noted : Edit}

/-- The steps behind the import leave it settled. -/
private theorem leaves_import_again (settles : SettlesTest text)
    (importing : ensureDisabledImport text = .ok imported)
    (marking : insertOnce disabledAnnotation [disabledLine] [integrationTestAnchor] false imported.text =
      .ok marked)
    (noting : insertOnce (.literal testMarker) testNotes [testCommentAnchor] false marked.text =
      .ok noted) : Leaves ensureDisabledImport noted.text := by
  have mark := disabledLine_plain disabledLine (List.mem_singleton_self _)
  have single : disabledImport.IsSingleLine := by decide
  refine leaves_ensureDisabledImport ?_
  rcases ensureDisabledImport_cases importing with
    ⟨present, same⟩ | ⟨insertion, anchor, made, inside, -, inserting, applied, same⟩ | ⟨noTest, noPackage, same⟩
  · rw [← same] at present
    rcases present with included | wild
    · exact .inl (includes_insertOnce single noting (includes_insertOnce single marking included))
    · refine .inr (.inl (start_insertOnce (by decide) (by decide) noting ?_))
      exact start_insertOnce (by decide) (by decide) marking wild
  · have included := includes_of_applied inserting applied inside (List.infix_refl _) (by decide)
    rw [← same] at included
    exact .inl (includes_insertOnce single noting (includes_insertOnce single marking included))
  · -- Neither the annotation nor a note starts with what the anchors look for.
    have kept {part : Text} {first : Char} (starts : part.head? = some first) (visible : isBlank first = false)
        (fits : part.IsSingleLine) (unstarred : '*' ≠ first) (unmarked : '@' ≠ first)
        (none : (.lineStart ++ .exactly part : Pattern).occursIn text = false) :
        (.lineStart ++ .exactly part : Pattern).occursIn noted.text = false := by
      refine no_start_insertOnce starts visible fits.1 fits.2 testNotes_single
        (testNotes_unlike unstarred) noting ?_
      refine no_start_insertOnce starts visible fits.1 fits.2 (List.forall_mem_singleton.mpr mark.1.1)
        (List.forall_mem_singleton.mpr ?_) marking (same.symm ▸ none)
      rw [mark.2]
      simpa using unmarked
    refine .inr (.inr ⟨(place?_eq_none_iff rfl).mpr ?_, place?_packageAnchor_of_no_start ?_⟩)
    · exact kept rfl (by decide) (by decide) (by decide) (by decide) ((place?_eq_none_iff rfl).mp noTest)
    · refine kept rfl (by decide) (by decide) (by decide) (by decide) ?_
      rw [← Bool.not_eq_true]
      intro started
      simpa [noPackage] using settles.package started

/-- The notes behind the annotation leave it settled. -/
private theorem leaves_annotation_again (last : lastStart text ≠ some '@')
    (marking : insertOnce disabledAnnotation [disabledLine] [integrationTestAnchor] false text = .ok marked)
    (noting : insertOnce (.literal testMarker) testNotes [testCommentAnchor] false marked.text =
      .ok noted) :
    Leaves (insertOnce disabledAnnotation [disabledLine] [integrationTestAnchor] false) noted.text := by
  have stays (disabled : Disabled marked.text) :
      Leaves (insertOnce disabledAnnotation [disabledLine] [integrationTestAnchor] false) noted.text := by
    refine leaves_insertOnce_of_present (disabledAnnotation_presentIn_iff.mpr ?_)
    exact disabled.insertOnce (fun new member => (testNotes_plain new member).2.1) noting
  rcases insertOnce_cases marking with
    ⟨present, -, same⟩ | ⟨_, _, -, -, applied, -⟩ | ⟨-, nowhere, -, same⟩
  · exact stays (same.symm ▸ disabledAnnotation_presentIn_iff.mp present)
  · exact stays (disabled_of_applied last marking applied)
  · have unplaced : integrationTestAnchor.place? marked.text = none := by
      rw [same]
      simpa using nowhere
    have still : integrationTestAnchor.place? noted.text = none := by
      refine (place?_eq_none_iff rfl).mpr ?_
      refine no_headed_insertOnce rfl (by decide) (by decide) (by decide) (by decide) testNotes_single
        (testNotes_unlike (by decide)) noting ?_
      exact (place?_eq_none_iff rfl).mp unplaced
    exact leaves_insertOnce_of_no_place (by simp [still])

end Again

/-- A test that was disabled is left by the same steps. -/
theorem leaves_testSteps {text final : Text} {results : Steps} (settles : SettlesTest text)
    (ran : runSteps text testSteps = .ok (final, results)) :
    ∀ step ∈ testSteps, Leaves step.2 final := by
  obtain ⟨imported, rest, importing, ran, -⟩ := exists_runSteps_cons ran
  obtain ⟨marked, rest, marking, ran, -⟩ := exists_runSteps_cons ran
  obtain ⟨noted, rest, noting, ran, -⟩ := exists_runSteps_cons ran
  obtain rfl : noted.text = final := by cases ran; rfl
  intro step member
  rcases List.mem_cons.mp member with rfl | member
  · exact leaves_import_again settles importing marking noting
  rcases List.mem_cons.mp member with rfl | member
  · exact leaves_annotation_again (lastStart_ensureDisabledImport settles.last importing) marking noting
  · obtain rfl := List.mem_singleton.mp member
    refine leaves_insertOnce_again noting fun applied => ?_
    refine includes_of_applied noting applied (List.mem_cons_self ..) ?_ (by decide)
    exact ⟨"* ".toList, ".".toList, rfl⟩

end ReadOnly

end ReadOnlyViews
