import ReadOnlyViews.Proofs.Registrations
import ReadOnlyViews.Proofs.Rows

/-!
The two halves of a table's cleanup.  The includes of an entity's table changelogs are found by a
pattern over the whole master, the files themselves by their names.  In a master whose includes are
written as registrations write them, the rows that go are exactly those of the files that go.
-/

namespace ReadOnlyViews

namespace Pattern

variable {p : Pattern} {before after : Text}

/-- Where matches start, and none is empty, one of them is dropped. -/
theorem exists_eraseAllFrom_of_spans {mid : Text}
    (nonempty : ∀ mid after, p.Spans before mid after → mid ≠ []) (spans : p.Spans before mid after) :
    ∃ best rest, mid ++ after = best ++ rest ∧ p.Spans before best rest ∧
      (p.eraseAllFrom 0 before (mid ++ after)).1 =
        (p.eraseAllFrom 0 (best.reverse ++ before) rest).1 := by
  obtain ⟨c, tail, text⟩ := List.exists_cons_of_ne_nil
    (List.append_ne_nil_of_left_ne_nil (nonempty mid after spans) after)
  rw [Spans, text] at spans
  obtain ⟨stop, others, first⟩ := List.exists_cons_of_ne_nil (List.ne_nil_of_mem spans)
  obtain ⟨best, whole, place, bestSpans⟩ :=
    exists_spans_of_mem_stops (show stop ∈ p.stops ⟨before, c :: tail⟩ by simp [first])
  dsimp only at whole place bestSpans
  obtain ⟨d, more, rfl⟩ := List.exists_cons_of_ne_nil (nonempty best stop.after bestSpans)
  rw [List.cons_append] at whole
  obtain ⟨rfl, rfl⟩ := List.cons.inj whole
  have reach : (p.stops ⟨before, c :: (more ++ stop.after)⟩).head?.map
      (fun stop => stop.offset - before.length) = some (more.length + 1) := by
    rw [first, List.head?_cons, Option.map_some, Cursor.offset, place]
    simp only [List.length_append, List.length_reverse, List.length_cons, Option.some.injEq]
    omega
  refine ⟨c :: more, stop.after, text, bestSpans, ?_⟩
  rw [text, eraseAllFrom, reach]
  dsimp only
  rw [eraseAllFrom_eq_drop, List.take_left, List.drop_left, List.reverse_cons, List.append_assoc,
    List.singleton_append]

/-- When nothing is dropped, the text stays. -/
theorem eraseAllFrom_of_count_eq_zero (before after : Text) (none : (p.eraseAllFrom 0 before after).2 = 0) :
    (p.eraseAllFrom 0 before after).1 = after := by
  induction after generalizing before with
  | nil => rfl
  | cons c after ih =>
    rw [eraseAllFrom] at none ⊢
    split at none
    · cases none
    · exact congrArg (c :: ·) (ih (c :: before) none)

/-- The rest of a line stays once its first character does. -/
theorem OpensLines.eraseAllFrom_append (opens : OpensLines p) {part : Text}
    (free : '\n' ∉ part.dropLast) (inside : ¬ (before = [] ∨ before.head? = some '\n')) :
    (p.eraseAllFrom 0 before (part ++ after)).1 =
      part ++ (p.eraseAllFrom 0 (part.reverse ++ before) after).1 := by
  induction part generalizing before with
  | nil => rfl
  | cons c part ih =>
    rw [List.cons_append, opens.eraseAllFrom_cons (.inl inside), List.cons_append]
    cases part with
    | nil => rfl
    | cons d part =>
      rw [List.dropLast_cons_of_ne_nil (by simp), List.mem_cons, not_or] at free
      have further : ¬ (c :: before = [] ∨ (c :: before).head? = some '\n') := by
        simpa using Ne.symm free.1
      rw [ih free.2 further, List.reverse_cons (a := c), List.append_assoc, List.singleton_append]

/-- A line where no match starts stays. -/
theorem OpensLines.eraseAllFrom_line (opens : OpensLines p) {part : Text} (free : '\n' ∉ part.dropLast)
    (unmatched : ∀ mid rest, mid ++ rest = part ++ after → ¬ p.Spans before mid rest) :
    (p.eraseAllFrom 0 before (part ++ after)).1 =
      part ++ (p.eraseAllFrom 0 (part.reverse ++ before) after).1 := by
  cases part with
  | nil => rfl
  | cons c part =>
    rcases p.eraseAllFrom_cases before c (part ++ after) with ⟨mid, rest, -, text, spans, -⟩ | kept
    · exact absurd spans (unmatched mid rest text.symm)
    · rw [List.cons_append, kept, List.cons_append]
      cases part with
      | nil => rfl
      | cons d part =>
        rw [List.dropLast_cons_of_ne_nil (by simp), List.mem_cons, not_or] at free
        have inside : ¬ (c :: before = [] ∨ (c :: before).head? = some '\n') := by
          simpa using Ne.symm free.1
        rw [opens.eraseAllFrom_append free.2 inside, List.reverse_cons (a := c), List.append_assoc,
          List.singleton_append]

open Document (lines) in
/-- When every match takes whole lines that fail a test, all lines that pass it stay. -/
theorem OpensLines.filter_lines_eraseAllFrom (opens : OpensLines p)
    (nonempty : ∀ before mid after, p.Spans before mid after → mid ≠ [])
    (ends : ∀ before mid after, p.Spans before mid after → mid.getLast? = some '\n' ∨ after = [])
    {test : Text → Bool} (blank : test [] = false)
    (outside : ∀ before mid after, p.Spans before mid after → ∀ line ∈ lines mid, test line = false)
    (before after : Text) :
    (lines (p.eraseAllFrom 0 before after).1).filter test = (lines after).filter test := by
  -- from one line to the next: it is matched, with those behind it, or stays
  by_cases matched : ∃ mid rest, mid ++ rest = after ∧ p.Spans before mid rest
  · obtain ⟨mid, tail, rfl, spans⟩ := matched
    obtain ⟨best, rest, text, bestSpans, erased⟩ :=
      exists_eraseAllFrom_of_spans (fun mid after => nonempty before mid after) spans
    have passed : (lines best).filter test = [] := by
      rw [List.filter_eq_nil_iff]
      exact fun line member => by simp [outside before best rest bestSpans line member]
    have shorter : rest.length < (mid ++ tail).length := by
      have some_ := List.length_pos_of_ne_nil (nonempty before best rest bestSpans)
      rw [text, List.length_append]
      omega
    rw [erased, text]
    rcases ends before best rest bestSpans with ended | rfl
    · have dropped : (lines best).dropLast.filter test = [] := by
        rw [List.filter_eq_nil_iff] at passed ⊢
        exact fun line member => passed line (List.dropLast_subset _ member)
      rw [Document.lines_append_of_ended (.inr ended), List.filter_append, dropped, List.nil_append]
      exact opens.filter_lines_eraseAllFrom nonempty ends blank outside _ rest
    · rw [List.append_nil, passed]
      show [[]].filter test = []
      simp [blank]
  · by_cases fed : '\n' ∈ after
    · obtain ⟨line, rest, rfl, free⟩ := List.eq_append_cons_of_mem fed
      have whole : line ++ '\n' :: rest = line ++ ['\n'] ++ rest := by simp
      have shorter : rest.length < (line ++ '\n' :: rest).length := by
        rw [List.length_append, List.length_cons]
        omega
      have ended : line ++ ['\n'] = [] ∨ (line ++ ['\n']).getLast? = some '\n' :=
        .inr List.getLast?_concat
      have kept := @eraseAllFrom_line p before rest opens (line ++ ['\n'])
        (by rwa [List.dropLast_concat]) fun mid rest same spans => matched ⟨mid, rest, by rw [same, whole], spans⟩
      rw [whole, kept, Document.lines_append_of_ended ended, Document.lines_append_of_ended ended,
        List.filter_append, List.filter_append,
        opens.filter_lines_eraseAllFrom nonempty ends blank outside _ rest]
    · have kept := @eraseAllFrom_line p before [] opens after
        (fun member => fed (List.dropLast_subset _ member))
        fun mid rest same spans => matched ⟨mid, rest, by simpa using same, spans⟩
      have last : (p.eraseAllFrom 0 (after.reverse ++ before) []).1 = [] := rfl
      rw [List.append_nil, last, List.append_nil] at kept
      rw [kept]
termination_by after.length

end Pattern

namespace Changelog

open Document (IsLineEnd Row Tied lines rows textOf)

/-! ### Names of changelogs of tables -/

/-- Whether a file is the table changelog or the constraints changelog of an entity. -/
def isOfTable (entityClass file : Text) : Bool :=
  isTable entityClass file || isConstraints entityClass file

private theorem isStamped_iff {suffix file : Text} :
    isStamped suffix file = true ↔ ∃ digits, digits.length = 14 ∧ (∀ c ∈ digits, isDecimal c = true) ∧
      (file = digits ++ suffix ∨ file = digits ++ (suffix ++ ['\n'])) := by
  simp only [isStamped, isUpToLineFeed, Bool.and_eq_true, Bool.or_eq_true, beq_iff_eq,
    List.all_eq_true]
  constructor
  · rintro ⟨⟨long, digits⟩, ends⟩
    have whole := List.take_append_drop 14 file
    refine ⟨file.take 14, long, digits, ends.imp ?_ ?_⟩
    · exact fun same => by rw [← same, whole]
    · exact fun same => by rw [← same, whole]
  · rintro ⟨digits, long, decimals, spelled⟩
    have cut (rest : Text) : (digits ++ rest).take 14 = digits ∧ (digits ++ rest).drop 14 = rest := by
      rw [← long]
      exact ⟨List.take_left, List.drop_left⟩
    rcases spelled with rfl | rfl
    · rw [(cut _).1, (cut _).2]
      exact ⟨⟨long, decimals⟩, .inl rfl⟩
    · rw [(cut _).1, (cut _).2]
      exact ⟨⟨long, decimals⟩, .inr rfl⟩

/-- Names of one line are of a table as the pattern of its includes spells them. -/
theorem isOfTable_iff {entityClass file : Text} (noLineFeed : '\n' ∉ file) :
    isOfTable entityClass file = true ↔ ∃ digits extra, digits.length = 14 ∧
      (∀ c ∈ digits, isDecimal c = true) ∧ (extra = "constraints_".toList ∨ extra = []) ∧
      file = digits ++ ("_added_entity_".toList ++ (extra ++ (entityClass ++ ".xml".toList))) := by
  have single {front : Text} : file ≠ front ++ ['\n'] := by
    rintro rfl
    simp at noLineFeed
  have spelled (suffix : Text) : isStamped suffix file = true ↔ ∃ digits, digits.length = 14 ∧
      (∀ c ∈ digits, isDecimal c = true) ∧ file = digits ++ suffix := by
    rw [isStamped_iff]
    refine exists_congr fun digits => and_congr_right fun _ => and_congr_right fun _ => ?_
    rw [← List.append_assoc, or_iff_left single]
  have table : tableSuffix entityClass =
      "_added_entity_".toList ++ ([] ++ (entityClass ++ ".xml".toList)) := List.append_assoc ..
  have constraints : constraintsSuffix entityClass =
      "_added_entity_".toList ++ ("constraints_".toList ++ (entityClass ++ ".xml".toList)) := by
    unfold constraintsSuffix
    rw [List.append_assoc]
    rfl
  rw [isOfTable, Bool.or_eq_true, isTable, isConstraints, spelled, spelled, table, constraints]
  constructor
  · rintro (⟨digits, long, decimals, same⟩ | ⟨digits, long, decimals, same⟩)
    · exact ⟨digits, [], long, decimals, .inr rfl, same⟩
    · exact ⟨digits, _, long, decimals, .inl rfl, same⟩
  · rintro ⟨digits, extra, long, decimals, rfl | rfl, same⟩
    · exact .inr ⟨digits, long, decimals, same⟩
    · exact .inl ⟨digits, long, decimals, same⟩

private theorem suffix_eq_of_isStamped {suffix digits front : Text} (long : digits.length = 14)
    (stamped : isStamped suffix (digits ++ (front ++ ".xml".toList)) = true) :
    front ++ ".xml".toList = suffix := by
  have behind : (digits ++ (front ++ ".xml".toList)).drop 14 = front ++ ".xml".toList := by
    rw [← long, List.drop_left]
  simp only [isStamped, isUpToLineFeed, Bool.and_eq_true, Bool.or_eq_true, beq_iff_eq, behind] at stamped
  rcases stamped.2 with same | same
  · exact same
  · -- the names end with a letter
    have ends := congrArg List.getLast? same
    rw [List.getLast?_concat, List.getLast?_append_of_ne_nil _ (by decide)] at ends
    exact absurd ends (by decide)

/-- The changelogs of two entities are told apart, unless one is called like the constraints of the
other. -/
theorem isOfTable_eq_false {entityClass other digits : Text} (different : other ≠ entityClass)
    (plain : ¬ "constraints_".toList <+: entityClass) (plainOther : ¬ "constraints_".toList <+: other)
    (long : digits.length = 14) :
    isOfTable entityClass (digits ++ tableSuffix other) = false ∧
      isOfTable entityClass (digits ++ constraintsSuffix other) = false := by
  have parted (name : Text) : constraintsSuffix name = tableSuffix ("constraints_".toList ++ name) := by
    unfold constraintsSuffix tableSuffix
    rw [← List.append_assoc "_added_entity_".toList]
    rfl
  have same {name file : Text} (stamped : isTable name (digits ++ tableSuffix file) = true) :
      file = name := by
    have suffix := suffix_eq_of_isStamped long stamped
    exact List.append_cancel_left (List.append_cancel_right suffix)
  simp only [isOfTable, isConstraints, parted, ← Bool.not_eq_true, Bool.or_eq_true, not_or]
  refine ⟨⟨fun stamped => different (same stamped), fun stamped => ?_⟩, fun stamped => ?_,
    fun stamped => ?_⟩
  · exact plainOther (same stamped ▸ List.prefix_append _ _)
  · exact plain (same stamped ▸ List.prefix_append _ _)
  · exact different (List.append_cancel_left (same stamped))

/-! ### Rows of the master -/

/-- The attribute behind the name in an include. -/
def includeAttribute : Text := " relativeToChangelogFile=\"false\""

private theorem plain_includeAttribute : ∀ c ∈ includeAttribute, (c != '/' && c != '>') = true :=
  List.all_eq_true.mp (by decide)

/-- What follows the name in an include. -/
def includeEnd : Text := includeAttribute ++ "/>"

/-- The file that a line includes, if the line is an include behind blanks and tabs. -/
def includedFile? (line : Text) : Option Text :=
  (Text.after? ("<include file=\"".toList ++ includeFolder) (line.dropWhile isBlankOrTab)).bind
    fun rest =>
      if rest.dropWhile (· != '"') = '"' :: includeEnd then some (rest.takeWhile (· != '"')) else none

private theorem includeTag_eq (name : Text) :
    includeTag name = ("<include file=\"".toList ++ includeFolder) ++ (name ++ '"' :: includeEnd) := by
  unfold includeTag
  simp only [List.append_assoc]
  rfl

private theorem includeTag_append (name rest : Text) : includeTag name ++ rest =
    "<include file=\"".toList ++ (includeFolder ++ (name ++ '"' :: (includeEnd ++ rest))) := by
  rw [includeTag_eq]
  simp only [List.append_assoc, List.cons_append]

private theorem includedFile?_eq_some_iff {line name : Text} :
    includedFile? line = some name ↔ '"' ∉ name ∧
      ∃ indent, (∀ c ∈ indent, isBlankOrTab c = true) ∧ line = indent ++ includeTag name := by
  unfold includedFile?
  rw [Option.bind_eq_some_iff]
  constructor
  · rintro ⟨rest, starts, named⟩
    rw [Text.after?_eq_some_iff] at starts
    split at named
    · rename_i ends
      obtain rfl := Option.some.inj named
      refine ⟨fun quote => ?_, line.takeWhile isBlankOrTab, List.all_eq_true.mp List.all_takeWhile, ?_⟩
      · simpa using List.all_eq_true.mp List.all_takeWhile _ quote
      · rw [includeTag_eq, ← ends, List.takeWhile_append_dropWhile, ← starts, List.takeWhile_append_dropWhile]
    · cases named
  · rintro ⟨noQuote, indent, blank, rfl⟩
    have plain : ∀ c ∈ name, (c != '"') = true := by
      intro c member
      rw [bne_iff_ne]
      rintro rfl
      exact noQuote member
    have visible : includeTag name = '<' :: (includeTag name).tail := rfl
    refine ⟨name ++ '"' :: includeEnd, ?_, ?_⟩
    · rw [Text.after?_eq_some_iff, ← includeTag_eq, List.dropWhile_append_of_pos blank, visible,
        List.dropWhile_cons_of_neg (by decide)]
    · rw [List.dropWhile_append_of_pos plain, List.takeWhile_append_of_pos plain,
        List.dropWhile_cons_of_neg (by decide), List.takeWhile_cons_of_neg (by decide),
        List.append_nil, if_pos rfl]

/-- A row that the cleanup can read: an include as it is written, or no include at all. -/
def IsReadable (row : Row) : Prop :=
  (includedFile? row.line).isSome ∨ ¬ "<include".toList <:+: row.line

instance (row : Row) : Decidable (IsReadable row) :=
  inferInstanceAs (Decidable (_ ∨ ¬ _))

/-- Whether a row includes a changelog of an entity's table. -/
def includesTable (entityClass : Text) (row : Row) : Bool :=
  (includedFile? row.line).any (isOfTable entityClass)

/-- What the pattern of an entity's table includes matches, part by part. -/
theorem spans_tableInclude_iff {entityClass before mid after : Text} :
    (tableInclude entityClass).Spans before mid after ↔
      (before = [] ∨ before.head? = some '\n') ∧
      ∃ indent gap digits extra attributes slash trailing ending,
        mid = indent ++ ("<include".toList ++ (gap ++ (("file=\"".toList ++ includeFolder) ++ (digits ++
          ("_added_entity_".toList ++ (extra ++ ((entityClass ++ ".xml\"".toList) ++ (attributes ++
            (slash ++ (">".toList ++ (trailing ++ ending))))))))))) ∧
        (∀ c ∈ indent, isBlankOrTab c = true) ∧ (gap ≠ [] ∧ ∀ c ∈ gap, isBlank c = true) ∧
        (digits.length = 14 ∧ ∀ c ∈ digits, isDecimal c = true) ∧
        (extra = "constraints_".toList ∨ extra = []) ∧
        (∀ c ∈ attributes, (c != '/' && c != '>') = true) ∧ (slash = "/".toList ∨ slash = []) ∧
        (∀ c ∈ trailing, isBlankOrTab c = true) ∧ (IsLineEnd ending ∨ ending = [] ∧ after = []) := by
  have gaps {before gap after : Text} : Pattern.blanks1.Spans before gap after ↔
      gap ≠ [] ∧ ∀ c ∈ gap, isBlank c = true := by
    simp only [Pattern.blanks1, Pattern.run1, Pattern.spans_append, Pattern.spans_one,
      Pattern.spans_run]
    constructor
    · rintro ⟨_, more, rfl, ⟨c, fits, rfl⟩, others⟩
      simpa using ⟨fits, others⟩
    · rintro ⟨some_, all⟩
      obtain ⟨c, more, rfl⟩ := List.exists_cons_of_ne_nil some_
      exact ⟨[c], more, rfl, ⟨c, all c (by simp), rfl⟩, fun d member => all d (by simp [member])⟩
  have breaks {before ending after : Text} : Pattern.lineBreakOrEnd.Spans before ending after ↔
      IsLineEnd ending ∨ ending = [] ∧ after = [] := by
    simp only [Pattern.lineBreakOrEnd, Pattern.spans_either, Pattern.spans_append,
      Pattern.spans_optional, Pattern.spans_exactly, Pattern.spans_textEnd]
    refine or_congr_left ⟨?_, ?_⟩
    · rintro ⟨_, _, rfl, rfl | rfl, rfl⟩
      · exact .inr rfl
      · exact .inl rfl
    · rintro (rfl | rfl)
      · exact ⟨[], ['\n'], rfl, .inr rfl, rfl⟩
      · exact ⟨['\r'], ['\n'], rfl, .inl rfl, rfl⟩
  simp only [tableInclude, Pattern.spans_append, gaps, breaks, Pattern.spans_lineStart,
    Pattern.spans_run, Pattern.spans_exactly, Pattern.spans_optional, Pattern.spans_times_one]
  constructor
  · rintro ⟨_, ending, rfl, ⟨_, trailing, rfl, ⟨_, _, rfl, ⟨_, slash, rfl, ⟨_, attributes, rfl,
      ⟨_, _, rfl, ⟨_, extra, rfl, ⟨_, _, rfl, ⟨_, digits, rfl, ⟨_, _, rfl, ⟨_, gap, rfl,
      ⟨_, _, rfl, ⟨_, indent, rfl, ⟨rfl, atStart⟩, indents⟩, rfl⟩, gaps⟩, rfl⟩, decimals⟩, rfl⟩,
      extras⟩, rfl⟩, plain⟩, slashes⟩, rfl⟩, blank⟩, ends⟩
    refine ⟨atStart, indent, gap, digits, extra, attributes, slash, trailing, ending, ?_, indents, gaps,
      decimals, extras, plain, slashes, blank, ends⟩
    simp only [List.nil_append, List.append_assoc]
  · rintro ⟨atStart, indent, gap, digits, extra, attributes, slash, trailing, ending, rfl, indents,
      gaps, decimals, extras, plain, slashes, blank, ends⟩
    refine ⟨_, ending, ?_, ⟨_, trailing, rfl, ⟨_, _, rfl, ⟨_, slash, rfl, ⟨_, attributes, rfl,
      ⟨_, _, rfl, ⟨_, extra, rfl, ⟨_, _, rfl, ⟨_, digits, rfl, ⟨_, _, rfl, ⟨_, gap, rfl,
      ⟨_, _, rfl, ⟨[], indent, rfl, ⟨rfl, atStart⟩, indents⟩, rfl⟩, gaps⟩, rfl⟩, decimals⟩, rfl⟩,
      extras⟩, rfl⟩, plain⟩, slashes⟩, rfl⟩, blank⟩, ends⟩
    simp only [List.nil_append, List.append_assoc]

/-- Behind the end of an include nothing is matched but its line end. -/
private theorem eq_lineEnd {trailing ending own rest after : Text}
    (blank : ∀ c ∈ trailing, isBlankOrTab c = true) (ends : IsLineEnd ending ∨ ending = [] ∧ after = [])
    (ended : IsLineEnd own ∨ own = [] ∧ rest = [])
    (same : trailing ++ (ending ++ after) = own ++ rest) : trailing ++ ending = own := by
  rcases ended with isEnd | ⟨rfl, rfl⟩
  · have none : trailing = [] := by
      cases trailing with
      | nil => rfl
      | cons c trailing =>
        have blankFirst := blank c (by simp)
        rcases isEnd with rfl | rfl
        · obtain ⟨rfl, -⟩ := List.cons.inj same
          exact absurd blankFirst (by decide)
        · obtain ⟨rfl, -⟩ := List.cons.inj same
          exact absurd blankFirst (by decide)
    subst none
    rcases ends with isEnding | ⟨rfl, rfl⟩
    · rcases isEnd with rfl | rfl <;> rcases isEnding with rfl | rfl <;> simp_all
    · exact absurd (List.append_eq_nil_iff.mp same.symm).1 isEnd.ne_nil
  · simp_all

/-- Behind the name of an include, its attribute and its end are matched as they are written. -/
private theorem eq_includeEnd {attributes slash trailing ending own rest after : Text}
    (plain : ∀ c ∈ attributes, (c != '/' && c != '>') = true) (slashes : slash = "/".toList ∨ slash = [])
    (blank : ∀ c ∈ trailing, isBlankOrTab c = true) (ends : IsLineEnd ending ∨ ending = [] ∧ after = [])
    (ended : IsLineEnd own ∨ own = [] ∧ rest = [])
    (same : attributes ++ (slash ++ '>' :: (trailing ++ (ending ++ after))) = includeEnd ++ (own ++ rest)) :
    attributes ++ (slash ++ '>' :: (trailing ++ ending)) = includeEnd ++ own := by
  have spelled (rest : Text) : includeEnd ++ rest = includeAttribute ++ '/' :: '>' :: rest := by
    unfold includeEnd
    rw [List.append_assoc]
    rfl
  rw [spelled] at same ⊢
  rcases slashes with rfl | rfl
  · obtain ⟨rfl, -, behind⟩ := Text.append_cons_inj_of_all plain plain_includeAttribute (by decide) (by decide) same
    rw [← eq_lineEnd blank ends ended (List.cons.inj behind).2]
    rfl
  · obtain ⟨-, different, -⟩ :=
      Text.append_cons_inj_of_all plain plain_includeAttribute (by decide) (by decide) same
    exact absurd different (by decide)

/-- Where an include stands, the pattern matches exactly it with its line end, and only if the file is
one of the entity's table. -/
theorem spans_tableInclude_of_includeTag {entityClass before indent name ending rest mid after : Text}
    (classQuote : '"' ∉ entityClass) (nameQuote : '"' ∉ name) (nameFeed : '\n' ∉ name)
    (indents : ∀ c ∈ indent, isBlankOrTab c = true)
    (ended : IsLineEnd ending ∨ ending = [] ∧ rest = [])
    (text : mid ++ after = indent ++ (includeTag name ++ (ending ++ rest))) :
    (tableInclude entityClass).Spans before mid after ↔
      (before = [] ∨ before.head? = some '\n') ∧ isOfTable entityClass name = true ∧
        mid = indent ++ (includeTag name ++ ending) := by
  have unquoted {part : Text} (noQuote : '"' ∉ part) : ∀ c ∈ part, (c != '"') = true := by
    intro c member
    rw [bne_iff_ne]
    rintro rfl
    exact noQuote member
  rw [spans_tableInclude_iff, isOfTable_iff nameFeed]
  refine and_congr_right fun _ => ⟨?_, ?_⟩
  · -- the two spellings are compared from the left, part by part
    rintro ⟨front, gap, digits, extra, attributes, slash, trailing, end_, rfl, fronts, ⟨-, gaps⟩,
      ⟨long, decimals⟩, extras, plain, slashes, blank, ends⟩
    have pathQuote :
        '"' ∉ digits ++ ("_added_entity_".toList ++ (extra ++ (entityClass ++ ".xml".toList))) := by
      simp only [List.mem_append, not_or]
      refine ⟨fun quote => absurd (decimals _ quote) (by decide), by decide, ?_, classQuote, by decide⟩
      rcases extras with rfl | rfl <;> decide
    simp only [List.append_assoc] at text
    obtain ⟨rfl, -, behindIndent⟩ := Text.append_cons_inj_of_all fronts indents
      (by decide : isBlankOrTab '<' = false) (by decide : isBlankOrTab '<' = false) text
    have atGap : gap ++ 'f' :: ("ile=\"".toList ++ (includeFolder ++ (digits ++ ("_added_entity_".toList ++
        (extra ++ (entityClass ++ (".xml\"".toList ++ (attributes ++ (slash ++ (">".toList ++ (trailing ++
          (end_ ++ after)))))))))))) = [' '] ++ 'f' :: ("ile=\"".toList ++ (includeFolder ++
            (name ++ '"' :: includeEnd ++ (ending ++ rest)))) :=
      @List.append_cancel_left _ "include".toList _ _ behindIndent
    obtain ⟨rfl, -, behindGap⟩ := Text.append_cons_inj_of_all gaps
      (List.forall_mem_singleton.mpr (by decide)) (by decide) (by decide) atGap
    have regrouped : digits ++ ("_added_entity_".toList ++ (extra ++ (entityClass ++ ".xml".toList))) ++
        '"' :: (attributes ++ (slash ++ '>' :: (trailing ++ (end_ ++ after)))) =
        name ++ '"' :: (includeEnd ++ (ending ++ rest)) := by
      have atPath := List.append_cancel_left (List.append_cancel_left behindGap)
      rw [List.append_assoc name] at atPath
      refine Eq.trans ?_ atPath
      simp only [List.append_assoc]
      rfl
    obtain ⟨rfl, -, behindPath⟩ := Text.append_cons_inj_of_all (unquoted pathQuote) (unquoted nameQuote)
      (by decide) (by decide) regrouped
    have own := eq_includeEnd plain slashes blank ends ended behindPath
    refine ⟨⟨digits, extra, long, decimals, extras, rfl⟩, ?_⟩
    rw [includeTag_append, ← own]
    simp only [List.append_assoc]
    rfl
  · rintro ⟨⟨digits, extra, long, decimals, extras, rfl⟩, rfl⟩
    have rests : after = rest := by
      simp only [List.append_assoc] at text
      exact List.append_cancel_left (List.append_cancel_left (List.append_cancel_left text))
    refine ⟨indent, [' '], digits, extra, includeAttribute, "/".toList, [], ending, ?_, indents,
      ⟨by simp, List.forall_mem_singleton.mpr (by decide)⟩, ⟨long, decimals⟩, extras,
      plain_includeAttribute, .inl rfl, by simp, rests ▸ ended⟩
    rw [includeTag_append, includeEnd]
    simp only [List.append_assoc]
    rfl

/-- Where no include stands, nothing is matched. -/
theorem not_spans_tableInclude {entityClass before line ending rest mid after : Text}
    (absent : ¬ "<include".toList <:+: line) (ended : IsLineEnd ending ∨ ending = [] ∧ rest = [])
    (text : mid ++ after = line ++ (ending ++ rest)) :
    ¬ (tableInclude entityClass).Spans before mid after := by
  intro spans
  obtain ⟨-, indent, gap, digits, extra, attributes, slash, trailing, own, rfl, indents, -⟩ :=
    spans_tableInclude_iff.mp spans
  have front : indent ++ "<include".toList <+: line ++ (ending ++ rest) := by
    rw [← text]
    simp only [List.append_assoc]
    exact (List.prefix_append_right_inj indent).mpr (List.prefix_append _ _)
  have free {c : Char} (visible : isBlankOrTab c = false) (other : c ∉ "<include".toList) :
      c ∉ indent ++ "<include".toList := by
    rw [List.mem_append, not_or]
    exact ⟨fun member => absurd (indents c member) (by simp [visible]), other⟩
  have within : indent ++ "<include".toList <+: line := by
    rcases ended with (rfl | rfl) | ⟨rfl, rfl⟩
    · exact (Text.prefix_append_cons_iff (free (by decide) (by decide))).mp front
    · exact (Text.prefix_append_cons_iff (free (by decide) (by decide))).mp front
    · simpa using front
  exact absent ((List.suffix_append indent _).isInfix.trans within.isInfix)

/-- The removal drops a row that includes a changelog of the table, and keeps any other. -/
theorem eraseAllFrom_row {entityClass before rest : Text} {row : Row} (classQuote : '"' ∉ entityClass)
    (single : '\n' ∉ row.line) (readable : IsReadable row)
    (ended : IsLineEnd row.ending ∨ row.ending = [] ∧ rest = [])
    (atStart : before = [] ∨ before.head? = some '\n') :
    ((tableInclude entityClass).eraseAllFrom 0 before (row.text ++ rest)).1 =
      (if includesTable entityClass row then [] else row.text) ++
        ((tableInclude entityClass).eraseAllFrom 0 (row.text.reverse ++ before) rest).1 := by
  have opens := opensLines_tableInclude entityClass
  have free : '\n' ∉ row.text.dropLast := by
    rw [Row.text]
    rcases ended with (short | long) | ⟨none, -⟩
    · rwa [short, List.dropLast_concat]
    · rw [long, List.dropLast_append_of_ne_nil (by simp)]
      simpa using single
    · rw [none, List.append_nil]
      exact fun member => single (List.dropLast_subset _ member)
  cases included : includedFile? row.line with
  | none =>
    have kept : includesTable entityClass row = false := by rw [includesTable, included]; rfl
    have absent : ¬ "<include".toList <:+: row.line := by
      rcases readable with isSome | absent
      · simp [included] at isSome
      · exact absent
    rw [kept, if_neg Bool.false_ne_true]
    refine opens.eraseAllFrom_line free fun mid after text => not_spans_tableInclude absent ended ?_
    rw [text, Row.text, List.append_assoc]
  | some name =>
    obtain ⟨nameQuote, indent, indents, line⟩ := includedFile?_eq_some_iff.mp included
    have nameFeed : '\n' ∉ name := by
      intro member
      refine single ?_
      rw [line, includeTag_eq]
      simp [member]
    have spelled : row.text = indent ++ (includeTag name ++ row.ending) := by
      rw [Row.text, line, List.append_assoc]
    have spans {mid after : Text} (text : mid ++ after = row.text ++ rest) :=
      @spans_tableInclude_of_includeTag entityClass before _ _ _ _ _ _ classQuote nameQuote nameFeed
        indents ended (text.trans (by rw [spelled, List.append_assoc, List.append_assoc]))
    have same : includesTable entityClass row = isOfTable entityClass name := by
      rw [includesTable, included]
      rfl
    cases ofTable : isOfTable entityClass name with
    | false =>
      rw [same, ofTable, if_neg Bool.false_ne_true]
      refine opens.eraseAllFrom_line free fun mid after text spansHere => ?_
      obtain ⟨-, other, -⟩ := (spans text).mp spansHere
      rw [ofTable] at other
      cases other
    | true =>
      have nonempty : ∀ mid after, (tableInclude entityClass).Spans before mid after → mid ≠ [] := by
        rintro _ after spansHere rfl
        obtain ⟨-, indent, gap, digits, extra, attributes, slash, trailing, own, empty, -⟩ :=
          spans_tableInclude_iff.mp spansHere
        simp at empty
      obtain ⟨best, after, text, spansBest, dropped⟩ := Pattern.exists_eraseAllFrom_of_spans nonempty
        ((spans rfl).mpr ⟨atStart, ofTable, spelled⟩)
      obtain ⟨-, -, covers⟩ := (spans text.symm).mp spansBest
      rw [← spelled] at covers
      subst covers
      rw [same, ofTable, if_pos rfl, dropped, List.nil_append, List.append_cancel_left text]

/-- What the removal of an entity's table includes leaves of rows that can be read. -/
theorem eraseAllFrom_textOf {entityClass : Text} (classQuote : '"' ∉ entityClass) {all : List Row}
    (tied : Tied all) (single : ∀ row ∈ all, '\n' ∉ row.line) (readable : ∀ row ∈ all, IsReadable row)
    {before : Text} (atStart : before = [] ∨ before.head? = some '\n') :
    ((tableInclude entityClass).eraseAllFrom 0 before (textOf all)).1 =
      textOf (all.filter fun row => !includesTable entityClass row) := by
  induction all generalizing before with
  | nil => rfl
  | cons row others ih =>
    obtain ⟨isEnd, inside⟩ := List.pairwise_cons.mp tied.inside
    have ended : IsLineEnd row.ending ∨ row.ending = [] ∧ others = [] := by
      rcases tied.ended row (by simp) with open_ | own
      · refine .inr ⟨open_, List.eq_nil_iff_forall_not_mem.mpr fun next member => ?_⟩
        exact (isEnd next member).ne_nil open_
      · exact .inl own
    have rest : ((tableInclude entityClass).eraseAllFrom 0 (row.text.reverse ++ before)
        (textOf others)).1 = textOf (others.filter fun row => !includesTable entityClass row) := by
      rcases ended with own | ⟨-, rfl⟩
      · refine ih (tied.sublist (List.sublist_cons_self _ _))
          (fun other member => single other (by simp [member]))
          (fun other member => readable other (by simp [member])) (.inr ?_)
        have last : row.text.getLast? = some '\n' := by
          rw [Row.text, List.getLast?_append_of_ne_nil _ own.ne_nil, own.getLast?]
        rw [List.head?_append, List.head?_reverse, last]
        rfl
      · rfl
    have endedText : IsLineEnd row.ending ∨ row.ending = [] ∧ textOf others = [] :=
      ended.imp_right fun last => ⟨last.1, by rw [last.2]; rfl⟩
    have whole : textOf (row :: others) = row.text ++ textOf others := List.flatMap_cons
    rw [whole, eraseAllFrom_row classQuote (single row (by simp)) (readable row (by simp)) endedText
      atStart, rest]
    cases gone : includesTable entityClass row with
    | true => rw [List.filter_cons_of_neg (by simp [gone]), if_pos rfl, List.nil_append]
    | false =>
      rw [List.filter_cons_of_pos (by simp [gone]), if_neg Bool.false_ne_true]
      exact List.flatMap_cons.symm

private theorem text_removeTableIncludes (entityClass master : Text) :
    (removeTableIncludes entityClass master).text =
      ((tableInclude entityClass).eraseAllFrom 0 [] master).1 := by
  unfold removeTableIncludes
  dsimp only
  split
  · rename_i none
    exact (Pattern.eraseAllFrom_of_count_eq_zero [] master none).symm
  · rfl

/-- The removal of an entity's table includes leaves all lines that spell the path of a view's
changelog. -/
theorem pathLines_removeTableIncludes {entityClass view name stamp : Text}
    (classQuote : '"' ∉ entityClass) (stamped : stampOf? view name = some stamp) (master : Text) :
    pathLines name (removeTableIncludes entityClass master).text = pathLines name master := by
  rw [text_removeTableIncludes]
  refine (opensLines_tableInclude entityClass).filter_lines_eraseAllFrom ?_ ?_ rfl ?_ [] master
  · intro before mid after spans
    obtain ⟨-, indent, gap, digits, extra, attributes, slash, trailing, ending, rfl, -⟩ :=
      spans_tableInclude_iff.mp spans
    simp
  · intro before mid after spans
    obtain ⟨-, indent, gap, digits, extra, attributes, slash, trailing, ending, rfl, -, -, -, -, -, -, -, ends⟩ :=
      spans_tableInclude_iff.mp spans
    refine ends.imp (fun isEnd => ?_) And.right
    simp only [← List.append_assoc]
    rw [List.getLast?_append_of_ne_nil _ isEnd.ne_nil, isEnd.getLast?]
  · intro before mid after spans line member
    have same := occurrences_tableInclude classQuote stamped spans
    rw [Text.includes_eq_false_iff]
    intro within
    have more := Text.occurrences_lt_append (by simp [quotedPath])
      (within.trans (Document.isRow_of_mem_lines member).within) after
    omega

/-- The two halves of a table's cleanup agree.  The rows that leave the master are those whose file
is a changelog of the entity's table; every other character stays, and a second removal finds nothing.
The changelogs of another entity are never among them, unless one of the two is called like the
constraints of some entity. -/
theorem table_cleanup_agrees {entityClass master : Text} (classQuote : '"' ∉ entityClass)
    (readable : ∀ row ∈ rows master, IsReadable row) :
    (removeTableIncludes entityClass master).text =
        textOf ((rows master).filter fun row => !includesTable entityClass row) ∧
      (removeTableIncludes entityClass (removeTableIncludes entityClass master).text).text =
        (removeTableIncludes entityClass master).text ∧
      ∀ other digits, other ≠ entityClass → ¬ "constraints_".toList <+: entityClass →
        ¬ "constraints_".toList <+: other → digits.length = 14 →
        isOfTable entityClass (digits ++ tableSuffix other) = false ∧
          isOfTable entityClass (digits ++ constraintsSuffix other) = false := by
  have single : ∀ row ∈ rows master, '\n' ∉ row.line := fun row member =>
    Document.lineFeed_notMem_of_mem_lines (Document.line_mem_lines member)
  have kept : ((rows master).filter fun row => !includesTable entityClass row).Sublist (rows master) :=
    List.filter_sublist
  have once : (removeTableIncludes entityClass master).text =
      textOf ((rows master).filter fun row => !includesTable entityClass row) := by
    have erased := eraseAllFrom_textOf classQuote (Document.tied_rows master) single readable
      (.inl (rfl : [] = []))
    rw [text_removeTableIncludes, ← erased, Document.textOf_rows]
  refine ⟨once, ?_, fun other digits different plain plainOther long =>
    isOfTable_eq_false different plain plainOther long⟩
  rw [once, text_removeTableIncludes, eraseAllFrom_textOf classQuote
    ((Document.tied_rows master).sublist kept) (fun row member => single row (kept.subset member))
    (fun row member => readable row (kept.subset member)) (.inl rfl), List.filter_filter]
  simp only [Bool.and_self]

/-- A master with line ends of both kinds, and with the changelogs of three tables. -/
def tableMaster : Text :=
  "<databaseChangeLog>\n\t".toList ++ includeTag "20240101000000_added_entity_V.xml".toList ++
    "\r\n".toList ++ includeTag "20240101000000_added_entity_VV.xml".toList ++ "\n".toList ++
    includeLine "20240101000000_added_entity_constraints_V.xml".toList

/-- The table `V` leaves with its constraints, although the last row has no line end; `VV` stays. -/
theorem table_cleanup_agrees_in_tableMaster :
    (∀ row ∈ rows tableMaster, IsReadable row) ∧
      (removeTableIncludes "V".toList tableMaster).text = "<databaseChangeLog>\n".toList ++
        includeTag "20240101000000_added_entity_VV.xml".toList ++ "\n".toList ∧
      isOfTable "V".toList "20240101000000_added_entity_VV.xml".toList = false := by
  have readable : ∀ row ∈ rows tableMaster, IsReadable row := by decide +kernel
  obtain ⟨kept, -, apart⟩ := table_cleanup_agrees (by decide : '"' ∉ "V".toList) readable
  refine ⟨readable, kept.trans (by decide +kernel), ?_⟩
  exact (apart "VV".toList "20240101000000".toList (by decide) (by decide) (by decide) (by decide)).1

end Changelog

end ReadOnlyViews
