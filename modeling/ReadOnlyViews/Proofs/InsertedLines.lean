import ReadOnlyViews.Proofs.Registrations
import ReadOnlyViews.Proofs.RepeatedSteps
import ReadOnlyViews.Proofs.Rows

/-!
Where new lines go, and that they go there once.  A block of lines is put next to the line that holds
the anchor, before or behind it, and no other line of the text changes.  The offset of a match counts
characters and the place of the block counts lines; both are related through the rows of the text.  A
literal witness that one of the lines spells is found again, so a second insertion is skipped.
-/

namespace ReadOnlyViews

/-- Where a part of a text stands for the first time. -/
structure Text.FirstAt (part text : Text) (offset : Nat) : Prop where
  here : part <+: text.drop offset
  first : ∀ earlier < offset, ¬ part <+: text.drop earlier

private theorem Text.firstAt_of_offsetOf? {part text : Text} {offset : Nat}
    (found : offsetOf? part text = some offset) : FirstAt part text offset := by
  induction text generalizing offset with
  | nil =>
    rw [offsetOf?] at found
    split at found
    · next empty =>
      obtain rfl := Option.some.inj found
      exact ⟨by simp [List.isEmpty_iff.mp empty], fun _ before => absurd before (Nat.not_lt_zero _)⟩
    · cases found
  | cons c text ih =>
    rw [offsetOf?] at found
    split at found
    · next starts =>
      obtain rfl := Option.some.inj found
      exact ⟨isPrefixOf_iff.mp starts, fun _ before => absurd before (Nat.not_lt_zero _)⟩
    · next later =>
      obtain ⟨less, further, rfl⟩ := Option.map_eq_some_iff.mp found
      obtain ⟨here, first⟩ := ih further
      refine ⟨here, fun earlier before => ?_⟩
      cases earlier with
      | zero => exact fun starts => later (isPrefixOf_iff.mpr starts)
      | succ earlier => exact first earlier (by omega)

namespace Document

/-! ## The line that holds an offset -/

/-- A row of a text, given by its number, holds an offset: it starts there or before, and the next row
starts behind, unless the row is the last one. -/
structure Holds (text : Text) (offset line : Nat) : Prop where
  inside : line < (rows text).length
  starts : (textOf ((rows text).take line)).length ≤ offset
  ends : line + 1 = (rows text).length ∨ offset < (textOf ((rows text).take (line + 1))).length

/-- A line end has its line feed at its end. -/
theorem lineFeeds_take_of_lt {line ending : Text} (free : '\n' ∉ line) (isEnd : IsLineEnd ending)
    {offset : Nat} (before : offset < (line ++ ending).length) (rest : Text) :
    Text.lineFeeds ((line ++ (ending ++ rest)).take offset) = 0 := by
  have front : (line ++ (ending ++ rest)).take offset <+: (line ++ ending).dropLast := by
    rw [← List.append_assoc, List.take_append_of_le_length (by omega), List.dropLast_eq_take]
    exact List.take_prefix_take_left (by omega)
  refine List.count_eq_zero.mpr fun member => ?_
  have inside := front.subset member
  rw [List.dropLast_append_of_ne_nil isEnd.ne_nil, List.mem_append] at inside
  rcases inside with inLine | inEnding
  · exact free inLine
  · rcases isEnd with rfl | rfl <;> simp at inEnding

private theorem lineFeeds_of_isLineEnd {line ending : Text} (free : '\n' ∉ line) (isEnd : IsLineEnd ending) :
    Text.lineFeeds (line ++ ending) = 1 := by
  rw [Text.lineFeeds, List.count_append, List.count_eq_zero.mpr free]
  rcases isEnd with rfl | rfl <;> rfl

/-- The number of line feeds before an offset is the number of the row that holds it. -/
theorem holds_lineOf (text : Text) (offset : Nat) : Holds text offset (lineOf text offset) := by
  induction text using rows_induction generalizing offset with
  | last text cut cutLines =>
    have free : '\n' ∉ text := lineFeed_notMem_of_mem_lines (by rw [cutLines]; simp)
    have first : lineOf text offset = 0 :=
      List.count_eq_zero.mpr fun member => free (List.mem_of_mem_take member)
    rw [first]
    exact ⟨by simp [cut], by simp, .inl (by simp [cut])⟩
  | ahead line ending rest isEnd cut cutLines ih =>
    have free : '\n' ∉ line := lineFeed_notMem_of_mem_lines (by rw [cutLines]; simp)
    by_cases before : offset < (line ++ ending).length
    · rw [lineOf, lineFeeds_take_of_lt free isEnd before]
      exact ⟨by simp [cut], by simp, .inr (by simpa [cut] using before)⟩
    · -- The first row ends here or before, so one line feed is passed and the rest is counted alike.
      obtain ⟨further, rfl⟩ := Nat.exists_eq_add_of_le (Nat.le_of_not_lt before)
      have count : lineOf (line ++ (ending ++ rest)) ((line ++ ending).length + further) =
          lineOf rest further + 1 := by
        rw [lineOf, ← List.append_assoc, List.take_length_add_append, Text.lineFeeds, List.count_append,
          Nat.add_comm, ← Text.lineFeeds, ← Text.lineFeeds, lineFeeds_of_isLineEnd free isEnd, lineOf]
      obtain ⟨inside, starts, ends⟩ := ih further
      rw [count]
      refine ⟨by simpa [cut] using inside, ?_, ?_⟩
      · simp only [cut, List.take_succ_cons, textOf_cons, List.length_append] at starts ⊢
        omega
      · simp only [cut, List.take_succ_cons, textOf_cons, List.length_append, List.length_cons] at ends ⊢
        omega

/-! ## Texts without lone carriage returns -/

/-- Every carriage return of a text is followed by a line feed. -/
def PairsReturns (text : Text) : Prop :=
  ∀ n < text.length, text[n]? = some '\r' → text[n + 1]? = some '\n'

instance (text : Text) : Decidable (PairsReturns text) :=
  inferInstanceAs (Decidable (∀ n < text.length, text[n]? = some '\r' → text[n + 1]? = some '\n'))

theorem PairsReturns.next {front rest : Text} (pairs : PairsReturns (front ++ '\r' :: rest)) :
    rest.head? = some '\n' := by
  have next := pairs front.length (by simp) (by simp)
  rwa [List.getElem?_append_right (by omega), Nat.add_sub_cancel_left, List.getElem?_cons_succ,
    ← List.head?_eq_getElem?] at next

private theorem PairsReturns.of_append {front rest : Text} (pairs : PairsReturns (front ++ rest)) :
    PairsReturns rest := by
  intro n inside returned
  have here : (front ++ rest)[front.length + n]? = some '\r' := by
    rwa [List.getElem?_append_right (by omega), Nat.add_sub_cancel_left]
  have next := pairs (front.length + n) (by simp [inside]) here
  rwa [Nat.add_assoc, List.getElem?_append_right (by omega), Nat.add_sub_cancel_left] at next

private theorem return_notMem_of_mem_lines {text line : Text} (pairs : PairsReturns text)
    (member : line ∈ lines text) : '\r' ∉ line := by
  induction text using rows_induction with
  | last text cut cutLines =>
    obtain rfl : line = text := by simpa [cutLines] using member
    intro inside
    obtain ⟨front, back, rfl⟩ := List.append_of_mem inside
    have fed : '\n' ∈ back := List.mem_of_head? pairs.next
    exact lineFeed_notMem_of_mem_lines member (by simp [fed])
  | ahead first ending rest isEnd cut cutLines ih =>
    have free : '\n' ∉ first := lineFeed_notMem_of_mem_lines (by rw [cutLines]; simp)
    rw [cutLines] at member
    rcases List.mem_cons.mp member with rfl | later
    · intro inside
      obtain ⟨front, back, rfl⟩ := List.append_of_mem inside
      rw [List.append_assoc, List.cons_append] at pairs
      have next := pairs.next
      cases back with
      | cons c back =>
        obtain rfl : c = '\n' := by simpa using next
        exact free (by simp)
      | nil =>
        -- A return right before a line feed belongs to the line end, not to the line.
        obtain ⟨tail, behind⟩ := List.head?_eq_some_iff.mp next
        have freeFront : '\n' ∉ front := fun fed => free (by simp [fed])
        have shorter := lines_append_crlf freeFront tail
        rw [← behind] at shorter
        simp only [List.append_assoc, List.singleton_append, List.nil_append] at shorter cutLines
        have same := (List.cons.inj (shorter.symm.trans cutLines)).1
        simp at same
    · exact ih pairs.of_append.of_append later

/-- Lines without line ends are separable, whatever text they are rendered for. -/
theorem separable_of_singleLine (text : Text) {changed : List Text}
    (single : ∀ line ∈ changed, line.IsSingleLine) : Separable text changed where
  free line member := (single line member).1
  unended _ line member last :=
    (single line (List.dropLast_subset _ member)).2 (List.mem_of_getLast? last)

/-- A block without line ends is put between the lines of a text, which stay as they were. -/
theorem lines_render_insertAt {text : Text} (pairs : PairsReturns text) {block : List Text}
    (single : ∀ new ∈ block, new.IsSingleLine) (position : Nat) :
    lines (render text (insertAt position block (lines text))) = insertAt position block (lines text) := by
  refine (separable_of_singleLine text fun line member => ?_).lines_render ?_
  · rcases mem_insertAt.mp member with new | old
    · exact single line new
    · exact ⟨lineFeed_notMem_of_mem_lines old, return_notMem_of_mem_lines pairs old⟩
  · obtain ⟨line, others, cut⟩ := List.exists_cons_of_ne_nil (lines_ne_nil text)
    exact List.ne_nil_of_mem (mem_insertAt.mpr (.inr (cut ▸ List.mem_cons_self)))

end Document

open Document (Holds PairsReturns insertAt lines)

/-! ## Insertions at an anchor -/

/-- The first match of an anchor's target in a text. -/
def Anchor.match? (anchor : Anchor) (text : Text) : Option Stretch :=
  Probe.find? { lead := anchor.lead, target := anchor.target } text

/-- The offset whose line the new lines go next to: where the target starts, or its last character. -/
def Anchor.offsetIn (anchor : Anchor) (found : Stretch) : Nat :=
  match anchor.side with
  | .before => found.start.offset
  | .after => max found.start.offset (found.stop.offset - 1)

/-- The place of new lines next to a line. -/
def Side.position (line : Nat) : Side → Nat
  | .before => line
  | .after => line + 1

/-- New lines behind the white space that a line starts with; empty ones stay empty. -/
def indentedAs (line : Text) (insertion : List Text) : List Text :=
  insertion.map fun new => if new.isEmpty then new else Text.indentation line ++ new

private theorem Anchor.place?_eq (anchor : Anchor) (text : Text) :
    anchor.place? text = (anchor.match? text).map fun found =>
      (Document.lineOf text (anchor.offsetIn found),
        anchor.side.position (Document.lineOf text (anchor.offsetIn found))) := by
  obtain ⟨lead, target, side⟩ := anchor
  cases side <;> rfl

/-- Lines are put in at the first anchor that matches: the block stands next to the line that holds
the match, with the white space of that line in front of its lines. -/
def InsertsAtAnchor (text : Text) (insertion : List Text) (anchors : List Anchor) (result : Text) : Prop :=
  ∃ before anchor behind found line,
    anchors = before ++ anchor :: behind ∧ (∀ earlier ∈ before, earlier.match? text = none) ∧
      anchor.match? text = some found ∧ Holds text (anchor.offsetIn found) line ∧
      lines result = insertAt (anchor.side.position line)
        (indentedAs ((lines text).getD line []) insertion) (lines text)

/-- Lines are put in at the first anchor that stands in the text: the block stands before the line that
holds the start of the anchor. -/
def SplicesAtAnchor (text : Text) (block anchors : List Text) (result : Text) : Prop :=
  ∃ before anchor behind offset line,
    anchors = before ++ anchor :: behind ∧ (∀ earlier ∈ before, ¬ earlier <:+: text) ∧
      Text.FirstAt anchor text offset ∧ Holds text offset line ∧
      lines result = insertAt line block (lines text)

private theorem Text.isSingleLine_of_mem_indentedAs {line : Text} (unended : '\n' ∉ line)
    (unreturned : '\r' ∉ line) {insertion : List Text} (single : ∀ new ∈ insertion, new.IsSingleLine) :
    ∀ new ∈ indentedAs line insertion, new.IsSingleLine := by
  intro new member
  obtain ⟨given, inside, rfl⟩ := List.mem_map.mp member
  obtain ⟨free, plain⟩ := single given inside
  split
  · exact ⟨free, plain⟩
  · constructor
    · rw [List.mem_append, not_or]
      exact ⟨fun fed => unended (Text.mem_of_mem_indentation fed), free⟩
    · rw [List.mem_append, not_or]
      exact ⟨fun returned => unreturned (Text.mem_of_mem_indentation returned), plain⟩

/-- What a splice comes to. -/
theorem splice_cases (fragment : Fragment) (anchors : List Text) (text : Text) :
    (fragment.witness.presentIn text = true ∧
      splice fragment anchors text = { outcome := .alreadyPresent, text }) ∨
    fragment.witness.presentIn text = false ∧ (splice fragment anchors text).outcome = .applied ∧
      ((∃ offset, anchors.findSome? (Text.offsetOf? · text) = some offset ∧
          (splice fragment anchors text).text = Document.render text (insertAt (Document.lineOf text offset)
            (fragment.lines ++ if fragment.blankAfter then [[]] else []) (lines text))) ∨
        anchors.findSome? (Text.offsetOf? · text) = none ∧
          ∃ kept, (splice fragment anchors text).text =
            Document.render text (kept ++ [[]] ++ fragment.lines ++ [[]])) := by
  cases present : fragment.witness.presentIn text with
  | true => exact .inl ⟨rfl, by rw [splice, if_pos present]⟩
  | false =>
    rw [splice, present, if_neg Bool.false_ne_true]
    cases found : anchors.findSome? (Text.offsetOf? · text) with
    | some offset => exact .inr ⟨rfl, rfl, .inl ⟨offset, rfl, rfl⟩⟩
    | none => exact .inr ⟨rfl, rfl, .inr ⟨rfl, _, rfl⟩⟩

section Insertions

variable {text part : Text} {insertion : List Text} (pairs : PairsReturns text)
  (single : ∀ new ∈ insertion, new.IsSingleLine)

include pairs single

private theorem insertsAtAnchor_of_applied {witness : Witness} {anchors : List Anchor} {required : Bool}
    {edit : Edit} (ran : insertOnce witness insertion anchors required text = .ok edit)
    (applied : edit.outcome = .applied) : InsertsAtAnchor text insertion anchors edit.text := by
  rcases insertOnce_cases ran with ⟨-, skipped, -⟩ | ⟨line, position, -, placed, -, made⟩ | ⟨-, -, skipped, -⟩
  · cases applied.symm.trans skipped
  · obtain ⟨before, anchor, behind, rfl, here, none⟩ := List.findSome?_eq_some_iff.mp placed
    rw [Anchor.place?_eq] at here
    obtain ⟨found, first, same⟩ := Option.map_eq_some_iff.mp here
    obtain ⟨rfl, rfl⟩ := Prod.mk.inj same
    refine ⟨before, anchor, behind, found, _, rfl, fun earlier member => ?_, first,
      Document.holds_lineOf _ _, ?_⟩
    · have unplaced := none earlier member
      rwa [Anchor.place?_eq, Option.map_eq_none_iff] at unplaced
    · have member : (lines text).getD (Document.lineOf text (anchor.offsetIn found)) [] ∈ lines text := by
        have inside := Document.lineOf_lt text (anchor.offsetIn found)
        rw [List.getD_eq_getElem?_getD, List.getElem?_eq_getElem inside, Option.getD_some]
        exact List.getElem_mem inside
      rw [made]
      exact Document.lines_render_insertAt pairs (Text.isSingleLine_of_mem_indentedAs
        (Document.lineFeed_notMem_of_mem_lines member)
        (Document.return_notMem_of_mem_lines pairs member) single) _
  · cases applied.symm.trans skipped

private theorem splicesAtAnchor_of_applied {witness : Witness} {blankAfter : Bool} {anchors : List Text}
    (applied : (splice ⟨insertion, witness, blankAfter⟩ anchors text).outcome = .applied)
    (anchored : ∃ anchor ∈ anchors, anchor <:+: text) :
    SplicesAtAnchor text (insertion ++ if blankAfter then [[]] else []) anchors
      (splice ⟨insertion, witness, blankAfter⟩ anchors text).text := by
  rcases splice_cases ⟨insertion, witness, blankAfter⟩ anchors text with
    ⟨-, skipped⟩ | ⟨-, -, ⟨offset, found, made⟩ | ⟨none, -⟩⟩
  · rw [skipped] at applied
    cases applied
  · obtain ⟨before, anchor, behind, rfl, here, earlierNone⟩ := List.findSome?_eq_some_iff.mp found
    refine ⟨before, anchor, behind, offset, _, rfl, fun earlier member within => ?_,
      Text.firstAt_of_offsetOf? here, Document.holds_lineOf _ _, ?_⟩
    · obtain ⟨other, stands⟩ := Text.exists_offsetOf? within
      rw [earlierNone earlier member] at stands
      cases stands
    · rw [made]
      refine Document.lines_render_insertAt pairs (fun new member => ?_) _
      rcases List.mem_append.mp member with given | blank
      · exact single new given
      · obtain rfl : new = [] := by
          split at blank
          · exact List.mem_singleton.mp blank
          · cases blank
        exact ⟨List.not_mem_nil, List.not_mem_nil⟩
  · obtain ⟨anchor, member, within⟩ := anchored
    obtain ⟨offset, stands⟩ := Text.exists_offsetOf? within
    rw [List.findSome?_eq_none_iff.mp none anchor member] at stands
    cases stands

end Insertions

/-! ## Insertions that are repeated -/

section Repeated

variable {text part : Text} {insertion : List Text} (spelled : ∃ new ∈ insertion, part <:+: new)

include spelled

private theorem includes_of_insertOnce_applied {witness : Witness} {anchors : List Anchor} {required : Bool}
    {edit : Edit} (ran : insertOnce witness insertion anchors required text = .ok edit)
    (applied : edit.outcome = .applied) : Text.includes part edit.text = true := by
  obtain ⟨new, member, inside⟩ := spelled
  by_cases empty : new = []
  · rw [empty, List.infix_nil] at inside
    rw [inside]
    exact Text.includes_iff.mpr List.nil_infix
  · exact includes_of_applied ran applied member inside empty

private theorem includes_splice {blankAfter : Bool} (anchors : List Text) :
    Text.includes part (splice ⟨insertion, .literal part, blankAfter⟩ anchors text).text = true := by
  obtain ⟨new, member, inside⟩ := spelled
  have rendered {changed : List Text} (among : new ∈ changed) :
      Text.includes part (Document.render text changed) = true :=
    Text.includes_iff.mpr (inside.trans (Document.isRow_of_mem_render among).within)
  rcases splice_cases ⟨insertion, .literal part, blankAfter⟩ anchors text with
    ⟨present, skipped⟩ | ⟨-, -, ⟨offset, -, made⟩ | ⟨-, kept, made⟩⟩
  · rw [skipped]
    exact present
  · rw [made]
    exact rendered (mem_insertAt.mpr (.inl (List.mem_append_left _ member)))
  · rw [made]
    exact rendered (by simp [member])

end Repeated

/-- Lines are inserted once, and at one border between lines.  Let every carriage return of a text
belong to a line end, and let the witness be spelled within one of the new lines.  Then a second
insertion, and a second splice, leaves the text that the first one made, and is skipped if the first one
was applied.  What the first one did at an anchor is told by the lines: those of the text with the block
before the line that holds the start of the anchor, or behind the one that holds its end. -/
theorem lines_inserted_once {text part : Text} {insertion : List Text} (pairs : PairsReturns text)
    (single : ∀ new ∈ insertion, new.IsSingleLine) (spelled : ∃ new ∈ insertion, part <:+: new) :
    (∀ anchors required edit, insertOnce (.literal part) insertion anchors required text = .ok edit →
      (∃ again, insertOnce (.literal part) insertion anchors required edit.text = .ok again ∧
        again.text = edit.text ∧ (edit.outcome = .applied → again.outcome = .alreadyPresent)) ∧
      (edit.outcome = .applied → InsertsAtAnchor text insertion anchors edit.text)) ∧
    ∀ anchors blankAfter,
      let fragment : Fragment := { lines := insertion, witness := .literal part, blankAfter }
      let edit := splice fragment anchors text
      splice fragment anchors edit.text = { outcome := .alreadyPresent, text := edit.text } ∧
        (edit.outcome = .applied → (∃ anchor ∈ anchors, anchor <:+: text) →
          SplicesAtAnchor text (insertion ++ if blankAfter then [[]] else []) anchors edit.text) := by
  constructor
  · intro anchors required edit ran
    refine ⟨?_, insertsAtAnchor_of_applied pairs single ran⟩
    by_cases applied : edit.outcome = .applied
    · exact ⟨{ outcome := .alreadyPresent, text := edit.text },
        if_pos (includes_of_insertOnce_applied spelled ran applied), rfl, fun _ => rfl⟩
    · obtain ⟨again, leaves, same⟩ := leaves_insertOnce_again ran fun happened => absurd happened applied
      exact ⟨again, leaves, same, fun happened => absurd happened applied⟩
  · intro anchors blankAfter fragment edit
    exact ⟨if_pos (includes_splice spelled anchors), splicesAtAnchor_of_applied pairs single⟩

/-- A source with an annotation that is indented. -/
def indentedSource : Text := "package a;\r\n  @Entity\r\nclass A".toList

/-- Anchors of which only the second and the third stand in the source. -/
def sourceAnchors : List Anchor :=
  [.ofLiteral .lineStart "import" true .before, .ofLiteral .blanks "@Entity" true .after,
    .ofLiteral .lineStart "class" true .before]

theorem lines_inserted_once_in_indentedSource :
    PairsReturns indentedSource ∧
      insertOnce (.literal "@Immut".toList) ["@Immutable".toList, []] sourceAnchors true indentedSource =
        .ok { outcome := .applied,
              text := "package a;\r\n  @Entity\r\n  @Immutable\r\n\r\nclass A".toList } ∧
      InsertsAtAnchor indentedSource ["@Immutable".toList, []] sourceAnchors
        "package a;\r\n  @Entity\r\n  @Immutable\r\n\r\nclass A".toList ∧
      SplicesAtAnchor indentedSource ["@Immutable".toList, [], []] ["@Table".toList, "Entity".toList]
        (splice ⟨["@Immutable".toList, []], .literal "@Immut".toList, true⟩
          ["@Table".toList, "Entity".toList] indentedSource).text := by
  have pairs : PairsReturns indentedSource := by decide +kernel
  have single : ∀ new ∈ ["@Immutable".toList, []], Text.IsSingleLine new := by
    unfold Text.IsSingleLine
    decide +kernel
  have spelled : "@Immut".toList <:+: "@Immutable".toList := Text.includes_iff.mp (by decide +kernel)
  obtain ⟨inserts, splices⟩ := lines_inserted_once pairs single ⟨_, List.mem_cons_self, spelled⟩
  have ran : insertOnce (.literal "@Immut".toList) ["@Immutable".toList, []] sourceAnchors true indentedSource =
      .ok { outcome := .applied,
            text := "package a;\r\n  @Entity\r\n  @Immutable\r\n\r\nclass A".toList } := by decide +kernel
  refine ⟨pairs, ran, (inserts _ _ _ ran).2 rfl, (splices _ true).2 (by decide +kernel) ⟨"Entity".toList, by simp, ?_⟩⟩
  exact Text.includes_iff.mp (by decide +kernel)

end ReadOnlyViews
