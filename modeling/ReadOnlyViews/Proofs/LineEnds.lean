import ReadOnlyViews.Proofs.LineMatches
import ReadOnlyViews.Proofs.ReadOnlySources
import ReadOnlyViews.Proofs.Texts

/-! Texts with short line ends, and the same texts with long ones.  The lines are the same and stand
in the same order, and what lies within a line is found in the same line. -/
namespace ReadOnlyViews.Document

/-- The text with a long line end for every line feed. -/
def longEnds (text : Text) : Text := Text.replaceChar '\n' "\r\n" text

/-- The same for characters that are listed backwards. -/
def longEndsBack (before : Text) : Text := Text.replaceChar '\n' "\n\r" before

@[simp] theorem longEnds_nil : longEnds [] = [] := rfl

@[simp] theorem longEnds_lf (rest : Text) :
    longEnds ('\n' :: rest) = '\r' :: '\n' :: longEnds rest := rfl

theorem longEnds_cons {c : Char} (plain : c ≠ '\n') (rest : Text) :
    longEnds (c :: rest) = c :: longEnds rest := by
  simp [longEnds, Text.replaceChar, plain]

theorem longEnds_append (front back : Text) :
    longEnds (front ++ back) = longEnds front ++ longEnds back :=
  List.flatMap_append

private theorem longEnds_of_notMem {text : Text} (free : '\n' ∉ text) : longEnds text = text := by
  induction text with
  | nil => rfl
  | cons c text ih =>
    simp only [List.mem_cons, not_or] at free
    rw [longEnds_cons (Ne.symm free.1), ih free.2]

@[simp] theorem longEnds_eq_nil_iff {text : Text} : longEnds text = [] ↔ text = [] := by
  cases text with
  | nil => simp
  | cons c text =>
    by_cases fed : c = '\n'
    · simp [fed]
    · simp [longEnds_cons fed]

theorem mem_longEnds {c : Char} {text : Text} (member : c ∈ text) : c ∈ longEnds text := by
  refine List.mem_flatMap.mpr ⟨c, member, ?_⟩
  split
  · next fed => simp [fed]
  · simp

theorem eq_or_mem_of_mem_longEnds {c : Char} {text : Text} (member : c ∈ longEnds text) :
    c = '\r' ∨ c ∈ text := by
  obtain ⟨d, inside, new⟩ := List.mem_flatMap.mp member
  split at new
  · next fed =>
    subst fed
    rcases List.mem_cons.mp new with rfl | last
    · exact .inl rfl
    · exact .inr (List.mem_singleton.mp last ▸ inside)
  · exact .inr (List.mem_singleton.mp new ▸ inside)

@[simp] theorem longEndsBack_nil : longEndsBack [] = [] := rfl

@[simp] theorem longEndsBack_lf (before : Text) :
    longEndsBack ('\n' :: before) = '\n' :: '\r' :: longEndsBack before := rfl

theorem longEndsBack_cons {c : Char} (plain : c ≠ '\n') (before : Text) :
    longEndsBack (c :: before) = c :: longEndsBack before := by
  simp [longEndsBack, Text.replaceChar, plain]

theorem reverse_longEnds (text : Text) : (longEnds text).reverse = longEndsBack text.reverse := by
  rw [longEnds, Text.replaceChar, List.reverse_flatMap]
  refine List.flatMap_congr fun c _ => ?_
  by_cases fed : c = '\n' <;> simp [fed]

theorem reverse_longEndsBack (before : Text) :
    (longEndsBack before).reverse = longEnds before.reverse := by
  rw [← List.reverse_reverse before, ← reverse_longEnds, List.reverse_reverse, List.reverse_reverse]

theorem longEndsBack_append (mid before : Text) :
    longEndsBack (mid.reverse ++ before) = (longEnds mid).reverse ++ longEndsBack before := by
  rw [reverse_longEnds]
  exact List.flatMap_append

@[simp] theorem lineFeeds_longEnds (text : Text) :
    Text.lineFeeds (longEnds text) = Text.lineFeeds text := by
  induction text with
  | nil => rfl
  | cons c text ih =>
    rw [Text.lineFeeds] at ih ⊢
    by_cases fed : c = '\n'
    · simp [fed, ih, Text.lineFeeds]
    · simp [longEnds_cons fed, ih, Text.lineFeeds, List.count_cons]

/-- The lines are the same. -/
theorem lines_longEnds {text : Text} (plain : '\r' ∉ text) : lines (longEnds text) = lines text := by
  induction text with
  | nil => rfl
  | cons c text ih =>
    simp only [List.mem_cons, not_or] at plain
    by_cases fed : c = '\n'
    · simp [fed, lines, ih plain.2]
    · have unended : ∀ rest : Text, c = '\r' → rest.head? ≠ some '\n' :=
        fun _ same => absurd same.symm plain.1
      rw [longEnds_cons fed, lines_cons_plain fed (unended _), lines_cons_plain fed (unended _),
        ih plain.2]

private theorem newline_eq_short {text : Text} (plain : '\r' ∉ text) : newline text = "\n".toList := by
  have absent : Text.includes "\r\n" text = false :=
    Text.includes_eq_false_of_notMem (show '\r' ∈ "\r\n".toList by decide) plain
  rw [newline, absent]
  rfl

private theorem newline_longEnds {text : Text} (fed : '\n' ∈ text) : newline (longEnds text) = "\r\n".toList := by
  obtain ⟨front, rest, rfl⟩ := List.append_of_mem fed
  have present : Text.includes "\r\n" (longEnds (front ++ '\n' :: rest)) = true := by
    refine Text.includes_iff.mpr ⟨longEnds front, longEnds rest, ?_⟩
    rw [longEnds_append, longEnds_lf, List.append_assoc]
    rfl
  rw [newline, present]
  rfl

private theorem join_longEnds {changed : List Text} (free : ∀ line ∈ changed, '\n' ∉ line) :
    Text.join "\r\n" changed = longEnds (Text.join "\n" changed) := by
  induction changed with
  | nil => rfl
  | cons line others ih =>
    have line_ := longEnds_of_notMem (free line (by simp))
    cases others with
    | nil => exact line_.symm
    | cons next others =>
      have others_ := ih fun line member => free line (by simp [member])
      rw [Text.join, Text.join, longEnds_append, longEnds_append, line_, ← others_]
      rfl

/-- Changed lines are rendered with the line ends of the text; a text without any has a single line,
and what is rendered of it must not have more. -/
theorem render_longEnds {text : Text} {changed : List Text} (plain : '\r' ∉ text)
    (free : ∀ line ∈ changed, '\n' ∉ line) (fed : '\n' ∈ text ∨ changed.length ≤ 1) :
    render (longEnds text) changed = longEnds (render text changed) := by
  rw [render, render, lines_longEnds plain]
  split
  · rfl
  · rcases fed with fed | short
    · rw [newline_longEnds fed, newline_eq_short plain]
      exact join_longEnds free
    · have joined (ending : Text) : Text.join ending changed = changed.flatten := by
        cases changed with
        | nil => rfl
        | cons line others =>
          obtain rfl : others = [] := by simpa using short
          simp [Text.join]
      rw [joined, joined, longEnds_of_notMem]
      intro member
      obtain ⟨line, inside, feed⟩ := List.mem_flatten.mp member
      exact free line inside feed

theorem plain_of_mem_lines {text line : Text} (plain : '\r' ∉ text) (member : line ∈ lines text) :
    '\r' ∉ line :=
  fun inside => plain ((isRow_of_mem_lines member).within.subset inside)

/-- What is rendered of a text without carriage returns has none, if the new lines have none. -/
theorem plain_render {text : Text} {changed : List Text} (plain : '\r' ∉ text)
    (unreturned : ∀ line ∈ changed, '\r' ∉ line) : '\r' ∉ render text changed := by
  have joined : '\r' ∉ Text.join "\n" changed := by
    induction changed with
    | nil => exact nofun
    | cons line others ih =>
      have first : '\r' ∉ line := unreturned line (by simp)
      cases others with
      | nil => exact first
      | cons next others =>
        have rest := ih fun line member => unreturned line (by simp [member])
        rw [Text.join, List.mem_append, List.mem_append, not_or, not_or]
        exact ⟨⟨first, by decide⟩, rest⟩
  rw [render, newline_eq_short plain]
  split
  · exact plain
  · exact joined

/-- A text that is rendered with as many lines still has line ends. -/
theorem fed_render {text : Text} {changed : List Text} (fed : '\n' ∈ text)
    (many : (lines text).length ≤ changed.length) : '\n' ∈ render text changed := by
  have several : 2 ≤ changed.length := by
    have count := length_lines text
    have feeds : 0 < Text.lineFeeds text := List.count_pos_iff.mpr fed
    omega
  rw [render]
  split
  · exact fed
  · obtain ⟨first, second, others, rfl⟩ : ∃ first second others, changed = first :: second :: others := by
      cases changed with
      | nil => simp at several
      | cons first rest =>
        cases rest with
        | nil => simp at several
        | cons second others => exact ⟨first, second, others, rfl⟩
    have feed : '\n' ∈ newline text := by rcases newline_eq_or text with long | short <;> simp_all
    simp [Text.join, feed]

/-! ## Parts within a line -/

variable {part text : Text}

theorem after?_longEnds (single : part.IsSingleLine) :
    Text.after? part (longEnds text) = (Text.after? part text).map longEnds := by
  induction part generalizing text with
  | nil => rfl
  | cons c part ih =>
    obtain ⟨free, unreturned⟩ := single
    simp only [List.mem_cons, not_or] at free unreturned
    cases text with
    | nil => rfl
    | cons d text =>
      by_cases fed : d = '\n'
      · simp [fed, Text.after?, Ne.symm free.1, Ne.symm unreturned.1]
      · rw [longEnds_cons fed, Text.after?, Text.after?]
        split
        · exact ih ⟨free.2, unreturned.2⟩
        · rfl

private theorem isPrefixOf_longEnds (single : part.IsSingleLine) :
    part.isPrefixOf (longEnds text) = part.isPrefixOf text := by
  have iff (whole : Text) : part.isPrefixOf whole = true ↔ (Text.after? part whole).isSome = true := by
    rw [Text.isPrefixOf_iff, Option.isSome_iff_exists]
    exact exists_congr fun rest => eq_comm.trans Text.after?_eq_some_iff.symm
  rw [Bool.eq_iff_iff, iff, iff, after?_longEnds single, Option.isSome_map]

/-- Nothing but the empty part starts with a half of a line end. -/
private theorem isPrefixOf_half {c d : Char} {part rest : Text} (single : Text.IsSingleLine (c :: part))
    (half : d = '\n' ∨ d = '\r') : List.isPrefixOf (c :: part) (d :: rest) = false := by
  obtain ⟨free, unreturned⟩ := single
  simp only [List.mem_cons, not_or] at free unreturned
  rcases half with rfl | rfl
  · simp [List.isPrefixOf, Ne.symm free.1]
  · simp [List.isPrefixOf, Ne.symm unreturned.1]

theorem includes_longEnds (single : part.IsSingleLine) :
    Text.includes part (longEnds text) = Text.includes part text := by
  cases part with
  | nil =>
    have here (whole : Text) : Text.includes [] whole = true := by cases whole <;> rfl
    rw [here, here]
  | cons first part =>
    induction text with
    | nil => rfl
    | cons c text ih =>
      by_cases fed : c = '\n'
      · rw [fed, longEnds_lf, Text.includes, Text.includes, Text.includes, ih,
          isPrefixOf_half single (.inr rfl), isPrefixOf_half single (.inl rfl),
          isPrefixOf_half single (.inl rfl)]
        rfl
      · rw [longEnds_cons fed, Text.includes, Text.includes, ih, ← longEnds_cons fed,
          isPrefixOf_longEnds single]

/-- The first occurrence is on the same line. -/
theorem offsetOf?_longEnds (single : part.IsSingleLine) :
    (Text.offsetOf? part (longEnds text)).map (lineOf (longEnds text)) =
      (Text.offsetOf? part text).map (lineOf text) := by
  cases part with
  | nil =>
    have here (whole : Text) : Text.offsetOf? [] whole = some 0 := by cases whole <;> rfl
    rw [here, here]
    rfl
  | cons first part =>
    have behind (c : Char) (whole : Text) (found : Option Nat) :
        (found.map (· + 1)).map (lineOf (c :: whole)) =
          (found.map (lineOf whole)).map (· + if c = '\n' then 1 else 0) := by
      cases found with
      | none => rfl
      | some offset => simp [lineOf, Text.lineFeeds, List.count_cons, beq_iff_eq]
    induction text with
    | nil => rfl
    | cons c text ih =>
      by_cases fed : c = '\n'
      · rw [fed, longEnds_lf, Text.offsetOf?, isPrefixOf_half single (.inr rfl), Text.offsetOf?,
          isPrefixOf_half single (.inl rfl), Text.offsetOf?, isPrefixOf_half single (.inl rfl)]
        simp only [Bool.false_eq_true, if_false, behind, ih]
        cases Text.offsetOf? (first :: part) text <;> simp
      · rw [longEnds_cons fed, Text.offsetOf?, Text.offsetOf?, ← longEnds_cons fed,
          isPrefixOf_longEnds single]
        split
        · rfl
        · rw [longEnds_cons fed, behind, behind, ih]

theorem eraseFirst_longEnds (single : part.IsSingleLine) (some_ : part ≠ []) :
    Text.eraseFirst part (longEnds text) = longEnds (Text.eraseFirst part text) := by
  obtain ⟨first, part, rfl⟩ := List.exists_cons_of_ne_nil some_
  obtain ⟨free, unreturned⟩ := id single
  simp only [List.mem_cons, not_or] at free unreturned
  induction text with
  | nil => rfl
  | cons c text ih =>
    by_cases fed : c = '\n'
    · simp [fed, Text.eraseFirst, Text.after?, Ne.symm free.1, Ne.symm unreturned.1, ih]
    · have same := @after?_longEnds _ (c :: text) single
      rw [longEnds_cons fed] at same ⊢
      rw [Text.eraseFirst, Text.eraseFirst, same]
      cases Text.after? (first :: part) (c :: text) with
      | none => simp [ih, longEnds_cons fed]
      | some tail => rfl

end ReadOnlyViews.Document
