import ReadOnlyViews.Java.Removal
import ReadOnlyViews.Proofs.Lines

/-! Comments as the removal of methods sees them, and what a removal leaves outside of them.

The code of a text is its lines outside whole-line comments.  A removal leaves no line in the code
that starts a method it was to remove; and it brings no line of a comment into the code, as long as
no method that it drops leaves a comment open behind itself. -/
namespace ReadOnlyViews.Java

/-! ## The code of a text -/

/-- Whether a block comment is open behind a line, by whether one is open before it. -/
def commentBehind (opened : Bool) (line : Text) : Bool :=
  match opened, Text.after? "/*" (Text.trim line) with
  | true, _ => !Text.includes "*/" (Text.trim line)
  | false, some tail => !Text.includes "*/" tail
  | false, none => false

/-- Whether a line belongs to a comment: to an open one, to one that it opens, or to its own. -/
def isComment (opened : Bool) (line : Text) : Bool :=
  opened || (Text.after? "/*" (Text.trim line)).isSome ||
    List.isPrefixOf "//".toList (Text.trim line)

/-- Whether a block comment is open behind lines. -/
def commentOpen (opened : Bool) (lines : List Text) : Bool := lines.foldl commentBehind opened

/-- The lines outside comments. -/
def codeLines : (opened : Bool) → List Text → List Text
  | _, [] => []
  | opened, line :: more =>
    let behind := codeLines (commentBehind opened line) more
    if isComment opened line then behind else line :: behind

/-- The lines of a text that lie outside comments. -/
def code (text : Text) : List Text := codeLines false (Document.lines text)

@[simp] theorem commentOpen_nil (opened : Bool) : commentOpen opened [] = opened := rfl

@[simp] theorem commentOpen_cons (opened : Bool) (line : Text) (more : List Text) :
    commentOpen opened (line :: more) = commentOpen (commentBehind opened line) more := rfl

theorem codeLines_subset (opened : Bool) (lines : List Text) : codeLines opened lines ⊆ lines := by
  induction lines generalizing opened with
  | nil => exact List.Subset.refl _
  | cons line more ih =>
    rw [codeLines]
    split
    · exact List.subset_cons_of_subset _ (ih _)
    · exact List.cons_subset_cons _ (ih _)

theorem codeLines_append (opened : Bool) (front back : List Text) :
    codeLines opened (front ++ back) =
      codeLines opened front ++ codeLines (commentOpen opened front) back := by
  induction front generalizing opened with
  | nil => rfl
  | cons line front ih =>
    simp only [List.cons_append, codeLines, ih, commentOpen_cons]
    split <;> simp

theorem commentBehind_of_not_isComment {opened : Bool} {line : Text}
    (code : isComment opened line = false) : opened = false ∧ commentBehind opened line = false := by
  simp only [isComment, Bool.or_eq_false_iff] at code
  obtain ⟨⟨rfl, unopened⟩, _⟩ := code
  have none := Option.isSome_eq_false_iff.mp unopened
  exact ⟨rfl, by simp only [commentBehind, Option.isNone_iff_eq_none.mp none]⟩

/-! ## What a removal drops -/

/-- The methods that a removal drops, each with the index of its first line and its lines; the
removal over lines reads `skip`, `opened` and `index` in the same way. -/
def droppedFrom (test : LineTest) :
    (skip : Nat) → (opened : Bool) → (index : Nat) → List Text → List (Nat × List Text)
  | _, _, _, [] => []
  | skip + 1, opened, index, _ :: more => droppedFrom test skip opened (index + 1) more
  | 0, opened, index, line :: more =>
    if isComment opened line || !test line then
      droppedFrom test 0 (commentBehind opened line) (index + 1) more
    else
      match methodLength? (line :: more) with
      | none => []
      | some length =>
        (index, (line :: more).take length) :: droppedFrom test (length - 1) false (index + 1) more

/-- The methods that a removal drops from a text. -/
def dropped (test : LineTest) (text : Text) : List (Nat × List Text) :=
  droppedFrom test 0 false 0 (Document.lines text)

/-- Whether every method that a removal drops closes the block comments that it opens. -/
def dropsClosed (test : LineTest) (text : Text) : Bool :=
  (dropped test text).all fun (_, lines) => !commentOpen false lines

/-- One line of a removal: it is kept, or starts a method that is dropped or never closes. -/
theorem removeFrom_cons (test : LineTest) (opened : Bool) (index : Nat) (line : Text)
    (more : List Text) :
    removeFrom test 0 opened index (line :: more) =
      if isComment opened line || !test line then
        (removeFrom test 0 (commentBehind opened line) (index + 1) more).keep line
      else
        match methodLength? (line :: more) with
        | none => ⟨line :: more, 0, some index⟩
        | some length =>
          let rest := removeFrom test (length - 1) false (index + 1) more
          { rest with removed := rest.removed + 1 } := by
  cases opened with
  | true => simp [removeFrom, isComment, commentBehind]
  | false =>
    simp only [removeFrom, isComment, commentBehind, Bool.false_or]
    cases Text.after? "/*" (Text.trim line) with
    | some tail => simp
    | none => rfl

theorem bodyLines?_pos {depth length : Nat} {inComment : Bool} {lines : List Text}
    (body : bodyLines? depth inComment lines = some length) : 0 < length := by
  fun_cases bodyLines? depth inComment lines <;> simp_all [bodyLines?] <;> omega

private theorem methodLength?_pos {length : Nat} {lines : List Text}
    (method : methodLength? lines = some length) : 0 < length := by
  obtain ⟨body, found, rfl⟩ := Option.map_eq_some_iff.mp method
  have := bodyLines?_pos found
  omega

/-! ## What a removal leaves -/

section Removal

variable (test : LineTest) (skip : Nat) (opened : Bool) (index : Nat) (lines : List Text)

/-- What is kept is what was there, without the lines that were dropped. -/
theorem kept_sublist : (removeFrom test skip opened index lines).kept.Sublist (lines.drop skip) := by
  induction lines generalizing skip opened index with
  | nil => simp [removeFrom]
  | cons line more ih =>
    cases skip with
    | succ skip => simpa [removeFrom] using ih skip opened (index + 1)
    | zero =>
      rw [removeFrom_cons, List.drop_zero]
      split
      · exact (ih 0 (commentBehind opened line) (index + 1)).cons_cons line
      · split
        · exact List.Sublist.refl _
        · next length _ =>
          refine ((ih (length - 1) false (index + 1)).trans ?_).cons line
          exact List.drop_sublist _ _

/-- A removal that drops no method keeps every line. -/
theorem kept_eq_of_removed_eq_zero (none : (removeFrom test 0 opened index lines).removed = 0) :
    (removeFrom test 0 opened index lines).kept = lines := by
  induction lines generalizing opened index with
  | nil => rfl
  | cons line more ih =>
    rw [removeFrom_cons] at none ⊢
    split
    · next keeps =>
      rw [if_pos keeps] at none
      exact congrArg (line :: ·) (ih _ _ none)
    · next starts =>
      rw [if_neg starts] at none
      split
      · rfl
      · next found => simp [found] at none

/-- A removal that does not get stuck leaves no line in the code that passes its test. -/
theorem test_eq_false_of_mem_codeLines_kept {line : Text}
    (ended : (removeFrom test skip opened index lines).stuckAt = none)
    (member : line ∈ codeLines opened (removeFrom test skip opened index lines).kept) :
    test line = false := by
  induction lines generalizing skip opened index with
  | nil => simp [removeFrom, codeLines] at member
  | cons first more ih =>
    cases skip with
    | succ skip => exact ih skip opened (index + 1) ended member
    | zero =>
      rw [removeFrom_cons] at ended member
      split at ended
      · next keeps =>
        rw [if_pos keeps] at member
        simp only [Removal.keep, codeLines] at member
        split at member
        · exact ih _ _ _ ended member
        · next plain =>
          obtain rfl | later := List.mem_cons.mp member
          · simpa [plain] using keeps
          · exact ih _ _ _ ended later
      · next starts =>
        rw [if_neg starts] at member
        -- The first line of a method lies outside comments, so the scan goes on outside of them.
        have outside : opened = false := by
          simp only [Bool.or_eq_true, not_or, Bool.not_eq_true] at starts
          exact (commentBehind_of_not_isComment starts.1).1
        subst outside
        split at ended
        · cases ended
        · next length found =>
          rw [found] at member
          exact ih _ _ _ ended member

/-- A removal whose methods close their comments brings no line of a comment into the code. -/
theorem codeLines_kept_subset
    (closed : ∀ method ∈ droppedFrom test skip opened index lines, commentOpen false method.2 = false) :
    codeLines opened (removeFrom test skip opened index lines).kept ⊆
      codeLines opened (lines.drop skip) := by
  induction lines generalizing skip opened index with
  | nil => simp [removeFrom, codeLines]
  | cons first more ih =>
    cases skip with
    | succ skip => exact ih skip opened (index + 1) closed
    | zero =>
      rw [droppedFrom] at closed
      rw [removeFrom_cons, List.drop_zero]
      split
      · next keeps =>
        rw [if_pos keeps] at closed
        have later := ih 0 (commentBehind opened first) (index + 1) closed
        simp only [Removal.keep, codeLines]
        split
        · exact later
        · exact List.cons_subset_cons first later
      · next starts =>
        rw [if_neg starts] at closed
        split
        · exact fun _ member => member
        · next length found =>
          simp only [found, List.mem_cons, forall_eq_or_imp] at closed
          have outside : opened = false := by
            simp only [Bool.or_eq_true, not_or, Bool.not_eq_true] at starts
            exact (commentBehind_of_not_isComment starts.1).1
          subst outside
          have behind : (first :: more).drop length = more.drop (length - 1) := by
            obtain ⟨less, rfl⟩ := Nat.exists_eq_add_one.mpr (methodLength?_pos found)
            rfl
          have whole := codeLines_append false ((first :: more).take length)
            ((first :: more).drop length)
          rw [List.take_append_drop, closed.1, behind] at whole
          rw [whole]
          exact List.Subset.trans (ih _ _ _ closed.2) (List.subset_append_right _ _)

end Removal

/-! ## Removals of texts -/

/-- Nothing in the code of a text passes the test. -/
def FreeOf (test : LineTest) (text : Text) : Prop := ∀ line ∈ code text, test line = false

/-- The code after an edit consists of lines of the code before it, and of empty lines. -/
def CodeWithin (before after : Text) : Prop := ∀ line ∈ code after, line = [] ∨ line ∈ code before

theorem CodeWithin.refl (text : Text) : CodeWithin text text := fun _ member => .inr member

theorem CodeWithin.trans {first second third : Text} (front : CodeWithin first second)
    (back : CodeWithin second third) : CodeWithin first third := by
  intro line member
  obtain empty | earlier := back line member
  · exact .inl empty
  · exact front line earlier

/-- An edit that uncovers nothing keeps a text free of what it was free of. -/
theorem FreeOf.mono {test : LineTest} {before after : Text} (free : FreeOf test before)
    (blank : test [] = false) (within : CodeWithin before after) : FreeOf test after := by
  intro line member
  obtain rfl | earlier := within line member
  · exact blank
  · exact free line earlier

theorem removeMethods_text (test : LineTest) (text : Text) :
    (removeMethods test text).text =
      Document.render text (removeFrom test 0 false 0 (Document.lines text)).kept := by
  simp only [removeMethods]
  split
  · rfl
  · split
    · next none => rw [kept_eq_of_removed_eq_zero _ _ _ _ none, Document.render_lines]
    · rfl

private theorem stuckAt_eq_none_of_outcome_ne_failed {test : LineTest} {text : Text}
    (fine : (removeMethods test text).outcome ≠ .failed) :
    (removeFrom test 0 false 0 (Document.lines text)).stuckAt = none := by
  simp only [removeMethods] at fine
  split at fine
  · exact absurd rfl fine
  · assumption

/-- The code of a text that was cut down to some of its lines is the code of these lines. -/
private theorem mem_codeLines_of_mem_code_render {text line : Text} {kept : List Text}
    (sub : kept.Sublist (Document.lines text)) (member : line ∈ code (Document.render text kept)) :
    line = [] ∨ line ∈ codeLines false kept := by
  by_cases empty : kept = []
  · rw [code, empty, Document.lines_render_nil] at member
    exact .inl (List.mem_singleton.mp (codeLines_subset _ _ member))
  · rw [code, ((Document.separable_lines text).of_sublist sub).lines_render empty] at member
    exact .inr member

/-- A removal that does not fail leaves a text free of the methods that it removes. -/
theorem freeOf_removeMethods {test : LineTest} {text : Text} (blank : test [] = false)
    (fine : (removeMethods test text).outcome ≠ .failed) :
    FreeOf test (removeMethods test text).text := by
  intro line member
  rw [removeMethods_text] at member
  obtain rfl | kept := mem_codeLines_of_mem_code_render (kept_sublist _ 0 _ _ _) member
  · exact blank
  · exact test_eq_false_of_mem_codeLines_kept _ _ _ _ _ (stuckAt_eq_none_of_outcome_ne_failed fine) kept

/-- A removal whose methods close their comments uncovers nothing. -/
theorem codeWithin_removeMethods {test : LineTest} {text : Text} (closed : dropsClosed test text = true) :
    CodeWithin text (removeMethods test text).text := by
  have each (method) (member : method ∈ dropped test text) : commentOpen false method.2 = false := by
    simpa using List.all_eq_true.mp closed method member
  intro line member
  rw [removeMethods_text] at member
  refine (mem_codeLines_of_mem_code_render (kept_sublist _ 0 _ _ _) member).imp_right fun kept => ?_
  exact codeLines_kept_subset _ _ _ _ _ each kept

end ReadOnlyViews.Java
