import Mathlib.Data.List.Infix
import ReadOnlyViews.Proofs.Comments

/-!
How far a method reaches.  The braces of its body are counted in one pass over lines; here the pass
is compared with a statement about the characters that are read.  Read from the line on which the
first brace stands, block comments left out, they bring the depth back to zero for the first time on
the last line of the method.
-/

namespace ReadOnlyViews.Java

/-! ## The depth of what was read -/

/-- The depth behind characters that were read: opening braces less closing ones, counted from the
first opening brace on. -/
def depthBehind (read : Text) : Int :=
  let counted := read.dropWhile (· != '\x7b')
  (counted.count '\x7b' : Int) - counted.count '\x7d'

/-- Whether the depth returns to zero while the characters are read. -/
def ReturnsToZero (read : Text) : Prop :=
  ∃ front, front <+: read ∧ '\x7b' ∈ front ∧ depthBehind front = 0

private theorem not_returnsToZero_nil : ¬ ReturnsToZero [] := by
  rintro ⟨front, within, inside, _⟩
  simp [List.prefix_nil.mp within] at inside

/-- As many opening braces as a depth says; what is read behind them is read at that depth. -/
abbrev openBraces (depth : Nat) : Text := List.replicate depth '\x7b'

/-- Before the first opening brace nothing counts. -/
theorem returnsToZero_cons_iff {c : Char} (other : c ≠ '\x7b') {read : Text} :
    ReturnsToZero (c :: read) ↔ ReturnsToZero read := by
  have skip (front : Text) : depthBehind (c :: front) = depthBehind front := by
    simp [depthBehind, other]
  constructor
  · rintro ⟨front, within, inside, zero⟩
    obtain rfl | ⟨tail, rfl, later⟩ := List.prefix_cons_iff.mp within
    · simp at inside
    · exact ⟨tail, later, by simpa [Ne.symm other] using inside, skip tail ▸ zero⟩
  · rintro ⟨front, within, inside, zero⟩
    exact ⟨c :: front, by simpa using within, by simp [inside], (skip front).trans zero⟩

/-- Behind an opening brace every brace counts. -/
theorem returnsToZero_openBraces_iff {depth : Nat} {read : Text} :
    ReturnsToZero (openBraces (depth + 1) ++ read) ↔
      ∃ front, front <+: read ∧ depth + 1 + front.count '\x7b' = front.count '\x7d' := by
  have counted (count : Nat) (front : Text) : depthBehind (openBraces (count + 1) ++ front) =
      (count + 1 + front.count '\x7b' : Nat) - (front.count '\x7d' : Nat) := by
    simp [depthBehind, List.replicate_succ, List.count_replicate]
    omega
  constructor
  · rintro ⟨front, within, inside, zero⟩
    rcases List.prefix_or_prefix_of_prefix within (List.prefix_append _ _) with early | ⟨tail, rfl⟩
    · -- Among the opening braces themselves the depth only grows.
      obtain ⟨-, same⟩ := List.prefix_replicate_iff.mp early
      obtain ⟨count, length⟩ := Nat.exists_eq_add_one.mpr (List.length_pos_of_mem inside)
      have grown := counted count []
      rw [← length, List.append_nil, openBraces, ← same, zero] at grown
      simp at grown
      omega
    · refine ⟨tail, by simpa using within, ?_⟩
      rw [counted] at zero
      omega
  · rintro ⟨front, within, same⟩
    refine ⟨openBraces (depth + 1) ++ front, by simpa using within, by simp [List.replicate_succ], ?_⟩
    rw [counted]
    omega

private theorem not_returnsToZero_openBraces (depth : Nat) : ¬ ReturnsToZero (openBraces depth) := by
  cases depth with
  | zero => exact not_returnsToZero_nil
  | succ depth =>
    rw [← List.append_nil (openBraces _), returnsToZero_openBraces_iff]
    rintro ⟨front, within, same⟩
    simp [List.prefix_nil.mp within] at same

/-- One opening brace more. -/
theorem openBraces_append_open (depth : Nat) (read : Text) :
    openBraces depth ++ '\x7b' :: read = openBraces (depth + 1) ++ read := by
  simp [List.replicate_succ']

private theorem returnsToZero_close_one (read : Text) : ReturnsToZero (openBraces 1 ++ '\x7d' :: read) :=
  returnsToZero_openBraces_iff.mpr ⟨['\x7d'], by simp, by decide⟩

private theorem returnsToZero_close_iff {depth : Nat} {read : Text} :
    ReturnsToZero (openBraces (depth + 2) ++ '\x7d' :: read) ↔
      ReturnsToZero (openBraces (depth + 1) ++ read) := by
  simp only [returnsToZero_openBraces_iff]
  constructor
  · rintro ⟨front, within, same⟩
    obtain rfl | ⟨tail, rfl, later⟩ := List.prefix_cons_iff.mp within
    · simp at same
    · exact ⟨tail, later, by simp at same; omega⟩
  · rintro ⟨front, within, same⟩
    exact ⟨'\x7d' :: front, by simpa using within, by simp; omega⟩

private theorem returnsToZero_other_iff {c : Char} (unopened : c ≠ '\x7b') (unclosed : c ≠ '\x7d')
    {depth : Nat} {read : Text} :
    ReturnsToZero (openBraces depth ++ c :: read) ↔ ReturnsToZero (openBraces depth ++ read) := by
  cases depth with
  | zero => exact returnsToZero_cons_iff unopened
  | succ depth =>
    simp only [returnsToZero_openBraces_iff]
    constructor
    · rintro ⟨front, within, same⟩
      obtain rfl | ⟨tail, rfl, later⟩ := List.prefix_cons_iff.mp within
      · simp at same
      · exact ⟨tail, later, by simpa [unopened, unclosed] using same⟩
    · rintro ⟨front, within, same⟩
      exact ⟨c :: front, by simpa using within, by simpa [unopened, unclosed] using same⟩

/-- A line is left at some depth, or the depth returns to zero on it; behind the line only that
depth matters. -/
theorem returnsToZero_append_iff {depth : Nat} {line : Text} (rest : Text) :
    ReturnsToZero (openBraces depth ++ (line ++ rest)) ↔
      (braceDepth depth line).elim True fun behind => ReturnsToZero (openBraces behind ++ rest) := by
  fun_induction braceDepth depth line with
  | case1 depth => rfl
  | case2 depth line ih =>
    rw [List.cons_append, openBraces_append_open]
    exact ih
  | case3 line _ ih => exact (returnsToZero_cons_iff (by decide)).trans ih
  | case4 line _ => exact iff_true_intro (returnsToZero_close_one _)
  | case5 line depth _ ih => exact returnsToZero_close_iff.trans ih
  | case6 depth c line unopened unclosed ih =>
    exact (returnsToZero_other_iff unopened unclosed).trans ih

/-! ## What is read -/

/-- Whether a line belongs to a block comment, by whether one is open before it. -/
def inBlockComment (opened : Bool) (line : Text) : Bool :=
  opened || (Text.after? "/*" (Text.trim line)).isSome

/-- The characters that are read from lines: those of each normalized line that belongs to no block
comment. -/
def readFrom : (opened : Bool) → List Text → Text
  | _, [] => []
  | opened, line :: more =>
    (if inBlockComment opened line then [] else normalize line) ++
      readFrom (commentBehind opened line) more

/-- One line of a body: it belongs to a comment, or its braces count. -/
theorem bodyLines?_cons (depth : Nat) (opened : Bool) (line : Text) (more : List Text) :
    bodyLines? depth opened (line :: more) =
      if inBlockComment opened line then
        (bodyLines? depth (commentBehind opened line) more).map (· + 1)
      else
        (braceDepth depth (normalize line)).elim (some 1) fun behind =>
          (bodyLines? behind (commentBehind opened line) more).map (· + 1) := by
  cases opened with
  | true => simp [bodyLines?, inBlockComment, commentBehind]
  | false =>
    simp only [bodyLines?, inBlockComment, commentBehind, Bool.false_or]
    cases Text.after? "/*" (Text.trim line) with
    | some tail => simp
    | none => cases braceDepth depth (normalize line) <;> simp

/-- The depth returns to zero on the first lines exactly if the braces close on one of them. -/
theorem returnsToZero_take_iff {depth stop : Nat} {opened : Bool} {lines : List Text} :
    ReturnsToZero (openBraces depth ++ readFrom opened (lines.take stop)) ↔
      ∃ count ≤ stop, bodyLines? depth opened lines = some count := by
  induction lines generalizing depth opened stop with
  | nil => simp [bodyLines?, readFrom, not_returnsToZero_openBraces]
  | cons line more ih =>
    cases stop with
    | zero =>
      have some_ : bodyLines? depth opened (line :: more) ≠ some 0 := by
        intro none
        exact absurd (bodyLines?_pos none) (Nat.lt_irrefl 0)
      simp [some_, readFrom, not_returnsToZero_openBraces]
    | succ stop =>
      rw [bodyLines?_cons, List.take_succ_cons, readFrom]
      split
      · simp [ih]
      · rw [returnsToZero_append_iff]
        cases braceDepth depth (normalize line) with
        | none => simp
        | some behind => simp [ih]

/-! ## Where a method ends -/

/-- The first line behind the annotations that a method starts with. -/
def declarationLine (lines : List Text) (start : Nat) : Nat :=
  start + annotationLines 0 (lines.drop start)

/-- The line from which the body of a method is read: the first one, at or behind its declaration,
that holds an opening brace. -/
structure BodyFrom (lines : List Text) (start first : Nat) : Prop where
  declared : declarationLine lines start ≤ first
  opens : ∃ line, lines[first]? = some line ∧ '\x7b' ∈ normalize line
  least : ∀ index line, declarationLine lines start ≤ index → index < first →
    lines[index]? = some line → '\x7b' ∉ normalize line

/-- The characters that are read from a line up to another one, with no comment open before. -/
def readBetween (lines : List Text) (first stop : Nat) : Text :=
  readFrom false ((lines.take stop).drop first)

/-- The number of lines between the declaration and the first opening brace. -/
def headLines (lines : List Text) (start : Nat) : Nat :=
  (lines.drop (declarationLine lines start)).findIdx fun line => (normalize line).contains '\x7b'

theorem methodEnd?_eq (lines : List Text) (start : Nat) :
    methodEnd? lines start =
      (bodyLines? 0 false (lines.drop (declarationLine lines start + headLines lines start))).map
        (declarationLine lines start + headLines lines start + ·) := by
  have head (declared : List Text) :
      (declared.takeWhile fun line => !(normalize line).contains '\x7b').length =
        declared.findIdx fun line => (normalize line).contains '\x7b' := by
    simp [List.takeWhile_eq_take_findIdx_not, List.findIdx_le_length]
  simp only [methodEnd?, methodLength?, head, List.drop_drop, Option.map_map, declarationLine, headLines]
  simp [Function.comp_def, Nat.add_assoc]

theorem bodyFrom_iff {lines : List Text} {start first : Nat} :
    BodyFrom lines start first ↔
      first = declarationLine lines start + headLines lines start ∧ first < lines.length := by
  constructor
  · rintro ⟨declared, ⟨line, found, opens⟩, least⟩
    obtain ⟨head, rfl⟩ := Nat.exists_eq_add_of_le declared
    obtain ⟨inside, rfl⟩ := List.getElem?_eq_some_iff.mp found
    refine ⟨congrArg _ (Eq.symm ?_), inside⟩
    rw [headLines, List.findIdx_eq (by simp; omega)]
    refine ⟨by simpa using opens, fun index earlier => ?_⟩
    have closed := least (declarationLine lines start + index) _ (Nat.le_add_right _ _) (by omega)
      (List.getElem?_eq_getElem (by omega))
    simpa using closed
  · rintro ⟨rfl, inside⟩
    have short : headLines lines start < (lines.drop (declarationLine lines start)).length := by
      simp only [List.length_drop]
      omega
    obtain ⟨opens, closed⟩ := (List.findIdx_eq short).mp rfl
    refine ⟨Nat.le_add_right _ _, ⟨_, List.getElem?_eq_getElem inside, by simpa using opens⟩, ?_⟩
    intro index line declared earlier found
    obtain ⟨head, rfl⟩ := Nat.exists_eq_add_of_le declared
    obtain ⟨_, rfl⟩ := List.getElem?_eq_some_iff.mp found
    simpa using closed head (by omega)

/-- The depth returns to zero between the first line of a body and another line exactly if the method
has ended there. -/
theorem BodyFrom.returnsToZero_iff {lines : List Text} {start first stop : Nat}
    (body : BodyFrom lines start first) :
    ReturnsToZero (readBetween lines first stop) ↔
      ∃ last ≤ stop, methodEnd? lines start = some last := by
  obtain ⟨same, -⟩ := bodyFrom_iff.mp body
  rw [readBetween, List.drop_take, methodEnd?_eq, ← same]
  refine (@returnsToZero_take_iff 0 _ _ _).trans ⟨?_, ?_⟩
  · rintro ⟨count, within, found⟩
    have := bodyLines?_pos found
    exact ⟨first + count, by omega, by rw [found]; rfl⟩
  · rintro ⟨last, within, found⟩
    obtain ⟨count, counted, rfl⟩ := Option.map_eq_some_iff.mp found
    exact ⟨count, by omega, counted⟩

/-- A method that ends has a line from which its body is read. -/
theorem exists_bodyFrom {lines : List Text} {start stop : Nat}
    (ended : methodEnd? lines start = some stop) : ∃ first, BodyFrom lines start first := by
  refine ⟨_, bodyFrom_iff.mpr ⟨rfl, ?_⟩⟩
  rw [methodEnd?_eq] at ended
  by_contra beyond
  rw [List.drop_eq_nil_of_le (by omega)] at ended
  simp [bodyLines?] at ended

private theorem lt_of_returnsToZero {lines : List Text} {first stop : Nat}
    (returns : ReturnsToZero (readBetween lines first stop)) : first < stop := by
  by_contra before
  rw [readBetween, List.drop_eq_nil_of_le (by simp; omega)] at returns
  exact not_returnsToZero_nil returns

/-- A method ends behind the line that it starts with, and within the lines. -/
theorem methodEnd?_bounds {lines : List Text} {start stop : Nat}
    (ended : methodEnd? lines start = some stop) : start < stop ∧ stop ≤ lines.length := by
  obtain ⟨first, body⟩ := exists_bodyFrom ended
  have returns : ReturnsToZero (readBetween lines first stop) :=
    body.returnsToZero_iff.mpr ⟨stop, Nat.le_refl _, ended⟩
  constructor
  · have := lt_of_returnsToZero returns
    have declared := body.declared
    rw [declarationLine] at declared
    omega
  · -- Nothing is read behind the last line, so the depth has returned to zero by then.
    by_contra beyond
    rw [readBetween, List.take_of_length_le (by omega), ← List.take_length (l := lines)] at returns
    obtain ⟨last, within, same⟩ := body.returnsToZero_iff.mp returns
    obtain rfl := Option.some.inj (ended.symm.trans same)
    omega

/-- What stands before a method has no part in where it ends. -/
theorem methodEnd?_append (front lines : List Text) (start : Nat) :
    methodEnd? (front ++ lines) (front.length + start) =
      (methodEnd? lines start).map (front.length + ·) := by
  simp [methodEnd?, Function.comp_def, Nat.add_assoc]

/-- A method that is looked for from a line on ends behind the first line on which the depth of the
characters read returns to zero, and has no end exactly if the depth never returns to zero.  It ends
within the lines, and further lines in front only shift it. -/
theorem method_ends_where_depth_returns (lines : List Text) (start : Nat) :
    (∀ stop, methodEnd? lines start = some stop ↔ ∃ first, BodyFrom lines start first ∧
      ReturnsToZero (readBetween lines first stop) ∧
        ¬ ReturnsToZero (readBetween lines first (stop - 1))) ∧
    (methodEnd? lines start = none ↔ ∀ first, BodyFrom lines start first →
      ¬ ReturnsToZero (readBetween lines first lines.length)) ∧
    (∀ stop, methodEnd? lines start = some stop → start < stop ∧ stop ≤ lines.length) ∧
    ∀ front, methodEnd? (front ++ lines) (front.length + start) =
      (methodEnd? lines start).map (front.length + ·) := by
  refine ⟨fun stop => ⟨fun ended => ?_, ?_⟩, ⟨fun unended first body => ?_, fun never => ?_⟩,
    fun _ => methodEnd?_bounds, fun front => methodEnd?_append front lines start⟩
  · obtain ⟨first, body⟩ := exists_bodyFrom ended
    refine ⟨first, body, body.returnsToZero_iff.mpr ⟨stop, Nat.le_refl _, ended⟩, fun early => ?_⟩
    obtain ⟨last, before, same⟩ := body.returnsToZero_iff.mp early
    obtain rfl := Option.some.inj (ended.symm.trans same)
    have := (methodEnd?_bounds ended).1
    omega
  · rintro ⟨first, body, returns, before⟩
    obtain ⟨last, within, ended⟩ := body.returnsToZero_iff.mp returns
    have late : ¬ last ≤ stop - 1 := fun early =>
      before (body.returnsToZero_iff.mpr ⟨last, early, ended⟩)
    obtain rfl : last = stop := by omega
    exact ended
  · rw [body.returnsToZero_iff, unended]
    simp
  · by_contra ended
    obtain ⟨stop, ended⟩ := Option.ne_none_iff_exists'.mp ended
    obtain ⟨first, body⟩ := exists_bodyFrom ended
    exact never first body (body.returnsToZero_iff.mpr ⟨stop, (methodEnd?_bounds ended).2, ended⟩)

/-- A method with braces in an annotation, in comments and in a literal. -/
def bracedMethod : List Text := [
  "@PostMapping(consumes = \x7b \"a\" \x7d)", "void f() \x7b // \x7b", "/* \x7d", "\x7d */",
  "String s = \"\x7d\";", "\x7d \x7d"]

theorem bracedMethod_ends_where_depth_returns :
    methodEnd? bracedMethod 0 = some 6 ∧ ∃ first, BodyFrom bracedMethod 0 first ∧
      ReturnsToZero (readBetween bracedMethod first 6) ∧
        ¬ ReturnsToZero (readBetween bracedMethod first 5) := by
  have ended : methodEnd? bracedMethod 0 = some 6 := by decide +kernel
  exact ⟨ended, ((method_ends_where_depth_returns bracedMethod 0).1 6).mp ended⟩

end ReadOnlyViews.Java
