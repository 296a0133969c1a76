import ReadOnlyViews.Proofs.MethodExtents

/-!
What a removal of methods cuts out.  The lines that go are disjoint spans, one for each line that
starts a method to be removed, from that line to where the method ends; all others stay in order.
A method without an end stops the removal, and what a removal leaves is left by the next one.
-/

namespace ReadOnlyViews.Java

/-! ## Spans of lines -/

/-- Lines from a first one up to before another one. -/
structure Span where
  first : Nat
  stop : Nat
  deriving DecidableEq, Repr

/-- Whether a line belongs to a span. -/
def Span.covers (span : Span) (index : Nat) : Bool := span.first ≤ index && index < span.stop

/-- The span with more lines in front. -/
def Span.behind (count : Nat) (span : Span) : Span := ⟨count + span.first, count + span.stop⟩

@[simp] theorem Span.covers_behind (count index : Nat) (span : Span) :
    (span.behind count).covers (count + index) = span.covers index := by
  simp [Span.behind, Span.covers]

/-- The lines that belong to none of the spans, in order. -/
def outside (spans : List Span) (lines : List Text) : List Text :=
  (lines.zipIdx.filter fun numbered => !spans.any (·.covers numbered.2)).map (·.1)

@[simp] theorem outside_nil (lines : List Text) : outside [] lines = lines := by
  simp [outside]

private theorem outside_whole (lines : List Text) : outside [⟨0, lines.length⟩] lines = [] := by
  rw [outside, List.map_eq_nil_iff, List.filter_eq_nil_iff]
  intro numbered member
  have := (List.mem_zipIdx member).2.1
  simpa [Span.covers] using this

/-- Spans of the lines in front and spans of those behind do not meet. -/
theorem outside_append {early spans : List Span} {front back : List Text}
    (within : ∀ span ∈ early, span.stop ≤ front.length) :
    outside (early ++ spans.map (·.behind front.length)) (front ++ back) =
      outside early front ++ outside spans back := by
  have later (index : Nat) (inside : index < front.length) :
      (spans.map (·.behind front.length)).any (·.covers index) = false := by
    simp only [List.any_map, List.any_eq_false, Function.comp_apply, Span.behind, Span.covers]
    intro span _
    simp
    omega
  have earlier (index : Nat) : early.any (·.covers (front.length + index)) = false := by
    simp only [List.any_eq_false, Span.covers]
    intro span member
    have := within span member
    simp
    omega
  rw [outside, List.zipIdx_append, List.filter_append, List.map_append, Nat.zero_add,
    @List.zipIdx_eq_map_add _ back]
  congr 1
  · refine congrArg _ (List.filter_congr fun numbered member => ?_)
    rw [List.any_append, later _ (by simpa using (List.mem_zipIdx member).2.1), Bool.or_false]
  · simp only [List.filter_map, List.map_map, outside]
    simp [Function.comp_def, earlier]

/-! ## Where methods start -/

/-- A line starts a method to be removed, when spans before it are cut out: it belongs to none of
them, lies outside the comments of the lines that are left, and passes the test. -/
structure StartsMethod (test : LineTest) (opened : Bool) (lines : List Text) (spans : List Span)
    (index : Nat) : Prop where
  uncut : ∀ span ∈ spans, span.first < index → span.stop ≤ index
  passes : ∃ line, lines[index]? = some line ∧ test line = true ∧
    isComment (commentOpen opened (outside spans (lines.take index))) line = false

theorem commentOpen_append (opened : Bool) (front back : List Text) :
    commentOpen opened (front ++ back) = commentOpen (commentOpen opened front) back :=
  List.foldl_append

section Starts

variable {test : LineTest} {opened : Bool}

/-- Behind lines in front, only the comment that they leave open matters. -/
theorem startsMethod_append_iff {early spans : List Span} {front back : List Text} {index : Nat}
    (within : ∀ span ∈ early, span.stop ≤ front.length) :
    StartsMethod test opened (front ++ back) (early ++ spans.map (·.behind front.length))
        (front.length + index) ↔
      StartsMethod test (commentOpen opened (outside early front)) back spans index := by
  have state : commentOpen opened (outside (early ++ spans.map (·.behind front.length))
      ((front ++ back).take (front.length + index))) =
      commentOpen (commentOpen opened (outside early front)) (outside spans (back.take index)) := by
    rw [List.take_length_add_append, outside_append within, commentOpen_append]
  have there : (front ++ back)[front.length + index]? = back[index]? := by
    rw [List.getElem?_append_right (Nat.le_add_right _ _), Nat.add_sub_cancel_left]
  have uncut : (∀ span ∈ early ++ spans.map (·.behind front.length),
      span.first < front.length + index → span.stop ≤ front.length + index) ↔
      ∀ span ∈ spans, span.first < index → span.stop ≤ index := by
    have past (span) (member : span ∈ early) : span.stop ≤ front.length + index :=
      Nat.le_trans (within span member) (Nat.le_add_right _ _)
    simp only [List.forall_mem_append, List.forall_mem_map, Span.behind, Nat.add_lt_add_iff_left,
      Nat.add_le_add_iff_left]
    exact and_iff_right fun span member _ => past span member
  constructor
  · rintro ⟨free, passes⟩
    exact ⟨uncut.mp free, by rwa [state, there] at passes⟩
  · rintro ⟨free, passes⟩
    exact ⟨uncut.mpr free, by rwa [state, there]⟩

/-- Behind a line that is kept. -/
theorem startsMethod_kept_iff {spans : List Span} {line : Text} {more : List Text} {index : Nat} :
    StartsMethod test opened (line :: more) (spans.map (·.behind 1)) (1 + index) ↔
      StartsMethod test (commentBehind opened line) more spans index :=
  @startsMethod_append_iff test opened [] spans [line] more index (by simp)

/-- Behind a method that is cut out. -/
theorem startsMethod_cut_iff {spans : List Span} {method back : List Text} {index : Nat} :
    StartsMethod test opened (method ++ back)
        (⟨0, method.length⟩ :: spans.map (·.behind method.length)) (method.length + index) ↔
      StartsMethod test opened back spans index := by
  have shift := @startsMethod_append_iff test opened [⟨0, method.length⟩] spans method back index
    (by simp)
  rwa [outside_whole, commentOpen_nil] at shift

/-- The first line starts a method if it lies outside comments and passes the test. -/
theorem startsMethod_cons_iff {line : Text} {more : List Text} {spans : List Span} :
    StartsMethod test opened (line :: more) spans 0 ↔ (isComment opened line || !test line) = false := by
  constructor
  · rintro ⟨-, first, found, passes, free⟩
    obtain rfl : line = first := by simpa using found
    simp_all [outside]
  · intro starts
    rw [Bool.or_eq_false_iff] at starts
    exact ⟨by simp, line, rfl, by simpa using starts.2, by simpa [outside] using starts.1⟩

/-- Whether the first line starts a method is independent of the spans. -/
theorem startsMethod_zero_iff {lines : List Text} {spans : List Span} :
    StartsMethod test opened lines spans 0 ↔ StartsMethod test opened lines [] 0 := by
  cases lines with
  | nil => exact ⟨fun starts => by simpa using starts.passes, fun starts => by simpa using starts.passes⟩
  | cons line more => rw [startsMethod_cons_iff, startsMethod_cons_iff]

end Starts

/-! ## One removal -/

/-- A removal over lines: what it keeps, the spans that it cuts out, and the line at which it gets
stuck. -/
inductive Cuts (test : LineTest) :
    (opened : Bool) → (lines kept : List Text) → List Span → (stuck : Option Nat) → Prop where
  | done (opened : Bool) : Cuts test opened [] [] [] none
  | keep {opened : Bool} {line : Text} {more kept : List Text} {spans : List Span}
      {stuck : Option Nat} (passed : ¬ StartsMethod test opened (line :: more) [] 0)
      (rest : Cuts test (commentBehind opened line) more kept spans stuck) :
      Cuts test opened (line :: more) (line :: kept) (spans.map (·.behind 1)) (stuck.map (1 + ·))
  | cut {opened : Bool} {method back kept : List Text} {spans : List Span} {stuck : Option Nat}
      (starts : StartsMethod test opened (method ++ back) [] 0)
      (ended : methodEnd? (method ++ back) 0 = some method.length)
      (rest : Cuts test opened back kept spans stuck) :
      Cuts test opened (method ++ back) kept
        (⟨0, method.length⟩ :: spans.map (·.behind method.length)) (stuck.map (method.length + ·))
  | stick {opened : Bool} {lines : List Text} (starts : StartsMethod test opened lines [] 0)
      (unended : methodEnd? lines 0 = none) : Cuts test opened lines lines [] (some 0)

theorem removeFrom_skip (test : LineTest) (skip : Nat) (opened : Bool) (index : Nat)
    (lines : List Text) : removeFrom test skip opened index lines =
      removeFrom test 0 opened (index + skip) (lines.drop skip) := by
  induction skip generalizing index lines with
  | zero => rfl
  | succ skip ih =>
    cases lines with
    | nil => simp [removeFrom]
    | cons line more => rw [removeFrom, ih, List.drop_succ_cons, Nat.add_right_comm, Nat.add_assoc]

theorem methodEnd?_zero (lines : List Text) : methodEnd? lines 0 = methodLength? lines := by
  simp [methodEnd?]

/-- Every removal cuts out spans. -/
theorem exists_cuts (test : LineTest) (opened : Bool) (index : Nat) (lines : List Text) :
    ∃ spans stuck, Cuts test opened lines (removeFrom test 0 opened index lines).kept spans stuck ∧
      (removeFrom test 0 opened index lines).stuckAt = stuck.map (index + ·) := by
  -- A method takes several lines at once, so the induction is on the number of lines.
  induction count : lines.length using Nat.strong_induction_on generalizing opened index lines with
  | _ count ih =>
    cases lines with
    | nil => exact ⟨[], none, .done opened, rfl⟩
    | cons line more =>
      subst count
      rw [removeFrom_cons]
      split
      · next passed =>
        obtain ⟨spans, stuck, cuts, same⟩ := ih more.length (by simp) (commentBehind opened line)
          (index + 1) more rfl
        refine ⟨_, _, cuts.keep ?_, ?_⟩
        · rw [startsMethod_cons_iff, passed]
          simp
        · simp [Removal.keep, same, Function.comp_def, Nat.add_assoc]
      · next starts =>
        have starts : StartsMethod test opened (line :: more) [] 0 :=
          startsMethod_cons_iff.mpr (by simpa using starts)
        split
        · next unended =>
          exact ⟨[], some 0, .stick starts ((methodEnd?_zero _).trans unended), rfl⟩
        · next length found =>
          have ended := (methodEnd?_zero (line :: more)).trans found
          have bounds := methodEnd?_bounds ended
          obtain ⟨less, rfl⟩ := Nat.exists_eq_add_one.mpr bounds.1
          obtain rfl : opened = false := (commentBehind_of_not_isComment
            (Bool.or_eq_false_iff.mp (startsMethod_cons_iff.mp starts)).1).1
          have whole : (line :: more).take (less + 1) ++ (line :: more).drop (less + 1) = line :: more :=
            List.take_append_drop _ _
          have long : ((line :: more).take (less + 1)).length = less + 1 :=
            List.length_take_of_le bounds.2
          obtain ⟨spans, stuck, cuts, same⟩ := ih ((line :: more).drop (less + 1)).length
            (by rw [List.length_drop]; omega) false (index + 1 + less) _ rfl
          have cuts := Cuts.cut (by rw [whole]; exact starts) (by rw [whole, long]; exact ended) cuts
          rw [whole, long] at cuts
          refine ⟨_, _, by rwa [Nat.add_sub_cancel, removeFrom_skip], ?_⟩
          simp only [Nat.add_sub_cancel, removeFrom_skip test less]
          rw [← List.drop_succ_cons, same]
          simp [Function.comp_def, Nat.add_assoc, Nat.add_comm less]

namespace Cuts

variable {test : LineTest} {opened : Bool} {lines kept : List Text} {spans : List Span}
  {stuck : Option Nat}

/-- What a removal keeps are the lines outside its spans. -/
theorem kept_eq (cuts : Cuts test opened lines kept spans stuck) : kept = outside spans lines := by
  induction cuts with
  | done => rfl
  | @keep _ line more _ spans _ _ _ ih =>
    rw [ih]
    exact (@outside_append [] spans [line] more (by simp)).symm
  | @cut _ method back _ spans _ _ _ _ ih =>
    have rest := @outside_append [⟨0, method.length⟩] spans method back (by simp)
    rw [outside_whole, List.nil_append] at rest
    rw [ih, ← rest]
    rfl
  | stick => simp

theorem disjoint (cuts : Cuts test opened lines kept spans stuck) :
    spans.Pairwise fun earlier later => earlier.stop ≤ later.first := by
  induction cuts with
  | done | stick => exact .nil
  | keep _ _ ih => exact List.pairwise_map.mpr (ih.imp (by simp [Span.behind]))
  | cut _ _ _ ih =>
    exact List.pairwise_cons.mpr ⟨by simp [Span.behind], List.pairwise_map.mpr (ih.imp (by simp [Span.behind]))⟩

/-- Each span is a method, from the line that starts it to where it ends. -/
theorem method_of_mem (cuts : Cuts test opened lines kept spans stuck) {span : Span}
    (member : span ∈ spans) :
    StartsMethod test opened lines spans span.first ∧ methodEnd? lines span.first = some span.stop := by
  induction cuts generalizing span with
  | done | stick => simp at member
  | @keep _ line more _ _ _ _ _ ih =>
    obtain ⟨later, inRest, rfl⟩ := List.mem_map.mp member
    refine ⟨startsMethod_kept_iff.mpr (ih inRest).1, ?_⟩
    exact (methodEnd?_append [line] more later.first).trans (by rw [(ih inRest).2]; rfl)
  | @cut _ method back _ _ _ starts ended _ ih =>
    obtain rfl | behind := List.mem_cons.mp member
    · exact ⟨startsMethod_zero_iff.mpr starts, ended⟩
    · obtain ⟨later, inRest, rfl⟩ := List.mem_map.mp behind
      refine ⟨startsMethod_cut_iff.mpr (ih inRest).1, ?_⟩
      exact (methodEnd?_append method back later.first).trans (by rw [(ih inRest).2]; rfl)

/-- A removal gets stuck at a method without an end, behind all its spans. -/
theorem stuck_at (cuts : Cuts test opened lines kept spans stuck) {index : Nat}
    (at_ : stuck = some index) : StartsMethod test opened lines spans index ∧
      methodEnd? lines index = none ∧ ∀ span ∈ spans, span.stop ≤ index := by
  induction cuts generalizing index with
  | done => simp at at_
  | @keep _ line more _ _ _ _ _ ih =>
    obtain ⟨later, here, rfl⟩ := Option.map_eq_some_iff.mp at_
    obtain ⟨starts, unended, before⟩ := ih here
    refine ⟨startsMethod_kept_iff.mpr starts, ?_, ?_⟩
    · exact (methodEnd?_append [line] more later).trans (by rw [unended]; rfl)
    · simpa [Span.behind] using before
  | @cut _ method back _ _ _ _ _ _ ih =>
    obtain ⟨later, here, rfl⟩ := Option.map_eq_some_iff.mp at_
    obtain ⟨starts, unended, before⟩ := ih here
    refine ⟨startsMethod_cut_iff.mpr starts, ?_, ?_⟩
    · exact (methodEnd?_append method back later).trans (by rw [unended]; rfl)
    · simpa [Span.behind] using before
  | stick starts unended =>
    obtain rfl := Option.some.inj at_
    exact ⟨starts, unended, by simp⟩

/-- Every line that starts a method is the first one of a span, unless the removal is stuck before. -/
theorem mem_or_stuck (cuts : Cuts test opened lines kept spans stuck) {index : Nat}
    (starts : StartsMethod test opened lines spans index) :
    (∃ span ∈ spans, span.first = index) ∨ ∃ before ≤ index, stuck = some before := by
  induction cuts generalizing index with
  | done => simpa using starts.passes
  | keep passed _ ih =>
    cases index with
    | zero => exact absurd (startsMethod_zero_iff.mp starts) passed
    | succ index =>
      rw [Nat.add_comm, startsMethod_kept_iff] at starts
      obtain ⟨span, member, rfl⟩ | ⟨before, earlier, rfl⟩ := ih starts
      · exact .inl ⟨_, List.mem_map_of_mem member, Nat.add_comm _ _⟩
      · exact .inr ⟨1 + before, by omega, rfl⟩
  | @cut _ method back _ _ _ _ _ _ ih =>
    obtain inside | beyond := Nat.lt_or_ge index method.length
    · -- Within the span that starts with the first line, no other line starts a method.
      obtain rfl | positive := Nat.eq_zero_or_pos index
      · exact .inl ⟨_, List.mem_cons_self, rfl⟩
      · have past : method.length ≤ index := starts.uncut ⟨0, method.length⟩ List.mem_cons_self positive
        omega
    · obtain ⟨index, rfl⟩ := Nat.exists_eq_add_of_le beyond
      obtain ⟨span, member, rfl⟩ | ⟨before, earlier, rfl⟩ := ih (startsMethod_cut_iff.mp starts)
      · exact .inl ⟨_, List.mem_cons_of_mem _ (List.mem_map_of_mem member), rfl⟩
      · exact .inr ⟨method.length + before, by omega, rfl⟩
  | stick => exact .inr ⟨0, Nat.zero_le _, rfl⟩

/-- What a removal keeps, a second one keeps. -/
theorem kept_again (cuts : Cuts test opened lines kept spans stuck) (index : Nat) :
    (removeFrom test 0 opened index kept).kept = kept := by
  induction cuts generalizing index with
  | done => rfl
  | keep passed _ ih =>
    rw [startsMethod_cons_iff, Bool.not_eq_false] at passed
    rw [removeFrom_cons, if_pos passed, Removal.keep, ih]
  | cut _ _ _ ih => exact ih index
  | @stick _ lines starts unended =>
    cases lines with
    | nil => rfl
    | cons line more =>
      rw [startsMethod_cons_iff] at starts
      rw [removeFrom_cons, if_neg (by simp [starts]), ← methodEnd?_zero, unended]

end Cuts

/-! ## Removals from texts -/

/-- What a removal from a text cuts out: disjoint spans of its lines, each of them a method that it was
to remove.  No other line starts such a method, unless one before it has no end; that one and all lines
behind it are kept, and the removal has failed. -/
structure CutsOut (test : LineTest) (text : Text) (edit : Edit) (spans : List Span) : Prop where
  disjoint : spans.Pairwise fun earlier later => earlier.stop ≤ later.first
  methods : ∀ span ∈ spans, span.first < span.stop ∧
    StartsMethod test false (Document.lines text) spans span.first ∧
    methodEnd? (Document.lines text) span.first = some span.stop
  complete : ∀ start, StartsMethod test false (Document.lines text) spans start →
    (∃ span ∈ spans, span.first = start) ∨ ∃ before ≤ start,
      StartsMethod test false (Document.lines text) spans before ∧
      methodEnd? (Document.lines text) before = none
  kept : edit.text = Document.render text (outside spans (Document.lines text))
  lines : Document.lines edit.text =
    if outside spans (Document.lines text) = [] then [[]] else outside spans (Document.lines text)
  failed : edit.outcome = .failed ↔ ∃ start,
    StartsMethod test false (Document.lines text) spans start ∧
    methodEnd? (Document.lines text) start = none
  rest : ∀ start, StartsMethod test false (Document.lines text) spans start →
    methodEnd? (Document.lines text) start = none → ∀ span ∈ spans, span.stop ≤ start

theorem outcome_eq_failed_iff {test : LineTest} {text : Text} :
    (removeMethods test text).outcome = .failed ↔
      (removeFrom test 0 false 0 (Document.lines text)).stuckAt ≠ none := by
  simp only [removeMethods]
  split
  · next stuck => simp [stuck]
  · next free =>
    rw [free]
    split <;> simp

private theorem Cuts.cutsOut {test : LineTest} {text : Text} {spans : List Span} {stuck : Option Nat}
    (cuts : Cuts test false (Document.lines text)
      (removeFrom test 0 false 0 (Document.lines text)).kept spans stuck)
    (same : (removeFrom test 0 false 0 (Document.lines text)).stuckAt = stuck) :
    CutsOut test text (removeMethods test text) spans where
  disjoint := cuts.disjoint
  methods span member :=
    have method := cuts.method_of_mem member
    ⟨(methodEnd?_bounds method.2).1, method⟩
  complete start starts := by
    refine (cuts.mem_or_stuck starts).imp_right ?_
    rintro ⟨before, earlier, at_⟩
    obtain ⟨starts, unended, -⟩ := cuts.stuck_at at_
    exact ⟨before, earlier, starts, unended⟩
  kept := by rw [removeMethods_text, cuts.kept_eq]
  lines := by
    rw [removeMethods_text, ← cuts.kept_eq]
    split
    · next empty => rw [empty, Document.lines_render_nil]
    · next some_ =>
      exact ((Document.separable_lines text).of_sublist (kept_sublist _ 0 _ _ _)).lines_render some_
  failed := by
    rw [outcome_eq_failed_iff, same]
    constructor
    · intro some_
      obtain ⟨start, at_⟩ := Option.ne_none_iff_exists'.mp some_
      obtain ⟨starts, unended, -⟩ := cuts.stuck_at at_
      exact ⟨start, starts, unended⟩
    · rintro ⟨start, starts, unended⟩
      obtain ⟨span, member, rfl⟩ | ⟨before, -, at_⟩ := cuts.mem_or_stuck starts
      · simp [(cuts.method_of_mem member).2] at unended
      · simp [at_]
  rest start starts unended span member := by
    obtain ⟨other, inside, rfl⟩ | ⟨before, earlier, at_⟩ := cuts.mem_or_stuck starts
    · simp [(cuts.method_of_mem inside).2] at unended
    · exact Nat.le_trans ((cuts.stuck_at at_).2.2 span member) earlier

/-- A second removal leaves what the first one left. -/
theorem removeMethods_removeMethods {test : LineTest} (blank : test [] = false) (text : Text) :
    (removeMethods test (removeMethods test text).text).text = (removeMethods test text).text := by
  obtain ⟨spans, stuck, cuts, same⟩ := exists_cuts test false 0 (Document.lines text)
  have lines := (cuts.cutsOut (by simpa using same)).lines
  rw [← cuts.kept_eq] at lines
  rw [removeMethods_text, lines]
  split
  · next empty =>
    -- Without any line left the text is empty, and an empty line starts no method.
    have free : removeFrom test 0 false 0 [[]] = ⟨[[]], 0, none⟩ := by
      rw [removeFrom_cons, blank]
      simp [removeFrom, Removal.keep]
    rw [if_pos empty] at lines
    rw [free, ← lines, Document.render_lines]
  · next some_ =>
    rw [if_neg some_] at lines
    rw [cuts.kept_again, ← lines, Document.render_lines]

/-- A removal cuts disjoint spans out of a text, the methods that it was to remove, and fails exactly
if it comes to one without an end; if it does not fail, nothing that it was to remove is left in the
code.  In any case a second removal leaves the text as it is. -/
theorem removal_cuts_methods {test : LineTest} (blank : test [] = false) (text : Text) :
    (∃ spans, CutsOut test text (removeMethods test text) spans) ∧
    ((removeMethods test text).outcome ≠ .failed →
      ∀ line ∈ code (removeMethods test text).text, test line = false) ∧
    (removeMethods test (removeMethods test text).text).text = (removeMethods test text).text := by
  refine ⟨?_, freeOf_removeMethods blank, removeMethods_removeMethods blank text⟩
  obtain ⟨spans, stuck, cuts, same⟩ := exists_cuts test false 0 (Document.lines text)
  exact ⟨spans, cuts.cutsOut (by simpa using same)⟩

/-- A text with methods to remove in comments, between them, and one without an end. -/
def brokenSource : Text :=
  "/* @P\n*/\n@P void f() \x7b\n\x7d\n// @P\n@P void g() \x7b\nint x;".toList

theorem removal_cuts_methods_of_brokenSource :
    annotatedWith "@P".toList [] = false ∧
    (∃ spans, CutsOut (annotatedWith "@P".toList) brokenSource
      (removeMethods (annotatedWith "@P".toList) brokenSource) spans) ∧
    (removeMethods (annotatedWith "@P".toList) brokenSource).outcome = .failed ∧
    (removeMethods (annotatedWith "@P".toList) brokenSource).text =
      "/* @P\n*/\n// @P\n@P void g() \x7b\nint x;".toList := by
  have blank : annotatedWith "@P".toList [] = false := by decide
  exact ⟨blank, (removal_cuts_methods blank brokenSource).1, by decide +kernel, by decide +kernel⟩

end ReadOnlyViews.Java
