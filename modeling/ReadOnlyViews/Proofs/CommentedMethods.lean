import ReadOnlyViews.Proofs.AnnotatedMethods

/-!
Block comments within a method.  A comment of whole lines has no part in where the method around it
ends, from behind its opening brace on; before that brace the search for it looks into comments, so
there the comment must not hide one behind its first line.
-/

namespace ReadOnlyViews.Java

/-! ## Lines in front of a declaration -/

section Arguments

variable {depth used : Nat} {rest tail : Text}

theorem argumentsEnd?_cases {more : List Text} (ended : argumentsEnd? depth rest more = some (used, tail)) :
    closeParens depth rest = .inr tail ∧ used = 0 ∨
      ∃ opened line others before, closeParens depth rest = .inl opened ∧ more = line :: others ∧
        used = before + 1 ∧ argumentsEnd? opened (normalize line) others = some (before, tail) := by
  unfold argumentsEnd? at ended
  cases closed : closeParens depth rest with
  | inr behind =>
    rw [closed] at ended
    cases ended
    exact .inl ⟨rfl, rfl⟩
  | inl opened =>
    rw [closed] at ended
    cases more with
    | nil => cases ended
    | cons line others =>
      obtain ⟨further, found, same⟩ := Option.map_eq_some_iff.mp ended
      cases same
      exact .inr ⟨opened, line, others, further.1, rfl, rfl, rfl, found⟩

private theorem argumentsEnd?_le {more : List Text} (ended : argumentsEnd? depth rest more = some (used, tail)) :
    used ≤ more.length := by
  induction used generalizing depth rest more with
  | zero => exact Nat.zero_le _
  | succ used ih =>
    obtain ⟨-, none⟩ | ⟨_, _, others, _, -, rfl, same, found⟩ := argumentsEnd?_cases ended
    · cases none
    · cases same
      exact Nat.succ_le_succ (ih found)

/-- Lines behind the end of arguments have no part in it. -/
theorem argumentsEnd?_append {front back : List Text}
    (ended : argumentsEnd? depth rest (front ++ back) = some (used, tail)) (within : used ≤ front.length)
    (other : List Text) : argumentsEnd? depth rest (front ++ other) = some (used, tail) := by
  induction used generalizing depth rest front with
  | zero =>
    obtain ⟨closed, -⟩ | ⟨_, _, _, _, -, -, same, -⟩ := argumentsEnd?_cases ended
    · exact argumentsEnd?_of_closed closed
    · cases same
  | succ used ih =>
    cases front with
    | nil => simp at within
    | cons line front =>
      obtain ⟨-, none⟩ | ⟨opened, _, _, _, open_, cut, same, found⟩ := argumentsEnd?_cases ended
      · cases none
      · cases same
        obtain ⟨rfl, rfl⟩ := List.cons.inj cut
        exact argumentsEnd?_of_open open_ (ih found (Nat.le_of_succ_le_succ within))

private theorem annotationEnd?_le {more : List Text} (ended : annotationEnd? rest more = some (used, tail)) :
    used ≤ more.length := by
  rw [annotationEnd?] at ended
  split at ended
  · exact argumentsEnd?_le ended
  · cases ended
    exact Nat.zero_le _

private theorem annotationEnd?_append {front back : List Text}
    (ended : annotationEnd? rest (front ++ back) = some (used, tail)) (within : used ≤ front.length)
    (other : List Text) : annotationEnd? rest (front ++ other) = some (used, tail) := by
  rw [annotationEnd?] at ended ⊢
  split
  · next called =>
    rw [if_pos called] at ended
    exact argumentsEnd?_append ended within other
  · next uncalled =>
    rw [if_neg uncalled] at ended
    exact ended

end Arguments

private theorem staysOpen_of_closeParens {depth open_ : Nat} {text : Text} (positive : 0 < depth)
    (opened : closeParens depth text = .inl open_) : StaysOpen depth text := by
  intro front within
  fun_induction closeParens depth text generalizing front with
  | case1 depth => simpa [List.prefix_nil.mp within] using positive
  | case2 depth text ih =>
    obtain rfl | ⟨front, rfl, later⟩ := List.prefix_cons_iff.mp within
    · simpa using positive
    · have := ih (Nat.succ_pos _) opened front later
      simp
      omega
  | case3 => cases opened
  | case4 depth text deep _ ih =>
    obtain rfl | ⟨front, rfl, later⟩ := List.prefix_cons_iff.mp within
    · simpa using positive
    · have := ih (by omega) opened front later
      simp
      omega
  | case5 depth c text unopened unclosed ih =>
    obtain rfl | ⟨front, rfl, later⟩ := List.prefix_cons_iff.mp within
    · simpa using positive
    · simpa [unopened, unclosed] using ih positive opened front later

/-- The arguments of an annotation that a line begins with end on that line. -/
def KeepsArguments (line : Text) : Prop :=
  ∀ rest, annotationRest? (Text.trim (normalize line)) = some ('(' :: rest) → ¬ StaysOpen 1 rest

theorem KeepsArguments.exists_tail {line rest : Text} (keeps : KeepsArguments line)
    (found : annotationRest? (Text.trim (normalize line)) = some rest) (more : List Text) :
    ∃ tail, annotationEnd? rest more = some (0, tail) := by
  rw [annotationEnd?]
  split
  · next called =>
    obtain ⟨rest, rfl⟩ := List.head?_eq_some_iff.mp called
    cases closed : closeParens 1 rest with
    | inl open_ => exact absurd (staysOpen_of_closeParens Nat.one_pos closed) (keeps rest found)
    | inr tail => exact ⟨tail, argumentsEnd?_of_closed closed⟩
  · exact ⟨rest, rfl⟩

private theorem le_annotationLines {skip : Nat} {lines : List Text} (within : skip ≤ lines.length) :
    skip ≤ annotationLines skip lines := by
  rw [annotationLines_skip skip within]
  exact Nat.le_add_right _ _

/-- Lines behind a declaration have no part in where it starts, if the arguments of an annotation on
its line end there. -/
theorem annotationLines_append {skip : Nat} {front back : List Text}
    (within : annotationLines skip (front ++ back) < front.length)
    (keeps : ∀ line ∈ front[annotationLines skip (front ++ back)]?, KeepsArguments line)
    (other : List Text) : annotationLines skip (front ++ other) = annotationLines skip (front ++ back) := by
  induction front generalizing skip with
  | nil => simp at within
  | cons line front ih =>
    cases skip with
    | succ skip =>
      simp only [List.cons_append, annotationLines, List.length_cons, List.getElem?_cons_succ,
        Nat.add_lt_add_iff_right, Nat.add_right_cancel_iff] at within keeps ⊢
      exact ih within keeps
    | zero =>
      cases found : annotationRest? (Text.trim (normalize line)) with
      | none => simp [annotationLines, found]
      | some rest =>
        cases ended : annotationEnd? rest (front ++ back) with
        | none =>
          -- Arguments that never end leave the search on their line.
          have here : annotationLines 0 (line :: (front ++ back)) = 0 := by
            rw [annotationEnd?] at ended
            rw [annotationLines, found]
            simp only [ended]
          rw [List.cons_append, here] at keeps
          obtain ⟨tail, closed⟩ := (keeps line rfl).exists_tail found (front ++ back)
          simp [closed] at ended
        | some last =>
          obtain ⟨used, tail⟩ := last
          have here := annotationLines_cons found ended
          rw [List.cons_append, here] at within keeps
          have reach := le_annotationLines (annotationEnd?_le ended)
          have inside : used ≤ front.length := by
            split at within <;> simp at within <;> omega
          have same := annotationEnd?_append ended inside other
          rw [List.cons_append, List.cons_append, here, annotationLines_cons found same]
          split
          · next blank =>
            rw [if_pos blank] at within keeps
            rw [ih (Nat.lt_of_succ_lt_succ within) keeps]
          · rfl

/-! ## Lines of a body -/

section Body

variable {depth count : Nat} {opened : Bool} {front : List Text}

private theorem bodyLines?_le {lines : List Text} (ended : bodyLines? depth opened lines = some count) :
    count ≤ lines.length := by
  induction lines generalizing depth opened count with
  | nil => simp [bodyLines?] at ended
  | cons line more ih =>
    rw [bodyLines?_cons] at ended
    split at ended
    · obtain ⟨later, found, rfl⟩ := Option.map_eq_some_iff.mp ended
      exact Nat.succ_le_succ (ih found)
    · cases behind : braceDepth depth (normalize line) with
      | none =>
        simp only [behind, Option.elim_none, Option.some.injEq] at ended
        simp [← ended]
      | some further =>
        rw [behind] at ended
        obtain ⟨later, found, rfl⟩ := Option.map_eq_some_iff.mp ended
        exact Nat.succ_le_succ (ih found)

/-- Lines behind a body have no part in where it ends. -/
theorem bodyLines?_append_of_ended (ended : bodyLines? depth opened front = some count)
    (back : List Text) : bodyLines? depth opened (front ++ back) = some count := by
  induction front generalizing depth opened count with
  | nil => simp [bodyLines?] at ended
  | cons line front ih =>
    rw [List.cons_append, bodyLines?_cons]
    rw [bodyLines?_cons] at ended
    split at ended
    · next comment =>
      obtain ⟨later, found, rfl⟩ := Option.map_eq_some_iff.mp ended
      rw [if_pos comment, ih found]
      rfl
    · next code =>
      rw [if_neg code]
      cases behind : braceDepth depth (normalize line) with
      | none => simpa [behind] using ended
      | some further =>
        rw [behind] at ended
        obtain ⟨later, found, rfl⟩ := Option.map_eq_some_iff.mp ended
        rw [Option.elim_some, ih found]
        rfl

/-- Behind lines on which a body does not end, only the depth and an open comment matter. -/
theorem bodyLines?_append_of_unended (unended : bodyLines? depth opened front = none) :
    ∃ behind, ∀ back, bodyLines? depth opened (front ++ back) =
      (bodyLines? behind (commentOpen opened front) back).map (front.length + ·) := by
  induction front generalizing depth opened with
  | nil => exact ⟨depth, fun back => by simp⟩
  | cons line front ih =>
    rw [bodyLines?_cons] at unended
    split at unended
    · next comment =>
      obtain ⟨behind, later⟩ := ih (Option.map_eq_none_iff.mp unended)
      refine ⟨behind, fun back => ?_⟩
      rw [List.cons_append, bodyLines?_cons, if_pos comment, later]
      simp [Function.comp_def, Nat.add_right_comm]
    · next code =>
      cases further : braceDepth depth (normalize line) with
      | none => simp [further] at unended
      | some next =>
        rw [further] at unended
        obtain ⟨behind, later⟩ := ih (Option.map_eq_none_iff.mp unended)
        refine ⟨behind, fun back => ?_⟩
        rw [List.cons_append, bodyLines?_cons, if_neg code, further, Option.elim_some, later]
        simp [Function.comp_def, Nat.add_right_comm]

/-- Before the first opening brace a body neither deepens nor ends. -/
theorem bodyLines?_append_of_unbraced (unbraced : ∀ line ∈ front, '\x7b' ∉ normalize line)
    (back : List Text) : bodyLines? 0 opened (front ++ back) =
      (bodyLines? 0 (commentOpen opened front) back).map (front.length + ·) := by
  induction front generalizing opened with
  | nil => simp
  | cons line front ih =>
    obtain ⟨here, later⟩ := List.forall_mem_cons.mp unbraced
    have flat : braceDepth 0 (normalize line) = some 0 := by
      simpa [braceDepth] using braceDepth_append_of_notMem here []
    rw [List.cons_append, bodyLines?_cons, flat, Option.elim_some, ite_self, ih later]
    simp [Function.comp_def, Nat.add_right_comm]

end Body

/-! ## Block comments -/

/-- A block comment of whole lines: the first one begins with its opening mark, the last one ends with
its closing mark, and no line before that has one. -/
structure IsBlockComment (comment : List Text) : Prop where
  marks : ∃ first more tail front last, comment = first :: more ∧
    Text.trim first = "/*".toList ++ tail ∧
    tail :: more.map Text.trim = front ++ [last ++ "*/".toList] ∧
    ∀ text ∈ front, Text.includes "*/" text = false

private theorem includes_closing (text : Text) : Text.includes "*/".toList (text ++ "*/".toList) = true :=
  Text.includes_iff.mpr (List.suffix_append _ _).isInfix

/-- The rest of an open comment is passed over. -/
theorem bodyLines?_rest_of_comment {more front : List Text} {last : Text}
    (marks : more.map Text.trim = front ++ [last ++ "*/".toList])
    (unmarked : ∀ text ∈ front, Text.includes "*/" text = false) (depth : Nat) (back : List Text) :
    bodyLines? depth true (more ++ back) = (bodyLines? depth false back).map (more.length + ·) := by
  induction front generalizing more with
  | nil =>
    obtain ⟨line, rfl, same⟩ := List.map_eq_singleton_iff.mp marks
    rw [List.singleton_append, bodyLines?, same, includes_closing]
    simp [Nat.add_comm]
  | cons text front ih =>
    obtain ⟨here, later⟩ := List.forall_mem_cons.mp unmarked
    obtain ⟨line, more, rfl, rfl, others⟩ := List.map_eq_cons_iff.mp marks
    rw [List.cons_append, bodyLines?, here, Bool.not_false, ih others later]
    simp [Function.comp_def, Nat.add_right_comm]

/-- A block comment within a body is passed over. -/
theorem IsBlockComment.bodyLines?_append {comment : List Text} (isComment : IsBlockComment comment)
    (depth : Nat) (back : List Text) : bodyLines? depth false (comment ++ back) =
      (bodyLines? depth false back).map (comment.length + ·) := by
  obtain ⟨first, more, tail, front, last, rfl, opening, marks, unmarked⟩ := isComment.marks
  rw [List.cons_append, bodyLines?, Text.after?_eq_some_iff.mpr opening]
  cases front with
  | nil =>
    obtain ⟨rfl, none⟩ := List.cons.inj marks
    obtain rfl := List.map_eq_nil_iff.mp none
    simp only [includes_closing, Bool.not_true]
    simp [Nat.add_comm]
  | cons _ front =>
    obtain ⟨rfl, others⟩ := List.cons.inj marks
    obtain ⟨here, later⟩ := List.forall_mem_cons.mp unmarked
    simp only [here, Bool.not_false, bodyLines?_rest_of_comment others later]
    simp [Function.comp_def, Nat.add_right_comm]

/-! ## From a declaration to its end -/

/-- The number of lines before the first one with an opening brace. -/
def bracelessLines (lines : List Text) : Nat := lines.findIdx fun line => (normalize line).contains '\x7b'

/-- The number of lines from a declaration to behind its body. -/
def declaredLength? (lines : List Text) : Option Nat :=
  (bodyLines? 0 false (lines.drop (bracelessLines lines))).map (bracelessLines lines + ·)

theorem methodEnd?_eq_declaredLength? (lines : List Text) (start : Nat) :
    methodEnd? lines start = (declaredLength? (lines.drop (declarationLine lines start))).map
      (declarationLine lines start + ·) := by
  rw [methodEnd?_eq, declaredLength?, headLines, ← bracelessLines]
  simp [Function.comp_def, Nat.add_assoc]

section Declared

variable {front back comment : List Text}

private theorem bracelessLines_append_of_unbraced (unbraced : ∀ line ∈ front, '\x7b' ∉ normalize line)
    (back : List Text) : bracelessLines (front ++ back) = front.length + bracelessLines back := by
  have none : ∀ line ∈ front, (normalize line).contains '\x7b' = false := by simpa using unbraced
  rw [bracelessLines, List.findIdx_append, List.findIdx_eq_length_of_false none, if_neg (Nat.lt_irrefl _),
    Nat.add_comm, ← bracelessLines]

private theorem bracelessLines_append_of_braced (braced : ∃ line ∈ front, '\x7b' ∈ normalize line)
    (back : List Text) : bracelessLines (front ++ back) = bracelessLines front ∧
      bracelessLines front < front.length := by
  have within : bracelessLines front < front.length := List.findIdx_lt_length.mpr (by simpa using braced)
  rw [bracelessLines] at within
  exact ⟨by rw [bracelessLines, List.findIdx_append, if_pos within, ← bracelessLines], within⟩

/-- The lines before the first opening brace have none. -/
theorem unbraced_take_bracelessLines (lines : List Text) :
    ∀ line ∈ lines.take (bracelessLines lines), '\x7b' ∉ normalize line := by
  intro line member
  obtain ⟨index, inside, rfl⟩ := List.mem_iff_getElem.mp member
  have early : index < bracelessLines lines := by
    rw [List.length_take] at inside
    omega
  simpa using List.not_of_lt_findIdx early

/-- Lines without an opening brace only shift the body. -/
theorem declaredLength?_append_of_unbraced (unbraced : ∀ line ∈ front, '\x7b' ∉ normalize line)
    (back : List Text) :
    declaredLength? (front ++ back) = (declaredLength? back).map (front.length + ·) := by
  rw [declaredLength?, declaredLength?, bracelessLines_append_of_unbraced unbraced,
    List.drop_length_add_append]
  simp [Function.comp_def, Nat.add_assoc]

/-- From the line of the first opening brace on, the body is read. -/
theorem declaredLength?_cons_of_braced {line : Text} (braced : '\x7b' ∈ normalize line)
    (more : List Text) : declaredLength? (line :: more) = bodyLines? 0 false (line :: more) := by
  simp [declaredLength?, bracelessLines, List.findIdx_cons, braced]

/-- Comments that are closed before the first opening brace can be read over. -/
theorem declaredLength?_eq_bodyLines? {lines : List Text}
    (closed : commentOpen false (lines.take (bracelessLines lines)) = false) :
    declaredLength? lines = bodyLines? 0 false lines := by
  have short : (lines.take (bracelessLines lines)).length = bracelessLines lines :=
    List.length_take_of_le List.findIdx_le_length
  have read := @bodyLines?_append_of_unbraced false _ (unbraced_take_bracelessLines lines)
    (lines.drop (bracelessLines lines))
  rwa [List.take_append_drop, closed, short, ← declaredLength?, eq_comm] at read

end Declared

/-! ## Comments within a method -/

section Insert

variable {opened : Bool} {front back comment : List Text} {length : Nat}

/-- A comment behind the first opening brace. -/
theorem IsBlockComment.declaredLength?_behind (isComment : IsBlockComment comment)
    (braced : ∃ line ∈ front, '\x7b' ∈ normalize line)
    (free : commentOpen opened front = false)
    (plain : commentOpen opened (front.take (bracelessLines front)) = false)
    (ended : declaredLength? (front ++ back) = some length) (later : front.length < length) :
    declaredLength? (front ++ (comment ++ back)) = some (length + comment.length) := by
  have within := (bracelessLines_append_of_braced braced []).2
  have read (rest : List Text) : declaredLength? (front ++ rest) =
      (bodyLines? 0 false (front.drop (bracelessLines front) ++ rest)).map (bracelessLines front + ·) := by
    rw [declaredLength?, (bracelessLines_append_of_braced braced rest).1,
      List.drop_append_of_le_length (Nat.le_of_lt within)]
  rw [← List.take_append_drop (bracelessLines front) front, commentOpen_append, plain] at free
  rw [read] at ended
  obtain ⟨count, found, rfl⟩ := Option.map_eq_some_iff.mp ended
  have unended : bodyLines? 0 false (front.drop (bracelessLines front)) = none := by
    by_contra some_
    obtain ⟨early, here⟩ := Option.ne_none_iff_exists'.mp some_
    have short := bodyLines?_le here
    obtain rfl := Option.some.inj ((bodyLines?_append_of_ended here back).symm.trans found)
    rw [List.length_drop] at short
    omega
  obtain ⟨behind, reads⟩ := bodyLines?_append_of_unended unended
  rw [reads, free] at found
  obtain ⟨rest, inner, rfl⟩ := Option.map_eq_some_iff.mp found
  rw [read, reads, free, isComment.bodyLines?_append, inner]
  simp only [Option.map_some, Option.some.injEq]
  omega

/-- A comment before the first opening brace. -/
theorem IsBlockComment.declaredLength?_before (isComment : IsBlockComment comment)
    (unbraced : ∀ line ∈ front, '\x7b' ∉ normalize line)
    (plain : commentOpen false (back.take (bracelessLines back)) = false)
    (shown : (∀ line ∈ comment, '\x7b' ∉ normalize line) ∨ ∃ line ∈ comment.head?, '\x7b' ∈ normalize line)
    (ended : declaredLength? (front ++ back) = some length) :
    declaredLength? (front ++ (comment ++ back)) = some (length + comment.length) := by
  rw [declaredLength?_append_of_unbraced unbraced] at ended ⊢
  obtain ⟨count, found, rfl⟩ := Option.map_eq_some_iff.mp ended
  have shifted : declaredLength? (comment ++ back) = some (comment.length + count) := by
    obtain none | ⟨line, first, braced⟩ := shown
    · rw [declaredLength?_append_of_unbraced none, found]
      rfl
    · obtain ⟨more, rfl⟩ := List.head?_eq_some_iff.mp first
      rw [List.cons_append, declaredLength?_cons_of_braced braced, ← List.cons_append,
        isComment.bodyLines?_append, ← declaredLength?_eq_bodyLines? plain, found]
      rfl
  rw [shifted]
  simp only [Option.map_some, Option.some.injEq]
  omega

end Insert

/-- Lines behind the line of a declaration have no part in where it is. -/
theorem declarationLine_append {front back : List Text} {start : Nat}
    (declared : declarationLine (front ++ back) start < front.length)
    (keeps : ∀ line ∈ front[declarationLine (front ++ back) start]?, KeepsArguments line)
    (other : List Text) :
    declarationLine (front ++ other) start = declarationLine (front ++ back) start := by
  have behind : start ≤ front.length := by
    rw [declarationLine] at declared
    omega
  simp only [declarationLine, List.drop_append_of_le_length behind] at declared keeps ⊢
  rw [@annotationLines_append 0 (front.drop start) back (by rw [List.length_drop]; omega)
    (by rwa [List.getElem?_drop])]

/-- A block comment of whole lines within a method shifts where the method ends by these lines, whatever
stands in it.  Before the line with the first opening brace, it may not have a brace behind its first
line if it has none on that; and the brace that is found first is not in a comment itself. -/
theorem comment_shifts_method {front back comment : List Text} {start stop first : Nat}
    (isComment : IsBlockComment comment) (ended : methodEnd? (front ++ back) start = some stop)
    (declared : declarationLine (front ++ back) start < front.length) (before : front.length < stop)
    (free : commentOpen false front = false)
    (keeps : ∀ line ∈ front[declarationLine (front ++ back) start]?, KeepsArguments line)
    (body : BodyFrom (front ++ back) start first)
    (plain : commentOpen false ((front ++ back).take first) = false)
    (shown : front.length ≤ first → (∀ line ∈ comment, '\x7b' ∉ normalize line) ∨
      ∃ line ∈ comment.head?, '\x7b' ∈ normalize line) :
    methodEnd? (front ++ (comment ++ back)) start = some (stop + comment.length) := by
  rw [methodEnd?_eq_declaredLength?] at ended ⊢
  rw [declarationLine_append declared keeps]
  obtain ⟨same, -⟩ := bodyFrom_iff.mp body
  rw [headLines, ← bracelessLines] at same
  generalize declarationLine (front ++ back) start = line at *
  have short := Nat.le_of_lt declared
  rw [List.drop_append_of_le_length short] at ended same ⊢
  obtain ⟨length, found, rfl⟩ := Option.map_eq_some_iff.mp ended
  have shifted : declaredLength? (front.drop line ++ (comment ++ back)) = some (length + comment.length) := by
    by_cases braced : ∃ text ∈ front.drop line, '\x7b' ∈ normalize text
    · have within := bracelessLines_append_of_braced braced back
      rw [← List.take_append_drop line front, commentOpen_append] at free
      refine isComment.declaredLength?_behind braced free ?_ found (by rw [List.length_drop]; omega)
      rw [same, within.1, List.take_add, List.drop_append_of_le_length short,
        List.take_append_of_le_length short, List.take_append_of_le_length (Nat.le_of_lt within.2),
        commentOpen_append] at plain
      exact plain
    · have unbraced : ∀ text ∈ front.drop line, '\x7b' ∉ normalize text := by simpa using braced
      have sum : first = front.length + bracelessLines back := by
        rw [same, bracelessLines_append_of_unbraced unbraced, List.length_drop]
        omega
      rw [sum, List.take_length_add_append, commentOpen_append, free] at plain
      exact isComment.declaredLength?_before unbraced plain (shown (by omega)) found
  rw [shifted, Option.map_some, Nat.add_assoc]

/-- A comment with braces, a quote and another opening mark in it. -/
def bracedComment : List Text := ["/* \x7b", "\x7d \" /* */"]

private theorem isBlockComment_bracedComment : IsBlockComment bracedComment :=
  ⟨"/* \x7b", ["\x7d \" /* */"], " \x7b", [" \x7b"], "\x7d \" /* ", rfl, by decide, by decide, by decide⟩

theorem bracedComment_shifts_method :
    methodEnd? ["void f()", "/* \x7b", "\x7d \" /* */", "\x7b", "\x7d"] 0 = some 5 ∧
      methodEnd? ["void f()", "\x7b", "/* \x7b", "\x7d \" /* */", "\x7d"] 0 = some 5 := by
  have ended : methodEnd? ["void f()", "\x7b", "\x7d"] 0 = some 3 := by decide +kernel
  have body : BodyFrom ["void f()", "\x7b", "\x7d"] 0 1 := bodyFrom_iff.mpr (by decide +kernel)
  have declared : declarationLine ["void f()", "\x7b", "\x7d"] 0 = 0 := by decide +kernel
  have unannotated : annotationRest? (Text.trim (normalize "void f()".toList)) = none := by decide
  have keeps (more : List Text) : ∀ line ∈ ("void f()".toList :: more)[0]?, KeepsArguments line := by
    rintro line ⟨⟩ rest found
    rw [unannotated] at found
    cases found
  have early : ∃ line ∈ bracedComment.head?, '\x7b' ∈ normalize line := ⟨"/* \x7b", rfl, by decide⟩
  constructor
  · exact @comment_shifts_method ["void f()"] ["\x7b", "\x7d"] bracedComment 0 3 1
      isBlockComment_bracedComment ended (by decide +kernel) (by decide) (by decide)
      (declared ▸ keeps []) body (by decide) fun _ => .inr early
  · exact @comment_shifts_method ["void f()", "\x7b"] ["\x7d"] bracedComment 0 3 1
      isBlockComment_bracedComment ended (by decide +kernel) (by decide) (by decide)
      (declared ▸ keeps ["\x7b"]) body (by decide) fun late => absurd late (by decide)

/-- Before the first opening brace, one that stands behind the first line of a comment is taken for it. -/
theorem comment_brace_counts :
    methodEnd? ["void f()", "\x7b", "\x7d"] 0 = some 3 ∧
      methodEnd? ["void f()", "/*", "\x7b */", "\x7b", "\x7d"] 0 = none := by
  decide +kernel

end ReadOnlyViews.Java
