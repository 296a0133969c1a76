import ReadOnlyViews.Proofs.CommentedMethods
import ReadOnlyViews.ReadOnly.Conversion

/-!
Removal by signature from a whole class.  A method goes from its signature to its closing brace; the
annotations above the signature stay, and then stand above whatever follows.  So the members that
go have to be without annotations of their own for the rest to be as it was.
-/

namespace ReadOnlyViews.Java

/-! ## Signatures that open a body -/

/-- A signature that opens the body of a method: what counts of it ends with its only opening brace,
and the arguments of an annotation that it begins with end on its line. -/
structure OpensBody (signature : Text) : Prop where
  ends : ∃ front, Text.trim (normalize signature) = front ++ ['\x7b'] ∧ '\x7b' ∉ front
  keeps : KeepsArguments signature

theorem OpensBody.exists_normalize {signature : Text} (opens : OpensBody signature) :
    ∃ lead trail, normalize signature = lead ++ '\x7b' :: trail ∧ '\x7b' ∉ lead ∧
      ∀ c ∈ trail, isBlank c = true := by
  obtain ⟨front, trimmed, single⟩ := opens.ends
  obtain ⟨indent, trail, indented, blank, cut⟩ := Text.exists_eq_append_trim (normalize signature)
  refine ⟨indent ++ front, trail, by rw [cut, trimmed]; simp, ?_, blank⟩
  rw [List.mem_append, not_or]
  exact ⟨Text.notMem_of_blank indented (by decide), single⟩

/-- Arguments that close leave what stands behind their last parenthesis. -/
theorem exists_of_closeParens {depth : Nat} {text tail : Text}
    (closed : closeParens depth text = .inr tail) : ∃ front, text = front ++ ')' :: tail := by
  fun_induction closeParens depth text with
  | case1 => cases closed
  | case3 =>
    cases closed
    exact ⟨[], rfl⟩
  | case2 _ _ ih | case4 _ _ _ _ ih | case5 _ _ _ _ _ ih =>
    obtain ⟨front, rfl⟩ := ih closed
    exact ⟨_ :: front, rfl⟩

/-- What ends with an opening brace still does so behind the name of an annotation. -/
theorem getLast?_annotationRest? {text rest : Text} (found : annotationRest? text = some rest)
    (braced : text.getLast? = some '\x7b') : rest.getLast? = some '\x7b' := by
  unfold annotationRest? at found
  split at found
  · next text =>
    obtain ⟨-, same⟩ := Option.ite_none_left_eq_some.mp found
    obtain rfl := Option.some.inj same
    have cut : '@' :: text = '@' :: text.takeWhile inName ++
        (text.dropWhile inName).takeWhile isBlank ++ Text.trimStart (text.dropWhile inName) := by
      rw [Text.trimStart, List.append_assoc, List.takeWhile_append_dropWhile, List.cons_append,
        List.takeWhile_append_dropWhile]
    rw [cut, List.getLast?_append] at braced
    obtain none | ⟨c, last⟩ := Option.eq_none_or_eq_some
      (Text.trimStart (text.dropWhile inName)).getLast?
    · -- Neither a name nor white space holds a brace.
      rw [none, Option.none_or] at braced
      obtain named | blank := List.mem_append.mp (List.mem_of_getLast? braced)
      · obtain same | inside := List.mem_cons.mp named
        · exact absurd same (by decide)
        · exact absurd (List.all_eq_true.mp List.all_takeWhile _ inside) (by decide)
      · exact absurd (List.all_eq_true.mp List.all_takeWhile _ blank) (by decide)
    · rw [last, Option.some_or] at braced
      exact last.trans braced
  · cases found

/-- What ends with an opening brace still does so behind an annotation. -/
theorem mem_of_annotationEnd? {rest tail : Text} {more : List Text}
    (ended : annotationEnd? rest more = some (0, tail)) (braced : rest.getLast? = some '\x7b') :
    '\x7b' ∈ tail := by
  rw [annotationEnd?] at ended
  split at ended
  · obtain ⟨closed, -⟩ | ⟨_, _, _, _, -, -, same, -⟩ := argumentsEnd?_cases ended
    · obtain ⟨front, rfl⟩ := exists_of_closeParens closed
      rw [List.getLast?_append, List.getLast?_cons] at braced
      cases behind : tail.getLast? with
      | none => simp [behind] at braced
      | some c =>
        obtain rfl : c = '\x7b' := by simpa [behind] using braced
        exact List.mem_of_getLast? behind
    · cases same
  · cases ended
    exact List.mem_of_getLast? braced

/-- A signature is no line of annotations. -/
theorem OpensBody.annotationLines_eq_zero {signature : Text} (opens : OpensBody signature) (more : List Text) :
    annotationLines 0 (signature :: more) = 0 := by
  cases found : annotationRest? (Text.trim (normalize signature)) with
  | none => simp [annotationLines, found]
  | some rest =>
    obtain ⟨tail, ended⟩ := opens.keeps.exists_tail found more
    obtain ⟨front, trimmed, -⟩ := opens.ends
    have braced := mem_of_annotationEnd? ended (getLast?_annotationRest? found (by simp [trimmed]))
    have visible : ¬ tail.all isBlank = true := fun blank =>
      Text.notMem_of_blank (List.all_eq_true.mp blank) (by decide) braced
    rw [annotationLines_cons found ended, if_neg visible]

/-! ## From a signature to the closing brace -/

private theorem inBlockComment_of_not_isComment {line : Text} (code : isComment false line = false) :
    inBlockComment false line = false := by
  rw [isComment, Bool.or_eq_false_iff] at code
  exact code.1

/-- Outside comments every line is read. -/
theorem readFrom_of_code {lines : List Text} (code : ∀ line ∈ lines, isComment false line = false) :
    readFrom false lines = lines.flatMap normalize := by
  induction lines with
  | nil => rfl
  | cons line more ih =>
    obtain ⟨here, later⟩ := List.forall_mem_cons.mp code
    rw [readFrom, inBlockComment_of_not_isComment here, (commentBehind_of_not_isComment here).2, ih later]
    rfl

private theorem braceDepth_of_blank {text : Text} (blank : ∀ c ∈ text, isBlank c = true) (depth : Nat) :
    braceDepth depth text = some depth := by
  induction text with
  | nil => rfl
  | cons c text ih =>
    obtain ⟨here, later⟩ := List.forall_mem_cons.mp blank
    have opening : c ≠ '\x7b' := by
      rintro rfl
      exact absurd here (by decide)
    have closing : c ≠ '\x7d' := by
      rintro rfl
      exact absurd here (by decide)
    unfold braceDepth
    rw [if_neg opening, if_neg closing, ih later]

/-- From a signature on, braces are counted at depth one. -/
theorem OpensBody.returnsToZero_iff {signature : Text} (opens : OpensBody signature) (rest : Text) :
    ReturnsToZero (normalize signature ++ rest) ↔
      ∃ front, front <+: rest ∧ 1 + front.count '\x7b' = front.count '\x7d' := by
  obtain ⟨lead, trail, same, unbraced, blank⟩ := opens.exists_normalize
  have opened : braceDepth 0 (normalize signature) = some 1 := by
    rw [same, braceDepth_append_of_notMem unbraced, braceDepth, if_pos rfl, braceDepth_of_blank blank]
  have read := @returnsToZero_append_iff 0 (normalize signature) rest
  rw [opened] at read
  exact read.trans (@returnsToZero_openBraces_iff 0 rest)

/-- A line that is a closing brace, white space aside. -/
abbrev IsClosing (line : Text) : Prop := Text.trim line = ['\x7d']

theorem IsClosing.exists_normalize {closing : Text} (closes : IsClosing closing) :
    ∃ indent rest, normalize closing = indent ++ '\x7d' :: rest ∧ ∀ c ∈ indent, isBlank c = true := by
  obtain ⟨indent, blanks, indented, -, cut⟩ := Text.exists_eq_append_trim closing
  obtain ⟨rest, counted⟩ := @exists_normalize_cons '\x7d' blanks (fun same => absurd same (by decide))
  rw [closes, List.singleton_append] at cut
  exact ⟨indent, rest, by rw [cut, normalize_indent indented, counted], indented⟩

private theorem IsClosing.not_isComment {closing : Text} (closes : IsClosing closing) :
    isComment false closing = false := by
  rw [isComment, closes]
  decide

section Method

variable {signature closing : Text} {body : List Text}

/-- On the closing brace the depth returns to zero. -/
theorem OpensBody.returnsToZero (opens : OpensBody signature) (closes : IsClosing closing)
    (balanced : Balanced '\x7b' '\x7d' (body.flatMap normalize))
    (code : ∀ line ∈ signature :: body, isComment false line = false) :
    ReturnsToZero (readFrom false (signature :: (body ++ [closing]))) := by
  have whole : ∀ line ∈ signature :: (body ++ [closing]), isComment false line = false := by
    simp only [List.forall_mem_cons, List.forall_mem_append] at code ⊢
    exact ⟨code.1, code.2, closes.not_isComment, by simp⟩
  obtain ⟨indent, rest, same, blank⟩ := closes.exists_normalize
  rw [readFrom_of_code whole, List.flatMap_cons, opens.returnsToZero_iff]
  refine ⟨body.flatMap normalize ++ (indent ++ ['\x7d']), by simp [same], ?_⟩
  have unopened : indent.count '\x7b' = 0 :=
    List.count_eq_zero.mpr (Text.notMem_of_blank blank (by decide))
  have unclosed : indent.count '\x7d' = 0 :=
    List.count_eq_zero.mpr (Text.notMem_of_blank blank (by decide))
  simp only [List.count_append, balanced.1, unopened, unclosed, List.count_singleton]
  simp [Nat.add_comm]

/-- Before the closing brace it does not. -/
theorem OpensBody.not_returnsToZero (opens : OpensBody signature)
    (balanced : Balanced '\x7b' '\x7d' (body.flatMap normalize))
    (code : ∀ line ∈ signature :: body, isComment false line = false) :
    ¬ ReturnsToZero (readFrom false (signature :: body)) := by
  rw [readFrom_of_code code, List.flatMap_cons, opens.returnsToZero_iff]
  rintro ⟨front, within, same⟩
  have := balanced.2 front within
  omega

/-- So the body ends with the closing brace. -/
theorem OpensBody.bodyLines?_eq (opens : OpensBody signature) (closes : IsClosing closing)
    (balanced : Balanced '\x7b' '\x7d' (body.flatMap normalize))
    (code : ∀ line ∈ signature :: body, isComment false line = false) (back : List Text) :
    bodyLines? 0 false (signature :: (body ++ closing :: back)) = some (body.length + 2) := by
  have reads (stop : Nat) :
      ReturnsToZero (readFrom false ((signature :: (body ++ closing :: back)).take stop)) ↔
        ∃ count ≤ stop, bodyLines? 0 false (signature :: (body ++ closing :: back)) = some count :=
    @returnsToZero_take_iff 0 stop _ _
  have closed := reads (body.length + 2)
  have unclosed := reads (body.length + 1)
  rw [show (signature :: (body ++ closing :: back)).take (body.length + 2) =
    signature :: (body ++ [closing]) by simp [List.take_append]] at closed
  rw [show (signature :: (body ++ closing :: back)).take (body.length + 1) = signature :: body by simp]
    at unclosed
  obtain ⟨count, within, found⟩ := closed.mp (opens.returnsToZero closes balanced code)
  have late : ¬ count ≤ body.length + 1 := fun early =>
    opens.not_returnsToZero balanced code (unclosed.mpr ⟨count, early, found⟩)
  rw [found, show count = body.length + 2 by omega]

private theorem OpensBody.methodLength?_eq (opens : OpensBody signature) (closes : IsClosing closing)
    (balanced : Balanced '\x7b' '\x7d' (body.flatMap normalize))
    (code : ∀ line ∈ signature :: body, isComment false line = false) (back : List Text) :
    methodLength? (signature :: (body ++ closing :: back)) = some (body.length + 2) := by
  obtain ⟨lead, trail, same, -⟩ := opens.exists_normalize
  have braced : '\x7b' ∈ normalize signature := by simp [same]
  rw [← methodEnd?_zero, methodEnd?_eq_declaredLength?, declarationLine, List.drop_zero,
    opens.annotationLines_eq_zero, List.drop_zero, declaredLength?_cons_of_braced braced,
    opens.bodyLines?_eq closes balanced code]
  simp

end Method

/-! ## Classes -/

/-- A method of a class, with the blank lines behind it: annotations without braces, each on a line of
its own, a signature that opens a body, lines with balanced braces and the closing brace. -/
structure Member where
  annotations : List Text
  signature : Text
  body : List Text
  closing : Text
  gap : List Text
  annotated : ∀ line ∈ annotations,
    (Text.trim line).head? = some '@' ∧ '\x7b' ∉ line ∧ '\x7d' ∉ line
  opens : OpensBody signature
  balanced : Balanced '\x7b' '\x7d' (body.flatMap normalize)
  closes : IsClosing closing
  blank : ∀ line ∈ gap, line.all isBlank = true
  uncommented : ∀ line ∈ signature :: body, isComment false line = false

/-- The lines of a method, from its annotations to its closing brace. -/
def Member.lines (member : Member) : List Text :=
  member.annotations ++ member.signature :: (member.body ++ [member.closing])

/-- A class without comments: the lines in front of its methods, these, and the closing brace. -/
structure ClassLines where
  head : List Text
  members : List Member
  closing : Text
  uncommented : ∀ line ∈ head, isComment false line = false
  closes : IsClosing closing

namespace ClassLines

/-- The lines of a class of whose methods only some lines are left. -/
def showing (source : ClassLines) (shown : Member → List Text) : List Text :=
  source.head ++ source.members.flatMap (fun member => shown member ++ member.gap) ++ [source.closing]

/-- The lines of a class. -/
def lines (source : ClassLines) : List Text := source.showing Member.lines

/-- No line passes a test but signatures of methods. -/
structure OnlySignaturesPass (test : LineTest) (source : ClassLines) : Prop where
  head : ∀ line ∈ source.head, test line = false
  members : ∀ member ∈ source.members,
    ∀ line ∈ member.annotations ++ member.body ++ member.closing :: member.gap, test line = false
  closing : test source.closing = false

end ClassLines

private theorem not_isComment_of_marked {line : Text} (marked : (Text.trim line).head? = some '@') :
    isComment false line = false := by
  obtain ⟨rest, same⟩ := List.head?_eq_some_iff.mp marked
  have opening : "/*".toList = ['/', '*'] := by decide
  have own : "//".toList = ['/', '/'] := by decide
  rw [isComment, same, opening, own]
  simp [Text.after?, List.isPrefixOf]

private theorem not_isComment_of_blank {line : Text} (blank : line.all isBlank = true) :
    isComment false line = false := by
  rw [← Text.isEmpty_trim, List.isEmpty_iff] at blank
  rw [isComment, blank]
  decide

/-! ## What a removal leaves of a class -/

/-- A removal over lines that gets to their end and leaves some of them. -/
def LeavesLines (test : LineTest) (lines kept : List Text) : Prop :=
  ∀ index, (removeFrom test 0 false index lines).kept = kept ∧
    (removeFrom test 0 false index lines).stuckAt = none

namespace LeavesLines

variable {test : LineTest} {front back kept : List Text}

theorem nil (test : LineTest) : LeavesLines test [] [] := fun _ => ⟨rfl, rfl⟩

/-- Lines of code that do not pass the test are left. -/
theorem append (leaves : LeavesLines test back kept)
    (code : ∀ line ∈ front, isComment false line = false)
    (fails : ∀ line ∈ front, test line = false) : LeavesLines test (front ++ back) (front ++ kept) := by
  induction front with
  | nil => exact leaves
  | cons line front ih =>
    rw [List.forall_mem_cons] at code fails
    intro index
    obtain ⟨same, unstuck⟩ := ih code.2 fails.2 (index + 1)
    rw [List.cons_append, removeFrom_cons, if_pos (by simp [fails.1]),
      (commentBehind_of_not_isComment code.1).2]
    exact ⟨congrArg (line :: ·) same, unstuck⟩

/-- A method whose first line passes the test goes. -/
theorem cut {first : Text} {more : List Text} (leaves : LeavesLines test back kept)
    (code : isComment false first = false) (passes : test first = true)
    (length : methodLength? (first :: (more ++ back)) = some (more.length + 1)) :
    LeavesLines test (first :: (more ++ back)) kept := by
  intro index
  rw [removeFrom_cons, if_neg (by simp [code, passes]), length]
  simp only [Nat.add_sub_cancel, removeFrom_skip test more.length, List.drop_left]
  exact leaves _

/-- One method of a class: if it goes, its annotations stay. -/
theorem member {member : Member} (leaves : LeavesLines test back kept)
    (fails : ∀ line ∈ member.annotations ++ member.body ++ member.closing :: member.gap,
      test line = false) :
    LeavesLines test (member.lines ++ member.gap ++ back)
      ((if test member.signature then member.annotations else member.lines) ++ member.gap ++ kept) := by
  simp only [List.forall_mem_append, List.forall_mem_cons] at fails
  obtain ⟨⟨annotations, body⟩, closing, gap⟩ := fails
  have behind := leaves.append (fun line inside => not_isComment_of_blank (member.blank line inside)) gap
  have annotated : ∀ line ∈ member.annotations, isComment false line = false := fun line inside =>
    not_isComment_of_marked (member.annotated line inside).1
  have code := List.forall_mem_cons.mp member.uncommented
  split
  · next passes =>
    have goes := member.opens.methodLength?_eq member.closes member.balanced member.uncommented
      (member.gap ++ back)
    have cut := @LeavesLines.cut test _ _ member.signature (member.body ++ [member.closing]) behind
      code.1 passes (by simpa using goes)
    simpa [Member.lines] using cut.append annotated annotations
  · next fails =>
    have lines : ∀ line ∈ member.lines, isComment false line = false ∧ test line = false := by
      simp only [Member.lines, List.forall_mem_append, List.forall_mem_cons]
      exact ⟨fun line inside => ⟨annotated line inside, annotations line inside⟩,
        ⟨code.1, by simpa using fails⟩, fun line inside => ⟨code.2 line inside, body line inside⟩,
        ⟨member.closes.not_isComment, closing⟩, by simp⟩
    simpa using behind.append (fun line inside => (lines line inside).1)
      fun line inside => (lines line inside).2

/-- The methods of a class, one behind the other. -/
theorem members {members : List Member} (leaves : LeavesLines test back kept)
    (fails : ∀ member ∈ members,
      ∀ line ∈ member.annotations ++ member.body ++ member.closing :: member.gap, test line = false) :
    LeavesLines test (members.flatMap (fun member => member.lines ++ member.gap) ++ back)
      (members.flatMap (fun member =>
        (if test member.signature then member.annotations else member.lines) ++ member.gap) ++ kept) := by
  induction members with
  | nil => exact leaves
  | cons first members ih =>
    rw [List.forall_mem_cons] at fails
    simpa using (ih fails.2).member fails.1

/-- What a removal leaves of a class. -/
theorem classLines {source : ClassLines} (only : source.OnlySignaturesPass test) :
    LeavesLines test source.lines (source.showing fun member =>
      if test member.signature then member.annotations else member.lines) := by
  have last : LeavesLines test [source.closing] [source.closing] :=
    (nil test).append (List.forall_mem_singleton.mpr source.closes.not_isComment)
      (List.forall_mem_singleton.mpr only.closing)
  have whole := (last.members only.members).append source.uncommented only.head
  rwa [← List.append_assoc, ← List.append_assoc] at whole

/-- From lines to texts. -/
theorem lines_removeMethods {text : Text} (leaves : LeavesLines test (Document.lines text) kept)
    (some_ : kept ≠ []) :
    (removeMethods test text).outcome ≠ .failed ∧
      Document.lines (removeMethods test text).text = kept := by
  obtain ⟨same, unstuck⟩ := leaves 0
  refine ⟨fun failed => outcome_eq_failed_iff.mp failed unstuck, ?_⟩
  have sub := kept_sublist test 0 false 0 (Document.lines text)
  rw [same] at sub
  rw [removeMethods_text, same]
  exact ((Document.separable_lines text).of_sublist sub).lines_render some_

end LeavesLines

/-- A removal whose test only signatures pass takes, of each method whose signature does, the lines
from the signature to the closing brace, and no other line of the class.  So it leaves the lines of
the other methods and nothing else, if those that go have no annotations above their signature. -/
theorem removal_leaves_other_members {test : LineTest} {source : ClassLines} {text : Text}
    (written : Document.lines text = source.lines) (only : source.OnlySignaturesPass test) :
    (removeMethods test text).outcome ≠ .failed ∧
      Document.lines (removeMethods test text).text = source.showing (fun member =>
        if test member.signature then member.annotations else member.lines) ∧
      ((∀ member ∈ source.members, test member.signature = true → member.annotations = []) →
        Document.lines (removeMethods test text).text = source.showing fun member =>
          if test member.signature then [] else member.lines) := by
  have leaves := LeavesLines.classLines only
  rw [← written] at leaves
  obtain ⟨fine, same⟩ := leaves.lines_removeMethods (by simp [ClassLines.showing])
  refine ⟨fine, same, fun bare => same.trans ?_⟩
  have shown (member) (inside : member ∈ source.members) :
      (if test member.signature then member.annotations else member.lines) =
        if test member.signature then [] else member.lines := by
    split
    · next passes => exact bare member inside passes
    · rfl
  simp only [ClassLines.showing]
  rw [List.flatMap_congr fun member inside => by rw [shown member inside]]

/-- A method that changes data, with a block in its body. -/
def savingMember : Member where
  annotations := []
  signature := "public A save() \x7b"
  body := ["if (a) \x7b", "\x7d"]
  closing := "\x7d"
  gap := [""]
  annotated := by simp
  opens := ⟨⟨"public A save() ", by decide, by decide⟩, by
    intro rest found
    rw [show annotationRest? (Text.trim (normalize "public A save() \x7b")) = none by decide] at found
    cases found⟩
  balanced := by decide
  closes := by decide
  blank := by decide
  uncommented := by decide

/-- A method that reads data, with an annotation. -/
def readingMember : Member where
  annotations := ["@B"]
  signature := "A get() \x7b"
  body := []
  closing := "\x7d"
  gap := []
  annotated := by decide
  opens := ⟨⟨"A get() ", by decide, by decide⟩, by
    intro rest found
    rw [show annotationRest? (Text.trim (normalize "A get() \x7b")) = none by decide] at found
    cases found⟩
  balanced := by decide
  closes := by decide
  blank := by decide
  uncommented := by decide

/-- A class with both. -/
def savingClass : ClassLines where
  head := ["class A \x7b"]
  members := [savingMember, readingMember]
  closing := "\x7d"
  uncommented := by decide
  closes := by decide

/-- The signature of a method that saves. -/
def savePattern : Pattern := ReadOnly.publicMethod (.run1 fun c => !isBlank c) "save"

theorem savingClass_leaves_other_members :
    ("save".toList, savePattern) ∈ ReadOnly.mutatingSignatures ∧
      Document.lines (removeMethods (holdsSignature savePattern)
        (Text.join "\n" savingClass.lines)).text =
          ["class A \x7b", "", "@B", "A get() \x7b", "\x7d", "\x7d"] := by
  have written : Document.lines (Text.join "\n" savingClass.lines) = savingClass.lines := by decide +kernel
  have only : savingClass.OnlySignaturesPass (holdsSignature savePattern) :=
    ⟨by decide +kernel, by decide +kernel, by decide +kernel⟩
  have leaves := (removal_leaves_other_members written only).2.2 (by decide +kernel)
  exact ⟨List.mem_cons_self, leaves.trans (by decide +kernel)⟩

/-- The annotation of a method that went stands above the next one; and a brace among the parameters
ends a method on its first line. -/
theorem removal_orphans_annotation :
    (removeMethods (holdsSignature savePattern)
      "class A \x7b\n@B\npublic A save() \x7b\n\x7d\n\nA get() \x7b\n\x7d\n\x7d").text =
        "class A \x7b\n@B\n\nA get() \x7b\n\x7d\n\x7d".toList ∧
      (removeMethods (holdsSignature savePattern)
        "class A \x7b\npublic A save(@B(\x7b\x7d) A a) \x7b\na();\n\x7d\n\x7d").text =
          "class A \x7b\na();\n\x7d\n\x7d".toList := by
  decide +kernel

end ReadOnlyViews.Java
