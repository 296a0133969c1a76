import ReadOnlyViews.Proofs.LineTokens
import ReadOnlyViews.Proofs.MethodRemovals

/-!
Annotations in front of a method.  An annotation is a name, perhaps with arguments that go on over
several lines; it is passed over before the braces of the method are counted.
-/

namespace ReadOnlyViews.Java

/-! ## Names -/

/-- The characters of an annotation's name. -/
def inName (c : Char) : Bool := isWord c || c == '.'

/-- The name of an annotation: words and points, but not the keyword that declares an annotation
type. -/
structure IsName (name : Text) : Prop where
  nonempty : name ≠ []
  letters : ∀ c ∈ name, inName c = true
  unreserved : name.takeWhile (· != '.') ≠ "interface".toList

private theorem inName_of_isBlank {c : Char} (blank : isBlank c = true) : inName c = false := by
  have point : c ≠ '.' := by
    rintro rfl
    exact absurd blank (by decide)
  simp [inName, isWord_of_isBlank blank, point]

private theorem isBlank_of_inName {c : Char} (named : inName c = true) : isBlank c = false := by
  cases blank : isBlank c with
  | false => rfl
  | true => simp [inName_of_isBlank blank] at named

/-- A name that starts with the reserved word goes on with another character of the word. -/
theorem IsName.word_goes_on {name rest tail : Text} (named : IsName name)
    (separate : rest.head?.any inName = false) (same : name ++ rest = "interface".toList ++ tail) :
    tail.head?.any isWord = true := by
  have letters : "interface".toList.all inName = true := by decide
  have pointless : "interface".toList.takeWhile (· != '.') = "interface".toList := by decide
  have unreserved := named.unreserved
  generalize "interface".toList = reserved at *
  have unequal : name ≠ reserved := by
    rintro rfl
    exact unreserved pointless
  obtain ⟨more, rfl, rfl⟩ | ⟨more, rfl, rfl⟩ := List.append_eq_append_iff.mp same
  · -- The name is a part of the word, so what follows it would belong to the name.
    cases more with
    | nil => exact absurd (List.append_nil name).symm unequal
    | cons c more => simp_all
  · cases more with
    | nil => exact absurd (List.append_nil reserved) unequal
    | cons c more =>
      have letter : inName c = true := named.letters c (by simp)
      by_cases point : c = '.'
      · subst point
        refine absurd ?_ unreserved
        rw [List.takeWhile_append, pointless]
        simp
      · simpa [inName, point] using letter

/-- What follows a name, when nothing of it could belong to the name. -/
theorem annotationRest?_name {name rest : Text} (named : IsName name)
    (separate : rest.head?.any inName = false) :
    annotationRest? ('@' :: (name ++ rest)) = some (Text.trimStart rest) := by
  have first : (name ++ rest).head?.any inName = true := by
    obtain ⟨c, name, rfl⟩ := List.exists_cons_of_ne_nil named.nonempty
    simpa using named.letters c (by simp)
  have past : (name ++ rest).dropWhile inName = rest := by
    rw [List.dropWhile_append_of_pos named.letters]
    cases rest <;> simp_all
  change (if _ || !(name ++ rest).head?.any inName then none
    else some (Text.trimStart ((name ++ rest).dropWhile inName))) = _
  rw [first, past, if_neg]
  split
  · next tail found =>
    simp [named.word_goes_on separate (Text.after?_eq_some_iff.mp found)]
  · decide

/-! ## Arguments -/

/-- As many closing marks as opening ones, and never more of them from the left. -/
def Balanced (opening closing : Char) (text : Text) : Prop :=
  text.count opening = text.count closing ∧
    ∀ front, front <+: text → front.count closing ≤ front.count opening

instance (opening closing : Char) (text : Text) : Decidable (Balanced opening closing text) :=
  decidable_of_iff (text.count opening = text.count closing ∧
    ∀ front ∈ text.inits, front.count closing ≤ front.count opening) (by simp [Balanced])

/-- Parentheses do not close from a depth on: at every place one of them is open. -/
def StaysOpen (depth : Nat) (text : Text) : Prop :=
  ∀ front, front <+: text → front.count ')' < depth + front.count '('

private theorem closeParens_of_staysOpen {depth : Nat} {text : Text} (stays : StaysOpen depth text) :
    closeParens depth text = .inl (depth + text.count '(' - text.count ')') := by
  induction text generalizing depth with
  | nil => rfl
  | cons c text ih =>
    have next (front : Text) (within : front <+: text) := stays (c :: front) (by simpa using within)
    rw [closeParens]
    split
    · next opens =>
      subst opens
      rw [ih fun front within => by simpa [Nat.add_assoc, Nat.add_comm 1] using next front within]
      simp [Nat.add_assoc, Nat.add_comm 1]
    · split
      · next _ closes =>
        subst closes
        have deep := next [] List.nil_prefix
        simp at deep
        rw [if_neg (by omega), ih]
        · simp
          omega
        · intro front within
          have := next front within
          simp at this
          omega
      · next unopened unclosed =>
        rw [ih]
        · simp [unopened, unclosed]
        · intro front within
          simpa [unopened, unclosed] using next front within

private theorem closeParens_append (depth : Nat) (front back : Text) :
    closeParens depth (front ++ back) =
      (closeParens depth front).elim (fun behind => closeParens behind back)
        (fun tail => .inr (tail ++ back)) := by
  fun_induction closeParens depth front with
  | case1 => rfl
  | case2 depth rest ih => rw [← ih, List.cons_append, closeParens, if_pos rfl]
  | case3 depth rest shallow _ =>
    rw [List.cons_append, closeParens, if_neg (by decide), if_pos rfl, if_pos shallow]
    rfl
  | case4 depth rest deep _ ih =>
    rw [← ih, List.cons_append, closeParens, if_neg (by decide), if_pos rfl, if_neg deep]
  | case5 depth c rest unopened unclosed ih => simp [closeParens, unopened, unclosed, ih]

private theorem closeParens_of_blank {text : Text} (blank : ∀ c ∈ text, isBlank c = true) (depth : Nat) :
    closeParens depth text = .inl depth := by
  induction text with
  | nil => rfl
  | cons c text ih =>
    have first := blank c (by simp)
    have unopened : c ≠ '(' := by rintro rfl; exact absurd first (by decide)
    have unclosed : c ≠ ')' := by rintro rfl; exact absurd first (by decide)
    simp only [closeParens, unopened, unclosed, if_false]
    exact ih fun d member => blank d (by simp [member])

section Arguments

variable {depth other used : Nat} {rest text tail line : Text} {more : List Text}

/-- Only the parentheses of the first line matter. -/
theorem argumentsEnd?_congr (same : closeParens depth rest = closeParens other text) :
    argumentsEnd? depth rest more = argumentsEnd? other text more := by
  unfold argumentsEnd?
  rw [same]

theorem argumentsEnd?_of_closed (closed : closeParens depth rest = .inr tail) :
    argumentsEnd? depth rest more = some (0, tail) := by
  unfold argumentsEnd?
  rw [closed]

theorem argumentsEnd?_of_open (opened : closeParens depth rest = .inl other)
    (ended : argumentsEnd? other (normalize line) more = some (used, tail)) :
    argumentsEnd? depth rest (line :: more) = some (used + 1, tail) := by
  unfold argumentsEnd?
  rw [opened]
  simp only [ended]
  rfl

/-- White space at the end of the first line has no part in where arguments end. -/
theorem argumentsEnd?_trimEnd (ended : argumentsEnd? depth rest more = some (used, tail)) :
    ∃ trimmed, argumentsEnd? depth (Text.trimEnd rest) more = some (used, trimmed) ∧
      trimmed.all isBlank = tail.all isBlank := by
  obtain ⟨blanks, blank, whole⟩ := Text.exists_eq_trimEnd_append rest
  have parens := closeParens_append depth (Text.trimEnd rest) blanks
  rw [← whole] at parens
  cases closed : closeParens depth (Text.trimEnd rest) with
  | inl open_ =>
    rw [closed, Sum.elim_inl, closeParens_of_blank blank] at parens
    exact ⟨tail, (argumentsEnd?_congr (closed.trans parens.symm)).trans ended, rfl⟩
  | inr trimmed =>
    rw [closed, Sum.elim_inr] at parens
    rw [argumentsEnd?_of_closed parens] at ended
    cases ended
    exact ⟨trimmed, argumentsEnd?_of_closed closed, by simpa using fun _ => blank⟩

/-- Arguments that stay open on all lines before the last one end with the closing parenthesis
there. -/
theorem argumentsEnd?_of_staysOpen {front lines : List Text} {closing after : Text}
    (spread : rest :: lines.map normalize = front ++ [closing ++ ')' :: after])
    (stays : StaysOpen depth (front.flatten ++ closing))
    (balanced : depth + (front.flatten ++ closing).count '(' =
      1 + (front.flatten ++ closing).count ')') (further : List Text) :
    argumentsEnd? depth rest (lines ++ further) = some (lines.length, after) := by
  induction front generalizing depth rest lines with
  | nil =>
    obtain ⟨rfl, none⟩ := List.cons.inj spread
    obtain rfl := List.map_eq_nil_iff.mp none
    rw [List.flatten_nil, List.nil_append] at stays balanced
    refine argumentsEnd?_of_closed ?_
    have last : closeParens depth closing = .inl 1 := by
      rw [closeParens_of_staysOpen stays, balanced, Nat.add_sub_cancel]
    rw [closeParens_append, last]
    rfl
  | cons first front ih =>
    obtain ⟨rfl, others⟩ := List.cons.inj spread
    cases lines with
    | nil => simp at others
    | cons line lines =>
      rw [List.flatten_cons, List.append_assoc] at stays balanced
      have start : StaysOpen depth rest := fun part within =>
        stays part (within.trans (List.prefix_append _ _))
      have later : StaysOpen (depth + rest.count '(' - rest.count ')') (front.flatten ++ closing) := by
        intro part within
        have whole := start rest (List.prefix_refl _)
        have behind := stays (rest ++ part) ((List.prefix_append_right_inj rest).mpr within)
        simp only [List.count_append] at behind
        omega
      have same := start rest (List.prefix_refl _)
      refine argumentsEnd?_of_open (closeParens_of_staysOpen start) (ih others later ?_)
      simp only [List.count_append] at balanced ⊢
      omega

end Arguments

/-! ## Annotations on lines -/

/-- Lines with an annotation, by what counts of each, and what follows the annotation on the last
line.  Arguments start on the line of the name; they may go on over further lines, and what stands in
them is balanced. -/
inductive Annotates : (lines : List Text) → (after : Text) → Prop where
  | bare {indent name after : Text} (indented : ∀ c ∈ indent, isBlank c = true) (named : IsName name)
      (separate : after.head?.any inName = false) (uncalled : (Text.trimStart after).head? ≠ some '(') :
      Annotates [indent ++ '@' :: (name ++ after)] after
  | called {indent name gap first closing after : Text} {more front : List Text}
      (indented : ∀ c ∈ indent, isBlank c = true) (named : IsName name)
      (spaced : ∀ c ∈ gap, isBlank c = true)
      (spread : first :: more = front ++ [closing ++ ')' :: after])
      (balanced : Balanced '(' ')' (front.flatten ++ closing)) :
      Annotates ((indent ++ '@' :: (name ++ (gap ++ '(' :: first))) :: more) after

theorem annotationLines_skip (skip : Nat) {lines : List Text} (within : skip ≤ lines.length) :
    annotationLines skip lines = skip + annotationLines 0 (lines.drop skip) := by
  induction skip generalizing lines with
  | zero => simp
  | succ skip ih =>
    cases lines with
    | nil => simp at within
    | cons line more =>
      rw [annotationLines, ih (by simpa using within), List.drop_succ_cons]
      omega

/-- The first line of an annotation, behind its name. -/
theorem annotationRest?_trim {indent name after : Text} (indented : ∀ c ∈ indent, isBlank c = true)
    (named : IsName name) (separate : after.head?.any inName = false) :
    annotationRest? (Text.trim (indent ++ '@' :: (name ++ after))) =
      some (Text.trimStart (Text.trimEnd after)) := by
  have trimmed : Text.trim (indent ++ '@' :: (name ++ after)) = '@' :: (name ++ Text.trimEnd after) := by
    obtain ⟨init, last, rfl⟩ := List.eq_nil_or_concat name |>.resolve_left named.nonempty
    have visible : isBlank last = false := isBlank_of_inName (named.letters last (by simp))
    rw [Text.trim_indent_cons indented (by decide)]
    simpa using Text.trimEnd_append_cons visible init after
  rw [trimmed]
  refine annotationRest?_name named ?_
  obtain ⟨blanks, -, whole⟩ := Text.exists_eq_trimEnd_append after
  cases first : Text.trimEnd after with
  | nil => rfl
  | cons c rest =>
    rw [first] at whole
    simpa [whole] using separate

private theorem head?_trimStart_trimEnd {text : Text} {c : Char}
    (starts : (Text.trimStart (Text.trimEnd text)).head? = some c) :
    (Text.trimStart text).head? = some c := by
  obtain ⟨blanks, -, whole⟩ := Text.exists_eq_trimEnd_append text
  obtain ⟨rest, same⟩ := List.head?_eq_some_iff.mp starts
  rw [whole, Text.trimStart, List.dropWhile_append, ← Text.trimStart, same]
  rfl

/-- Where an annotation ends, by what follows its name: how many further lines its arguments take,
and what is left of the last one. -/
def annotationEnd? (rest : Text) (more : List Text) : Option (Nat × Text) :=
  if rest.head? = some '(' then argumentsEnd? 0 rest more else some (0, rest)

theorem annotationLines_cons {line rest tail : Text} {more : List Text} {used : Nat}
    (found : annotationRest? (Text.trim (normalize line)) = some rest)
    (ended : annotationEnd? rest more = some (used, tail)) :
    annotationLines 0 (line :: more) =
      if tail.all isBlank then annotationLines used more + 1 else used := by
  rw [annotationEnd?] at ended
  rw [annotationLines, found]
  simp only [ended, Text.isEmpty_trim]

/-- An annotation takes its lines, unless something follows on the last one. -/
theorem annotationLines_of_annotates {tag more : List Text} {after : Text}
    (annotates : Annotates (tag.map normalize) after) :
    annotationLines 0 (tag ++ more) =
      if after.all isBlank then tag.length + annotationLines 0 more
      else tag.length - 1 := by
  generalize codes : tag.map normalize = lines at annotates
  cases annotates with
  | bare indented named separate uncalled =>
    obtain ⟨line, rfl, counted⟩ := List.map_eq_singleton_iff.mp codes
    have found := annotationRest?_trim indented named separate
    rw [← counted] at found
    rw [List.singleton_append, annotationLines_cons found
      (if_neg fun starts => uncalled (head?_trimStart_trimEnd starts))]
    simp [Nat.add_comm]
  | @called indent name gap first closing after others front indented named spaced spread balanced =>
    obtain ⟨line, lines, rfl, counted, rfl⟩ := List.map_eq_cons_iff.mp codes
    have separate : (gap ++ '(' :: first).head?.any inName = false := by
      cases gap with
      | nil => exact show inName '(' = false by decide
      | cons c gap => simpa using inName_of_isBlank (spaced c (by simp))
    have found := annotationRest?_trim indented named separate
    rw [← counted, Text.trimEnd_append_cons (by decide), Text.trimStart_append_of_blank spaced,
      Text.trimStart, List.dropWhile_cons_of_neg (by decide)] at found
    have stays : StaysOpen 1 (front.flatten ++ closing) := fun part within => by
      have := balanced.2 part within
      omega
    have ended := argumentsEnd?_of_staysOpen spread stays (congrArg (1 + ·) balanced.1) more
    obtain ⟨trimmed, ended, blank⟩ := argumentsEnd?_trimEnd ended
    have opened : closeParens 0 ('(' :: Text.trimEnd first) = closeParens 1 (Text.trimEnd first) := rfl
    rw [List.cons_append, annotationLines_cons found
      ((if_pos rfl).trans ((argumentsEnd?_congr opened).trans ended)), blank,
      annotationLines_skip _ (by simp), List.drop_left]
    simp [Nat.add_right_comm]

/-- What follows an annotation may have more behind it, if that does not become a part of the name or
its arguments. -/
theorem Annotates.extend {front : List Text} {last trail more : Text}
    (annotates : Annotates (front ++ [last]) trail)
    (bare : ')' ∉ last → (trail ++ more).head?.any inName = false ∧
      (Text.trimStart (trail ++ more)).head? ≠ some '(') (blank : ∀ c ∈ trail, isBlank c = true) :
    Annotates (front ++ [last ++ more]) (trail ++ more) := by
  generalize whole : front ++ [last] = lines at annotates
  cases annotates with
  | @bare indent name _ indented named _ _ =>
    obtain ⟨rfl, same⟩ := List.append_eq_singleton_iff.mp whole |>.resolve_right (by simp)
    obtain rfl := List.singleton_inj.mp same
    have uncalled : ')' ∉ indent ++ '@' :: (name ++ trail) := by
      have visible (part : Text) (spaces : ∀ c ∈ part, isBlank c = true) : ')' ∉ part := fun member =>
        absurd (spaces _ member) (by decide)
      have letters : ')' ∉ name := fun member => absurd (named.letters _ member) (by decide)
      simp [visible indent indented, visible trail blank, letters]
    obtain ⟨separate, uncalled⟩ := bare uncalled
    simpa using Annotates.bare indented named separate uncalled
  | @called indent name gap first closing _ others start indented named spaced spread balanced =>
    cases start with
    | nil =>
      obtain ⟨rfl, rfl⟩ := List.cons.inj spread
      obtain ⟨rfl, same⟩ := List.append_eq_singleton_iff.mp whole |>.resolve_right (by simp)
      obtain rfl := List.singleton_inj.mp same
      have longer := @Annotates.called _ _ _ _ _ (trail ++ more) [] [] indented named spaced rfl balanced
      simpa using longer
    | cons _ start =>
      obtain ⟨rfl, rfl⟩ := List.cons.inj spread
      obtain ⟨rfl, rfl⟩ := List.append_singleton_inj.mp (whole.trans (List.cons_append).symm)
      have longer := @Annotates.called _ _ _ _ _ (trail ++ more) _ (first :: start) indented named spaced
        rfl balanced
      simpa using longer

/-! ## Methods behind annotations -/

/-- A line that starts a declaration: it begins with no annotation and no comment. -/
structure StartsDeclaration (line : Text) : Prop where
  visible : line.all isBlank = false
  unannotated : annotationRest? (Text.trim (normalize line)) = none
  uncommented : isComment false line = false

/-- The first visible character of a declaration is the first one that counts. -/
theorem StartsDeclaration.exists_normalize {line : Text} (starts : StartsDeclaration line) :
    ∃ indent c rest counted, line = indent ++ c :: rest ∧ normalize line = indent ++ c :: counted ∧
      (∀ d ∈ indent, isBlank d = true) ∧ isBlank c = false := by
  obtain ⟨indent, c, rest, rfl, blank, shown⟩ := Text.exists_visible starts.visible
  have single : c = '/' → rest.head? ≠ some '/' := by
    rintro rfl next
    obtain ⟨behind, rfl⟩ := List.head?_eq_some_iff.mp next
    have trimmed := Text.trimEnd_append_cons shown [] behind
    have code := starts.uncommented
    rw [isComment, Text.trim_indent_cons blank shown] at code
    simp_all
  obtain ⟨counted, same⟩ := exists_normalize_cons single
  exact ⟨indent, c, rest, counted, rfl, by rw [normalize_indent blank, same], blank, shown⟩

/-- An annotation as it is written on lines, with what they are read as.  What counts of the lines
ends with the annotation. -/
structure IsAnnotation (lines : List Text) (readings : List Reading) : Prop where
  read : lines.map reading? = readings.map some
  oneLine : ∀ line ∈ lines, '\n' ∉ line
  apart : ∀ reading ∈ readings, QuotesApart reading.tokens reading.comment
  annotates : ∃ trail, (∀ c ∈ trail, isBlank c = true) ∧
    Annotates (readings.map fun reading => countedOf reading.tokens) trail

/-- The last line of an annotation, read as tokens, can be continued by a declaration: it has no
opening brace and neither starts nor ends with a comment, and what follows does not become a part of
the annotation. -/
structure Joins (last declaration : Text) (tokens : List Token) : Prop where
  read : reading? last = some ⟨tokens, []⟩
  unbraced : '\x7b' ∉ countedOf tokens
  uncommented : inBlockComment false last = false
  apart : QuotesApart tokens declaration
  separate : ')' ∈ countedOf tokens ∨
    (last.getLast?.any isBlank = true ∨ declaration.head?.any isBlank = true) ∧
      (Text.trimStart declaration).head? ≠ some '('

/-- An annotation ends with a parenthesis or a character of its name. -/
theorem Annotates.exists_last {front : List Text} {last trail : Text}
    (annotates : Annotates (front ++ [last]) trail) :
    ∃ lead c, last = lead ++ c :: trail ∧ (c = ')' ∨ inName c = true) := by
  generalize whole : front ++ [last] = lines at annotates
  cases annotates with
  | @bare indent name _ _ named _ _ =>
    obtain ⟨rfl, same⟩ := List.append_eq_singleton_iff.mp whole |>.resolve_right (by simp)
    obtain rfl := List.singleton_inj.mp same
    obtain ⟨init, c, rfl⟩ := List.eq_nil_or_concat name |>.resolve_left named.nonempty
    exact ⟨indent ++ '@' :: init, c, by simp, .inr (named.letters c (by simp))⟩
  | @called indent name gap first closing _ others start _ _ _ spread _ =>
    cases start with
    | nil =>
      obtain ⟨rfl, rfl⟩ := List.cons.inj spread
      obtain ⟨rfl, same⟩ := List.append_eq_singleton_iff.mp whole |>.resolve_right (by simp)
      obtain rfl := List.singleton_inj.mp same
      exact ⟨indent ++ '@' :: (name ++ (gap ++ '(' :: closing)), ')', by simp, .inl rfl⟩
    | cons _ start =>
      obtain ⟨rfl, rfl⟩ := List.cons.inj spread
      obtain ⟨rfl, rfl⟩ := List.append_singleton_inj.mp (whole.trans (List.cons_append).symm)
      exact ⟨closing, ')', rfl, .inl rfl⟩

private theorem Annotates.getLast?_ne {front : List Text} {last trail : Text}
    (annotates : Annotates (front ++ [last]) trail) (blank : ∀ c ∈ trail, isBlank c = true) :
    last.getLast? ≠ some '/' := by
  obtain ⟨lead, c, rfl, ends⟩ := annotates.exists_last
  rw [List.getLast?_append_of_ne_nil _ (by simp)]
  intro slash
  obtain rfl | inside := List.mem_cons.mp (List.mem_of_getLast? slash)
  · exact absurd ends (by decide)
  · exact absurd (blank _ inside) (by decide)

private theorem map_normalize_of_map_reading? {lines : List Text} {readings : List Reading}
    (read : lines.map reading? = readings.map some) (oneLine : ∀ line ∈ lines, '\n' ∉ line)
    (apart : ∀ reading ∈ readings, QuotesApart reading.tokens reading.comment) :
    lines.map normalize = readings.map fun reading => countedOf reading.tokens := by
  induction lines generalizing readings with
  | nil => simp_all
  | cons line lines ih =>
    cases readings with
    | nil => simp at read
    | cons reading readings =>
      obtain ⟨first, others⟩ := List.cons.inj read
      rw [List.forall_mem_cons] at oneLine apart
      rw [List.map_cons, List.map_cons, ih others oneLine.2 apart.2,
        (reads_of_reading? first).normalize_eq oneLine.1 apart.1]

theorem braceDepth_append_of_notMem {front : Text} (unbraced : '\x7b' ∉ front) (rest : Text) :
    braceDepth 0 (front ++ rest) = braceDepth 0 rest := by
  induction front with
  | nil => rfl
  | cons c front ih =>
    obtain ⟨apart, further⟩ := List.ne_and_not_mem_of_not_mem_cons unbraced
    rw [List.cons_append, braceDepth, if_neg (Ne.symm apart), ih further, ite_self]

private theorem commentBehind_of_not_inBlockComment {line : Text} (code : inBlockComment false line = false) :
    commentBehind false line = false := by
  have unopened : Text.after? "/*" (Text.trim line) = none := by simpa [inBlockComment] using code
  simp only [commentBehind, unopened]

/-- The braces of a line outside block comments count. -/
theorem bodyLines?_cons_of_code {line : Text} (code : inBlockComment false line = false) (depth : Nat)
    (more : List Text) : bodyLines? depth false (line :: more) =
      (braceDepth depth (normalize line)).elim (some 1) fun behind =>
        (bodyLines? behind false more).map (· + 1) := by
  rw [bodyLines?_cons, if_neg (by simp [code]), commentBehind_of_not_inBlockComment code]

/-- A line that begins with no block comment begins with none when it goes on. -/
theorem inBlockComment_append {line : Text} (uncommented : inBlockComment false line = false)
    (visible : line.all isBlank = false) (ends : line.getLast? ≠ some '/') (more : Text) :
    inBlockComment false (line ++ more) = false := by
  obtain ⟨indent, c, rest, rfl, blank, shown⟩ := Text.exists_visible visible
  have mark : "/*".toList = ['/', '*'] := by decide
  simp only [inBlockComment, Bool.false_or, Option.isSome_eq_false_iff, Option.isNone_iff_eq_none,
    mark] at uncommented ⊢
  by_contra opens
  obtain ⟨tail, found⟩ := Option.ne_none_iff_exists'.mp opens
  rw [Text.after?_eq_some_iff, List.append_assoc, List.cons_append,
    Text.trim_indent_cons blank shown] at found
  obtain ⟨rfl, next⟩ := List.cons.inj found
  cases rest with
  | nil => simp at ends
  | cons d rest =>
    obtain ⟨blanks, -, whole⟩ := Text.exists_eq_trimEnd_append (d :: rest ++ more)
    rw [next] at whole
    obtain ⟨rfl, -⟩ := List.cons.inj whole
    rw [Text.trim_indent_cons blank shown] at uncommented
    have star := Text.trimEnd_append_cons (show isBlank '*' = false by decide) [] rest
    rw [List.nil_append, List.nil_append] at star
    rw [star] at uncommented
    exact absurd uncommented (by simp [Text.after?])

private theorem countedOf_subset (tokens : List Token) : countedOf tokens ⊆ spelled tokens := by
  intro c member
  obtain ⟨token, listed, inside⟩ := List.mem_flatMap.mp member
  refine List.mem_flatMap.mpr ⟨token, listed, ?_⟩
  cases token <;> simp_all [Token.text, Token.counted]

private theorem getLast?_spelled (tokens : List Token) :
    (spelled tokens).getLast? = (countedOf tokens).getLast? := by
  obtain rfl | ⟨init, token, rfl⟩ := List.eq_nil_or_concat tokens
  · rfl
  · simp only [spelled, countedOf, List.concat_eq_append, List.flatMap_append, List.flatMap_singleton]
    cases token <;> simp [Token.text, Token.counted, List.getLast?_cons]

/-- Lines that are passed over only shift a method. -/
theorem methodLength?_behind {front lines : List Text}
    (passed : annotationLines 0 (front ++ lines) = front.length + annotationLines 0 lines) :
    methodLength? (front ++ lines) = (methodLength? lines).map (front.length + ·) := by
  simp [methodLength?, passed, Function.comp_def, Nat.add_assoc]

/-- A line that opens as many braces as a declaration can stand for it. -/
theorem methodLength?_joined {front more : List Text} {line declaration : Text}
    (passed : annotationLines 0 (front ++ line :: more) = front.length)
    (plain : annotationLines 0 (declaration :: more) = 0)
    (braces : (normalize line).contains '\x7b' = (normalize declaration).contains '\x7b')
    (body : bodyLines? 0 false (line :: more) = bodyLines? 0 false (declaration :: more)) :
    methodLength? (front ++ line :: more) =
      (methodLength? (declaration :: more)).map (front.length + ·) := by
  simp only [methodLength?, passed, plain, List.drop_left, List.drop_zero, List.takeWhile_cons, braces]
  cases (normalize declaration).contains '\x7b' with
  | true => simp [body]
  | false => simp [Function.comp_def, Nat.add_assoc]

/-- A declaration becomes no part of an annotation that it continues. -/
theorem Joins.not_continued {front : List Text} {last declaration trail : Text} {tokens : List Token}
    (joins : Joins last declaration tokens) (starts : StartsDeclaration declaration)
    (annotates : Annotates (front ++ [countedOf tokens]) trail) (blank : ∀ c ∈ trail, isBlank c = true)
    (uncalled : ')' ∉ countedOf tokens) :
    (trail ++ normalize declaration).head?.any inName = false ∧
      (Text.trimStart (trail ++ normalize declaration)).head? ≠ some '(' := by
  obtain ⟨apart, unparen⟩ := joins.separate.resolve_left uncalled
  obtain ⟨indent, c, rest, counted, rfl, counts, indented, shown⟩ := starts.exists_normalize
  have visible (behind : Text) : Text.trimStart (indent ++ c :: behind) = c :: behind := by
    rw [Text.trimStart_append_of_blank indented, Text.trimStart, List.dropWhile_cons_of_neg (by simp [shown])]
  rw [visible] at unparen
  rw [Text.trimStart_append_of_blank blank, counts, visible]
  refine ⟨?_, unparen⟩
  -- The first character behind the name is white space, of the annotation's line or the other one.
  obtain ⟨lead, d, same, ends⟩ := annotates.exists_last
  have space : ∃ b behind, trail ++ indent = b :: behind := by
    refine List.exists_cons_of_ne_nil fun none => ?_
    obtain ⟨rfl, rfl⟩ := List.append_eq_nil_iff.mp none
    have spells := (reads_of_reading? joins.read).spells
    rw [List.append_nil] at spells
    rw [spells, getLast?_spelled, same] at apart
    simp [shown] at apart
    obtain rfl | named := ends
    · exact absurd apart (by decide)
    · simp [isBlank_of_inName named] at apart
  obtain ⟨b, behind, cut⟩ := space
  have spaces : ∀ x ∈ trail ++ indent, isBlank x = true := by
    simpa [or_imp, forall_and] using ⟨blank, indented⟩
  rw [← List.append_assoc, cut]
  exact inName_of_isBlank (spaces b (by simp [cut]))

namespace IsAnnotation

variable {tag : List Text} {readings : List Reading}

theorem normalized (sound : IsAnnotation tag readings) :
    ∃ trail, (∀ c ∈ trail, isBlank c = true) ∧ Annotates (tag.map normalize) trail := by
  rw [map_normalize_of_map_reading? sound.read sound.oneLine sound.apart]
  exact sound.annotates

/-- An annotation on lines of its own shifts the method behind it. -/
theorem methodEnd?_append (sound : IsAnnotation tag readings) (lines : List Text) :
    methodEnd? (tag ++ lines) 0 = (methodEnd? lines 0).map (tag.length + ·) := by
  obtain ⟨trail, blank, annotates⟩ := sound.normalized
  rw [methodEnd?_zero, methodEnd?_zero]
  refine methodLength?_behind ?_
  rw [annotationLines_of_annotates annotates, if_pos (List.all_eq_true.mpr blank)]

section Joined

variable {front : List Text} {last declaration : Text} {tokens : List Token}

private theorem counted_last (sound : IsAnnotation (front ++ [last]) readings)
    (joins : Joins last declaration tokens) : normalize last = countedOf tokens := by
  have member : reading? last ∈ readings.map some := by
    rw [← sound.read]
    exact List.mem_map_of_mem (by simp)
  obtain ⟨reading, listed, same⟩ := List.mem_map.mp member
  obtain rfl := Option.some.inj (same.trans joins.read)
  exact (reads_of_reading? joins.read).normalize_eq (sound.oneLine last (by simp))
    (sound.apart _ listed)

/-- The last line and the declaration count one after the other. -/
theorem normalize_joined (sound : IsAnnotation (front ++ [last]) readings)
    (joins : Joins last declaration tokens) :
    normalize (last ++ declaration) = countedOf tokens ++ normalize declaration := by
  obtain ⟨spells, formed, -, slashes⟩ := reads_of_reading? joins.read
  obtain ⟨trail, blank, annotates⟩ := sound.normalized
  rw [List.map_append, List.map_singleton, counted_last sound joins] at annotates
  have oneLine := sound.oneLine last (by simp)
  simp only [List.append_nil, List.take_nil] at spells slashes
  rw [spells] at oneLine ⊢
  exact normalize_append formed oneLine joins.apart (slashes_append slashes (annotates.getLast?_ne blank) _)

/-- An annotation that is continued by a declaration takes the lines before that. -/
theorem annotationLines_joined (sound : IsAnnotation (front ++ [last]) readings)
    (joins : Joins last declaration tokens) (starts : StartsDeclaration declaration) (more : List Text) :
    annotationLines 0 (front ++ (last ++ declaration) :: more) = front.length := by
  obtain ⟨trail, blank, annotates⟩ := sound.normalized
  rw [List.map_append, List.map_singleton, counted_last sound joins] at annotates
  have extended := annotates.extend (joins.not_continued starts annotates blank) blank
  rw [← normalize_joined sound joins] at extended
  have passed := @annotationLines_of_annotates (front ++ [last ++ declaration]) more
    (trail ++ normalize declaration) (by simpa using extended)
  obtain ⟨indent, c, rest, counted, -, counts, -, shown⟩ := starts.exists_normalize
  rw [List.append_assoc, List.singleton_append, if_neg (by simp [counts, shown])] at passed
  rw [passed, List.length_append, List.length_singleton, Nat.add_sub_cancel]

/-- On the line of a declaration, the annotation before it has no part in the count of braces. -/
theorem bodyLines?_joined (sound : IsAnnotation (front ++ [last]) readings)
    (joins : Joins last declaration tokens) (starts : StartsDeclaration declaration) (more : List Text) :
    bodyLines? 0 false ((last ++ declaration) :: more) = bodyLines? 0 false (declaration :: more) := by
  obtain ⟨trail, blank, annotates⟩ := sound.normalized
  rw [List.map_append, List.map_singleton, counted_last sound joins] at annotates
  have spells : last = spelled tokens := by
    simpa using (reads_of_reading? joins.read).spells
  have ends : last.getLast? ≠ some '/' := by
    rw [spells, getLast?_spelled]
    exact annotates.getLast?_ne blank
  have visible : last.all isBlank = false := by
    obtain ⟨lead, c, same, visible⟩ := annotates.exists_last
    have member : c ∈ last := spells ▸ countedOf_subset tokens (by simp [same])
    have shown : isBlank c = false := by
      obtain rfl | named := visible
      · decide
      · exact isBlank_of_inName named
    exact List.all_eq_false.mpr ⟨c, member, by simp [shown]⟩
  have code : inBlockComment false declaration = false :=
    (Bool.or_eq_false_iff.mp starts.uncommented).1
  rw [bodyLines?_cons_of_code (inBlockComment_append joins.uncommented visible ends declaration),
    bodyLines?_cons_of_code code, normalize_joined sound joins,
    braceDepth_append_of_notMem joins.unbraced]

/-- An annotation whose last line is continued by a declaration shifts it by the lines before. -/
theorem methodEnd?_joined (sound : IsAnnotation (front ++ [last]) readings)
    (joins : Joins last declaration tokens) (starts : StartsDeclaration declaration) (more : List Text) :
    methodEnd? (front ++ (last ++ declaration) :: more) 0 =
      (methodEnd? (declaration :: more) 0).map (front.length + ·) := by
  have plain : annotationLines 0 (declaration :: more) = 0 := by
    rw [annotationLines, starts.unannotated]
  have braces : (normalize (last ++ declaration)).contains '\x7b' =
      (normalize declaration).contains '\x7b' := by
    rw [normalize_joined sound joins]
    simp [joins.unbraced]
  rw [methodEnd?_zero, methodEnd?_zero]
  exact methodLength?_joined (annotationLines_joined sound joins starts more) plain braces
    (bodyLines?_joined sound joins starts more)

end Joined

end IsAnnotation

/-- The braces of an annotation are no part of the method behind it.  On lines of its own it shifts
where the method ends by these lines; it also does when its last line goes on with the declaration,
as long as that line has no opening brace of the annotation. -/
theorem annotation_shifts_method {tag : List Text} {readings : List Reading}
    (sound : IsAnnotation tag readings) :
    (∀ lines, methodEnd? (tag ++ lines) 0 = (methodEnd? lines 0).map (tag.length + ·)) ∧
    ∀ front last declaration more tokens, tag = front ++ [last] → StartsDeclaration declaration →
      Joins last declaration tokens →
      methodEnd? (front ++ (last ++ declaration) :: more) 0 =
        (methodEnd? (declaration :: more) 0).map (front.length + ·) := by
  refine ⟨sound.methodEnd?_append, ?_⟩
  rintro front last declaration more tokens rfl starts joins
  exact sound.methodEnd?_joined joins starts more

/-- An annotation over two lines, with a brace on each and a parenthesis in a literal. -/
def spreadTag : List Text := ["@A(\x7b", "\")\"\x7d) "]

/-- What the lines of the annotation are read as. -/
def spreadReadings : List Reading :=
  [⟨[.other '@', .other 'A', .other '(', .other '\x7b'], []⟩,
    ⟨[.literal '"' [')'], .other '\x7d', .other ')', .other ' '], []⟩]

private theorem isAnnotation_spreadTag : IsAnnotation spreadTag spreadReadings where
  read := by decide
  oneLine := by decide
  apart := by decide
  annotates := by
    have named : IsName ['A'] := ⟨by simp, List.forall_mem_singleton.mpr (by decide), by decide⟩
    have balanced : Balanced '(' ')' ([['\x7b']].flatten ++ "\"\"\x7d".toList) := by decide
    exact ⟨[' '], List.forall_mem_singleton.mpr (by decide),
      @Annotates.called [] _ [] ['\x7b'] _ _ ["\"\"\x7d) "] _ (by simp) named (by simp) rfl balanced⟩

theorem spreadTag_shifts_method :
    methodEnd? (spreadTag ++ ["void f() \x7b".toList, "\x7d".toList]) 0 = some 4 ∧
      methodEnd? ["@A(\x7b", "\")\"\x7d) void f() \x7b", "\x7d"] 0 = some 3 := by
  have starts : StartsDeclaration "void f() \x7b" := ⟨by decide, by decide, by decide⟩
  have joins : Joins "\")\"\x7d) " "void f() \x7b"
      [.literal '"' [')'], .other '\x7d', .other ')', .other ' '] :=
    ⟨rfl, by decide, by decide, by decide, .inl (by decide)⟩
  have ended : methodEnd? ["void f() \x7b", "\x7d"] 0 = some 2 := by decide +kernel
  obtain ⟨shifts, joined⟩ := annotation_shifts_method isAnnotation_spreadTag
  exact ⟨(shifts _).trans (by rw [ended]; rfl),
    (joined ["@A(\x7b"] _ _ ["\x7d"] _ rfl starts joins).trans (by rw [ended]; rfl)⟩

/-- Braces of an annotation are counted when they stand on the line of the declaration. -/
theorem annotation_brace_counts :
    methodEnd? ["void f() \x7b", "\x7d"] 0 = some 2 ∧
      methodEnd? ["@A(\x7b\x7d) void f() \x7b", "\x7d"] 0 = some 1 := by
  decide +kernel

end ReadOnlyViews.Java
