import ReadOnlyViews.Java.Line
import ReadOnlyViews.Text.Blank
import ReadOnlyViews.Text.Word

/-!
Where a method ends.  From its first line on, annotations are passed over with their arguments, and
then braces are counted over normalized lines outside whole-line block comments.
-/

namespace ReadOnlyViews.Java

/-- What follows a leading annotation name and the white space behind it.  The keyword that
declares an annotation type is no annotation. -/
def annotationRest? : Text → Option Text
  | '@' :: rest =>
    let declares : Bool := match Text.after? "interface" rest with
      | some tail => !tail.head?.any isWord
      | none => false
    let inName (c : Char) : Bool := isWord c || c == '.'
    if declares || !rest.head?.any inName then none
    else some (Text.trimStart (rest.dropWhile inName))
  | _ => none

/-- The parentheses of a stretch of text: either the text behind the one that brings the depth back
to zero, or the depth at the end. -/
def closeParens : (depth : Nat) → Text → Nat ⊕ Text
  | depth, [] => .inl depth
  | depth, c :: rest =>
    if c = '(' then closeParens (depth + 1) rest
    else if c = ')' then
      if depth ≤ 1 then .inr rest else closeParens (depth - 1) rest
    else closeParens depth rest

/-- The end of annotation arguments that start in `rest` and may go on over further lines: how many
of those are used up, and what follows on the last one. -/
def argumentsEnd? : (depth : Nat) → (rest : Text) → (more : List Text) → Option (Nat × Text)
  | depth, rest, more =>
    match closeParens depth rest, more with
    | .inr tail, _ => some (0, tail)
    | .inl _, [] => none
    | .inl open_, line :: more =>
      (argumentsEnd? open_ (normalize line) more).map fun (used, tail) => (used + 1, tail)

/-- The number of leading lines that hold only annotations; `skip` counts the lines of the current
one that are still to be passed.  Arguments that never close end the search at their annotation. -/
def annotationLines : (skip : Nat) → List Text → Nat
  | _, [] => 0
  | skip + 1, _ :: more => annotationLines skip more + 1
  | 0, line :: more =>
    match annotationRest? (Text.trim (normalize line)) with
    | none => 0
    | some rest =>
      match if rest.head? = some '(' then argumentsEnd? 0 rest more else some (0, rest) with
      | none => 0
      | some (used, tail) =>
        if (Text.trim tail).isEmpty then annotationLines used more + 1 else used

/-- The brace depth behind a line, starting from a depth; `none` when the brace that brings it back
to zero is met.  Closing braces before the first opening one do not count. -/
def braceDepth : (depth : Nat) → Text → Option Nat
  | depth, [] => some depth
  | depth, c :: rest =>
    if c = '\x7b' then braceDepth (depth + 1) rest
    else if c = '\x7d' then
      match depth with
      | 0 => braceDepth 0 rest
      | 1 => none
      | depth + 2 => braceDepth (depth + 1) rest
    else braceDepth depth rest

/-- The number of lines up to and with the one on which the braces close again. -/
def bodyLines? : (depth : Nat) → (inComment : Bool) → List Text → Option Nat
  | _, _, [] => none
  | depth, true, line :: more =>
    (bodyLines? depth (!Text.includes "*/" (Text.trim line)) more).map (· + 1)
  | depth, false, line :: more =>
    match Text.after? "/*" (Text.trim line) with
    | some tail => (bodyLines? depth (!Text.includes "*/" tail) more).map (· + 1)
    | none =>
      match braceDepth depth (normalize line) with
      | none => some 1
      | some depth => (bodyLines? depth false more).map (· + 1)

/-- The number of lines from the first one, where a method starts, to behind its body. -/
def methodLength? (lines : List Text) : Option Nat :=
  let annotations := annotationLines 0 lines
  let declared := lines.drop annotations
  let head := (declared.takeWhile fun line => !(normalize line).contains '\x7b').length
  (bodyLines? 0 false (declared.drop head)).map (annotations + head + ·)

/-- The index of the line behind the method that starts at a line. -/
def methodEnd? (lines : List Text) (start : Nat) : Option Nat :=
  (methodLength? (lines.drop start)).map (start + ·)

end ReadOnlyViews.Java
