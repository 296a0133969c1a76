import ReadOnlyViews.Java.Extent

/-!
Whether a Java source is well nested.  Comments and literals are terminated, brackets are balanced
outside them, and no annotation stands where nothing follows for it to annotate.
-/

namespace ReadOnlyViews.Java

/-- What a character of a source belongs to. -/
inductive Region where
  | code
  | lineComment
  | blockComment
  | literal (quote : Char)
  deriving DecidableEq, Repr

/-- The code of a source: comments are dropped and literals shrink to one mark.  There is none when
a comment or a literal is not terminated; a literal ends on its line. -/
def codeFrom : Region → Text → Option Text
  | .code, [] => some []
  | .lineComment, [] => some []
  | .blockComment, [] => none
  | .literal _, [] => none
  | .code, '/' :: '/' :: rest => codeFrom .lineComment rest
  | .code, '/' :: '*' :: rest => codeFrom .blockComment rest
  | .code, c :: rest =>
    if c = '"' ∨ c = '\'' then (codeFrom (.literal c) rest).map ('"' :: ·)
    else (codeFrom .code rest).map (c :: ·)
  | .lineComment, c :: rest =>
    if c = '\n' then (codeFrom .code rest).map (c :: ·) else codeFrom .lineComment rest
  | .blockComment, '*' :: '/' :: rest => (codeFrom .code rest).map (' ' :: ·)
  | .blockComment, _ :: rest => codeFrom .blockComment rest
  | .literal quote, '\\' :: c :: rest =>
    if c = '\n' ∨ c = '\r' then none else codeFrom (.literal quote) rest
  | .literal quote, c :: rest =>
    if c = quote then codeFrom .code rest
    else if c = '\n' ∨ c = '\r' then none
    else codeFrom (.literal quote) rest

/-- The bracket that closes an opening one. -/
def closing? : Char → Option Char
  | '(' => some ')'
  | '[' => some ']'
  | '\x7b' => some '\x7d'
  | _ => none

/-- Whether a character closes a bracket. -/
def isClosing (c : Char) : Bool := c == ')' || c == ']' || c == '\x7d'

/-- Whether the brackets close in the order of `due`, and those opened on the way as well. -/
def balanced : (due : List Char) → Text → Bool
  | due, [] => due.isEmpty
  | due, c :: rest =>
    match closing? c with
    | some close => balanced (close :: due) rest
    | none =>
      if isClosing c then
        match due with
        | close :: due => c == close && balanced due rest
        | [] => false
      else balanced due rest

/-- Whether an annotation, read from behind its sign, is followed by a closing brace or nothing. -/
def annotatesNothing (rest : Text) : Bool :=
  let rest := Text.trimStart ((Text.trimStart rest).dropWhile fun c => isWord c || c == '.')
  let rest := if rest.head? = some '(' then
      match closeParens 0 rest with
      | .inr tail => Text.trimStart tail
      | .inl _ => []
    else rest
  rest.isEmpty || rest.head? == some '\x7d'

/-- Whether some annotation of the code annotates nothing. -/
def looseAnnotationIn : Text → Bool
  | [] => false
  | c :: rest => (c == '@' && annotatesNothing rest) || looseAnnotationIn rest

/-- Whether a source is well nested. -/
def isWellNested (source : Text) : Bool :=
  match codeFrom .code source with
  | none => false
  | some code => balanced [] code && !looseAnnotationIn code

end ReadOnlyViews.Java
