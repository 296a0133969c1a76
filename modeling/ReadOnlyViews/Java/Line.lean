import ReadOnlyViews.Text.Basic

/-!
One line of Java source with its literals emptied and its comment dropped, so that what is left of
braces and parentheses can be counted.
-/

namespace ReadOnlyViews.Java

/-- The number of characters of a literal from behind its opening quote up to and with the closing
one.  A backslash takes the next character along, unless that is a line feed. -/
def literalLength? (quote : Char) : Text → Option Nat
  | [] => none
  | '\\' :: c :: rest => if c = '\n' then none else (literalLength? quote rest).map (· + 2)
  | c :: rest =>
    if c = quote then some 1
    else if c = '\\' then none
    else (literalLength? quote rest).map (· + 1)

/-- The text with every literal of one kind of quote emptied; `skip` counts the characters of the
current literal that are still to be dropped.  A quote that never closes stays as it is. -/
def emptyLiterals (quote : Char) : (skip : Nat) → Text → Text
  | _, [] => []
  | skip + 1, _ :: rest => emptyLiterals quote skip rest
  | 0, c :: rest =>
    if c = quote then
      match literalLength? quote rest with
      | some length => quote :: quote :: emptyLiterals quote length rest
      | none => c :: emptyLiterals quote 0 rest
    else c :: emptyLiterals quote 0 rest

/-- The text without a line comment on its last line; a line feed at the very end stays. -/
def dropComment : Text → Text
  | [] => []
  | c :: rest =>
    let tail := rest.dropWhile (· != '\n')
    if c = '/' ∧ rest.head? = some '/' ∧ (tail = [] ∨ tail = ['\n']) then tail
    else c :: dropComment rest

/-- A line as it is counted: string literals emptied first, then character literals, then the
comment dropped. -/
def normalize (line : Text) : Text :=
  dropComment (emptyLiterals '\'' 0 (emptyLiterals '"' 0 line))

end ReadOnlyViews.Java
