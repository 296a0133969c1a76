import ReadOnlyViews.Edit
import ReadOnlyViews.Text.Pattern

/-!
Imports that nothing uses any more.  A class counts as used when its name occurs in one of nine
shapes; the check is textual and looks at the whole file.
-/

namespace ReadOnlyViews.Java

open Pattern (blanks blanks1 withinLine lineBreakOrEnd)

/-- Imports that a generated resource may no longer need once its mutating endpoints are gone. -/
def resourceImports : List Text := [
  "import org.springframework.web.bind.annotation.PostMapping;",
  "import org.springframework.web.bind.annotation.PutMapping;",
  "import org.springframework.web.bind.annotation.PatchMapping;",
  "import org.springframework.web.bind.annotation.DeleteMapping;",
  "import org.springframework.web.bind.annotation.RequestBody;",
  "import org.springframework.web.bind.annotation.ResponseStatus;",
  "import org.springframework.http.HttpStatus;",
  "import jakarta.validation.Valid;",
  "import jakarta.validation.constraints.NotNull;",
  "import java.net.URI;",
  "import java.net.URISyntaxException;",
  "import java.util.Objects;",
  "import tech.jhipster.web.util.HeaderUtil;"]

/-- The shapes in which a class name is used: as an annotation, before a point, constructed, as
the type of a declaration, as a type argument, as a parameter type, thrown, extended, implemented. -/
def usagePatterns (name : Text) : List Pattern :=
  let word : Pattern := .exactly name
  let typeArguments : Pattern :=
    "<" ++ .run (fun c => c != ';' && c != '\x7b' && c != '(' && c != ')') ++ ">"
  [ "@" ++ word ++ .wordEdge,
    .wordEdge ++ word ++ ".",
    .wordEdge ++ "new" ++ blanks1 ++ word ++ .wordEdge,
    .wordEdge ++ word ++ blanks ++ typeArguments.optional ++ .repeated "[]" ++ blanks1 ++
      .run1 isWord,
    "<" ++ word ++ .one (fun c => c == '>' || c == ','),
    "(" ++ word ++ .wordEdge,
    "throws" ++ blanks1 ++ withinLine ++ .wordEdge ++ word ++ .wordEdge,
    "extends" ++ blanks1 ++ word ++ .wordEdge,
    "implements" ++ blanks1 ++ withinLine ++ .wordEdge ++ word ++ .wordEdge ]

/-- The shapes of a name that a text holds, one answer for each. -/
def usages (name text : Text) : List Bool := (usagePatterns name).map (·.occursIn text)

/-- Whether a text uses a class. -/
def isUsed (name text : Text) : Bool := (usagePatterns name).any (·.occursIn text)

/-- What is kept of a question about a class name: the patterns that were built for it. -/
structure UsageEntry where
  name : Text
  patterns : List Pattern
  built : patterns = usagePatterns name

namespace UsageEntry

/-- The entry that the first question about a name makes. -/
def ofName (name : Text) : UsageEntry := ⟨name, usagePatterns name, rfl⟩

/-- The name determines the entry. -/
theorem ext_name {first second : UsageEntry} (same : first.name = second.name) : first = second := by
  obtain ⟨name, patterns, built⟩ := first
  obtain ⟨other, otherPatterns, otherBuilt⟩ := second
  subst same built otherBuilt
  rfl

instance : DecidableEq UsageEntry := fun first second =>
  decidable_of_iff (first.name = second.name) ⟨ext_name, congrArg name⟩

instance : Repr UsageEntry := ⟨fun entry => reprPrec entry.name⟩

end UsageEntry

/-- The class names that a run has asked about, each once, with the patterns kept for them. -/
abbrev AskedNames := List UsageEntry

namespace AskedNames

/-- What is kept for a name. -/
def entry? (name : Text) (asked : AskedNames) : Option UsageEntry :=
  asked.find? fun entry => entry.name == name

/-- The names after one more question. -/
def ask (name : Text) (asked : AskedNames) : AskedNames :=
  if (asked.entry? name).isSome then asked else asked ++ [.ofName name]

/-- The patterns of a name: those kept for it, or else new ones. -/
def patternsFor (name : Text) (asked : AskedNames) : List Pattern :=
  match asked.entry? name with
  | some entry => entry.patterns
  | none => usagePatterns name

/-- Patterns that are kept are those that would be built. -/
@[simp] theorem patternsFor_eq (name : Text) (asked : AskedNames) :
    asked.patternsFor name = usagePatterns name := by
  rw [patternsFor]
  split
  · next entry kept =>
    have named : entry.name = name := by simpa using List.find?_some kept
    rw [entry.built, named]
  · rfl

/-- Whether a text uses a class, by the patterns kept for it. -/
def uses (name text : Text) (asked : AskedNames) : Bool :=
  (asked.patternsFor name).any (·.occursIn text)

@[simp] theorem uses_eq_isUsed (name text : Text) (asked : AskedNames) :
    asked.uses name text = isUsed name text := by
  rw [uses, patternsFor_eq, isUsed]

end AskedNames

/-- What to look for to find the class name of an import: the last name before the semicolon. -/
def importedClass : Probe where
  lead := "."
  target := .one (fun c => c.isAlpha || c == '_') ++ .run isWord
  tail := blanks ++ ";" ++ blanks ++ .lastLineEnd

/-- The simple name of the class that a line imports, or nothing. -/
def importClassName (line : Text) : Text :=
  match importedClass.find? line with
  | some found => found.text
  | none => []

/-- An import alone on its line, with the line end. -/
def importLine (statement : Text) : Pattern :=
  .lineStart ++ .run isBlankOrTab ++ .exactly statement ++ .run isBlankOrTab ++ lineBreakOrEnd

/-- A pruning on its way: the text so far, the names asked about, the classes removed. -/
structure Pruning where
  text : Text
  asked : AskedNames
  removed : List Text

/-- One candidate: its line goes if the text has it, it names a class, and nothing else in the text
uses that class. -/
def Pruning.consider (state : Pruning) (statement : Text) : Pruning :=
  if !Text.includes statement state.text then state
  else
    let name := importClassName statement
    if name.isEmpty then state
    else
      let asked := state.asked.ask name
      if asked.uses name (Text.eraseFirst statement state.text) then { state with asked }
      else match (importLine statement).eraseFirst? state.text with
        | some text => { text, asked, removed := state.removed ++ [name] }
        | none => { state with asked }

/-- Deletes the candidate imports whose class is not used; also gives the names asked about. -/
def pruneImports (candidates : List Text) (asked : AskedNames) (text : Text) : Edit × AskedNames :=
  let final := candidates.foldl Pruning.consider { text, asked, removed := [] }
  let edit : Edit :=
    if final.removed.isEmpty then
      { outcome := .alreadyPresent, text := final.text, reason := "no unused imports" }
    else
      { outcome := .applied, text := final.text,
        reason := "removed " ++ Text.join ", " final.removed }
  (edit, final.asked)

end ReadOnlyViews.Java
