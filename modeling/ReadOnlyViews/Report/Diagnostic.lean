import ReadOnlyViews.Failure
import ReadOnlyViews.Report.Console

/-!
Diagnostics and the reporter that collects them and shows them on the console.
-/

namespace ReadOnlyViews

/-- How serious a diagnostic is. -/
inductive Level where
  | info
  | warn
  | error
  deriving DecidableEq, Repr

namespace Level

/-- The word for a level. -/
def word : Level → Text
  | info => "info"
  | warn => "warn"
  | error => "error"

/-- The word for a level in capitals. -/
def heading : Level → Text
  | info => "INFO"
  | warn => "WARN"
  | error => "ERROR"

/-- The level of a word. -/
def ofWord? (word : Text) : Option Level := [info, warn, error].find? (·.word == word)

end Level

/-- Something to be said about an entity or a file. -/
structure Diagnostic where
  level : Level
  message : Text
  entity : Option Text := none
  path : Option Text := none
  deriving DecidableEq, Repr

namespace Diagnostic

/-- A diagnostic in words: its level, what it is about, and its message. -/
def text (d : Diagnostic) : Text :=
  let subjects := (d.entity.toList ++ d.path.toList).filter (!·.isEmpty)
  let subject : Text := if subjects.isEmpty then [] else Text.join " " subjects ++ ": "
  Console.visible ("[" ++ d.level.heading ++ "] " ++ subject ++ d.message)

end Diagnostic

/-- A collector of diagnostics, which also shows them; a quiet one shows no plain information. -/
structure Reporter where
  quiet : Bool := false
  items : List Diagnostic := []
  console : Console := []
  deriving DecidableEq, Repr

namespace Reporter

/-- Takes in a diagnostic. -/
def emit (reporter : Reporter) (d : Diagnostic) : Reporter :=
  { reporter with
    items := reporter.items ++ [d]
    console := if reporter.quiet && d.level == .info then reporter.console
      else reporter.console.print d.text }

/-- Takes in diagnostics in order. -/
def emitAll (reporter : Reporter) (ds : List Diagnostic) : Reporter := ds.foldl emit reporter

/-- Takes in a diagnostic whose level is given by its word. -/
def emitWord (reporter : Reporter) (level message : Text) (entity path : Option Text) :
    Except Failure (Diagnostic × Reporter) :=
  match Level.ofWord? level with
  | none => .error (.unknownLevel level)
  | some level =>
    let d : Diagnostic := { level, message, entity, path }
    .ok (d, reporter.emit d)

/-- Shows a text. -/
def print (reporter : Reporter) (text : Text) : Reporter :=
  { reporter with console := reporter.console.print text }

/-- The diagnostics of a path. -/
def forPath (reporter : Reporter) (path : Text) : List Diagnostic :=
  reporter.items.filter (·.path == some path)

/-- The number of diagnostics of a level. -/
def count (reporter : Reporter) (level : Level) : Nat :=
  (reporter.items.filter (·.level == level)).length

end Reporter

end ReadOnlyViews
