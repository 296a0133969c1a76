import ReadOnlyViews.Text.Blank
import ReadOnlyViews.Text.Quoted
import ReadOnlyViews.Text.Word

/-!
The arguments of the command line.  Long options may be shortened as long as they stay unambiguous
and may have their value attached; the last value of an option wins.
-/

namespace ReadOnlyViews.CommandLine

/-- What the command line asks for. -/
structure Arguments where
  root : Text := "."
  package : Option Text := none
  entities : Option Text := none
  all : Bool := false
  dryRun : Bool := false
  noLiquibase : Bool := false
  noMyBatis : Bool := false
  noCleanup : Bool := false
  quiet : Bool := false
  deriving DecidableEq, Repr

/-- What an option does: it shows the help, takes a value, or switches something on. -/
inductive Action where
  | help
  | value (store : Text → Arguments → Arguments)
  | switch (turnOn : Arguments → Arguments)

/-- The options by spelling. -/
def options : List (Text × Action) := [
  ("-h", .help),
  ("--help", .help),
  ("--root", .value fun root a => { a with root }),
  ("--package", .value fun package a => { a with package := some package }),
  ("--entities", .value fun entities a => { a with entities := some entities }),
  ("--all", .switch fun a => { a with all := true }),
  ("--dry-run", .switch fun a => { a with dryRun := true }),
  ("--no-liquibase", .switch fun a => { a with noLiquibase := true }),
  ("--no-mybatis", .switch fun a => { a with noMyBatis := true }),
  ("--no-cleanup", .switch fun a => { a with noCleanup := true }),
  ("--quiet", .switch fun a => { a with quiet := true })]

/-- How a message names an option. -/
def displayName (spelling : Text) : Text :=
  if spelling = "-h" ∨ spelling = "--help" then "-h/--help" else spelling

/-- Why the arguments end the program. -/
inductive Refusal where
  /-- The help was asked for. -/
  | help
  /-- A shortened option could be any of several. -/
  | ambiguous (given : Text) (candidates : List Text)
  /-- An option needs a value. -/
  | missingValue (spelling : Text)
  /-- A value was attached to an option that takes none. -/
  | unwantedValue (spelling value : Text)
  /-- Arguments that mean nothing. -/
  | unrecognized (given : List Text)
  deriving DecidableEq, Repr

namespace Refusal

/-- The exit code. -/
def exitCode : Refusal → Nat
  | help => 0
  | _ => 2

/-- The complaint, if there is one. -/
def complaint? : Refusal → Option Text
  | help => none
  | ambiguous given candidates =>
    some ("ambiguous option: " ++ given ++ " could match " ++ Text.join ", " candidates)
  | missingValue spelling =>
    some ("argument " ++ displayName spelling ++ ": expected one argument")
  | unwantedValue spelling value =>
    some ("argument " ++ displayName spelling ++ ": ignored explicit argument " ++
      Text.quoted value)
  | unrecognized given => some ("unrecognized arguments: " ++ Text.join " " given)

end Refusal

/-- What is attached to an option in one argument. -/
inductive Attached where
  | nothing
  /-- Behind an equals sign. -/
  | value (text : Text)
  /-- Further letters behind a single dash and letter. -/
  | letters (text : Text)
  deriving DecidableEq, Repr

/-- An argument as it stands: plain, the divider of two dashes, an option, or something that looks
like an option and is none. -/
inductive Piece where
  | plain (text : Text)
  | divider (text : Text)
  | option (spelling : Text) (action : Action) (attached : Attached)
  | unknown (text : Text)

/-- Whether a text is a negative number: digits, or a point before its last digits. -/
def isNegativeNumber (text : Text) : Bool :=
  let number := if text.getLast? = some '\n' then text.dropLast else text
  match number with
  | '-' :: digits =>
    let rest := digits.dropWhile isDecimal
    match rest with
    | [] => !digits.isEmpty
    | '.' :: places => !places.isEmpty && places.all isDecimal
    | _ => false
  | _ => false

/-- An argument divided at its first equals sign. -/
def divide (text : Text) : Text × Option Text :=
  match text.dropWhile (· != '=') with
  | [] => (text, none)
  | _ :: value => (text.takeWhile (· != '='), some value)

/-- The options that a long argument may be short for. -/
def abbreviated (text : Text) : List (Text × Action × Attached) :=
  let (front, value) := divide text
  let attached := match value with
    | some value => Attached.value value
    | none => .nothing
  (options.filter fun (spelling, _) => front.isPrefixOf spelling).map fun (spelling, action) =>
    (spelling, action, attached)

/-- The options that an argument with a single dash may stand for. -/
def clustered (text : Text) : List (Text × Action × Attached) :=
  options.filterMap fun (spelling, action) =>
    if spelling = text.take 2 then some (spelling, action, .letters (text.drop 2))
    else if text.isPrefixOf spelling then some (spelling, action, .nothing)
    else none

/-- What an argument is, apart from the divider. -/
def classify (text : Text) : Except Refusal Piece :=
  match text with
  | '-' :: second :: _ =>
    match options.lookup text with
    | some action => .ok (.option text action .nothing)
    | none =>
      let (front, value) := divide text
      match value, options.lookup front with
      | some value, some action => .ok (.option front action (.value value))
      | _, _ =>
        match if second = '-' then abbreviated text else clustered text with
        | [(spelling, action, attached)] => .ok (.option spelling action attached)
        | [] =>
          if isNegativeNumber text || text.contains ' ' then .ok (.plain text)
          else .ok (.unknown text)
        | several => .error (.ambiguous text (several.map (·.1)))
  | _ => .ok (.plain text)

/-- What the arguments are; behind the divider all are plain. -/
def classifyAll : List Text → Except Refusal (List Piece)
  | [] => .ok []
  | text :: others =>
    if text = "--" then .ok (.divider text :: others.map .plain)
    else do
      let piece ← classify text
      let pieces ← classifyAll others
      return piece :: pieces

/-- The help option with letters attached: only further letters of the same option are accepted
without complaint, and an unknown letter does not keep the help from being shown. -/
def helpCluster : (letters : Text) → Refusal
  | [] => .help
  | '-' :: rest => .unwantedValue "-h" ('-' :: rest)
  | 'h' :: '=' :: rest => .unwantedValue "-h" rest
  | 'h' :: rest => helpCluster rest
  | _ => .help

/-- Takes the pieces in turn; `extras` collects the texts that mean nothing. -/
def interpret : List Piece → Arguments → (extras : List Text) → Except Refusal Arguments
  | [], arguments, extras =>
    if extras.isEmpty then .ok arguments else .error (.unrecognized extras)
  | .plain text :: others, arguments, extras => interpret others arguments (extras ++ [text])
  | .divider text :: others, arguments, extras => interpret others arguments (extras ++ [text])
  | .unknown text :: others, arguments, extras => interpret others arguments (extras ++ [text])
  | .option spelling action attached :: others, arguments, extras =>
    match action, attached with
    | .help, .nothing => .error .help
    | .help, .letters letters => .error (helpCluster letters)
    | .help, .value text => .error (.unwantedValue spelling text)
    | .switch turnOn, .nothing => interpret others (turnOn arguments) extras
    | .switch _, .value text | .switch _, .letters text => .error (.unwantedValue spelling text)
    | .value store, .value text | .value store, .letters text =>
      interpret others (store text arguments) extras
    | .value store, .nothing =>
      match others with
      | .plain text :: others => interpret others (store text arguments) extras
      | _ => .error (.missingValue spelling)

/-- The meaning of the arguments. -/
def parse (arguments : List Text) : Except Refusal Arguments := do
  interpret (← classifyAll arguments) {} []

/-- The names of the entities asked for; none stands for all. -/
def Arguments.selection (arguments : Arguments) : List Text :=
  if arguments.all then []
  else ((Text.pieces ',' (arguments.entities.getD [])).map Text.trim).filter (!·.isEmpty)

/-- Text without the quotes around it. -/
def stripQuotes (text : Text) : Text :=
  let text := Text.trim text
  match text with
  | quote :: inner =>
    if (quote = '\'' ∨ quote = '"') ∧ inner.getLast? = some quote then inner.dropLast else text
  | [] => []

end ReadOnlyViews.CommandLine
