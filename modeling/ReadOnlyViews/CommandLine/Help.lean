import ReadOnlyViews.CommandLine.Arguments

/-!
What the command line says about itself.
-/

namespace ReadOnlyViews.CommandLine

/-- How the program is called. -/
def usage : Text :=
  "usage: viewbot [-h] [--root ROOT] [--package PACKAGE] [--entities ENTITIES] [--all]\n" ++
    "               [--dry-run] [--no-liquibase] [--no-mybatis] [--no-cleanup] [--quiet]\n"

/-- What the options do. -/
def descriptions : List (Text × Text) := [
  ("-h, --help", "show this help message and exit"),
  ("--root ROOT", "Generated application root"),
  ("--package PACKAGE", "Base package (default: packageName from .yo-rc.json)"),
  ("--entities ENTITIES", "Comma-separated entity names (e.g. OrderSummary,SalesView)"),
  ("--all", "Process every entity (overrides --entities)"),
  ("--dry-run", "Do not write files"),
  ("--no-liquibase", "Skip createView changelog generation"),
  ("--no-mybatis", "Skip MyBatis model/mapper generation"),
  ("--no-cleanup", "Keep table changelogs and fake data of view entities"),
  ("--quiet", "Only print warnings and errors")]

/-- One option and what it does, in two columns. -/
def descriptionLine (option : Text × Text) : Text :=
  "  " ++ option.1 ++ List.replicate (22 - option.1.length) ' ' ++ option.2 ++ "\n"

/-- The help. -/
def helpText : Text :=
  usage ++ "\nTurn JHipster entities backed by database views into read-only code\n\noptions:\n" ++
    descriptions.flatMap descriptionLine

/-- What is said when the arguments are refused. -/
def Refusal.notice (refusal : Refusal) : Text :=
  match refusal.complaint? with
  | some complaint => usage ++ "viewbot: error: " ++ complaint ++ "\n"
  | none => helpText

end ReadOnlyViews.CommandLine
