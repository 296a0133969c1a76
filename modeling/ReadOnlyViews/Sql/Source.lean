import ReadOnlyViews.Disk.Resolve
import ReadOnlyViews.Sql.Statement

/-!
Where the SQL of a view comes from: the text given in place, or else a file of the project.
-/

namespace ReadOnlyViews.Sql

/-- A view: its name, and the SQL or the file of it. -/
structure ViewSource where
  name : Text
  sql : Option Text := none
  file : Option Text := none
  deriving DecidableEq, Repr

/-- The SQL of a view.  The path of a file must pass both checks, of its form and of the place it
leads to, before `read` is asked for its text. -/
def ViewSource.text (view : ViewSource) (disk : Disk) (root : Path)
    (read : Path → Except Failure Text) : Except Failure Text :=
  match (view.sql.map Text.trim).filter (!·.isEmpty) with
  | some sql => .ok sql
  | none =>
    match view.file.filter (!·.isEmpty) with
    | none => .error (.noSql view.name)
    | some file => do
      checkPath file
      let target ← disk.resolveWithin root file
      match disk.isFile target with
      | .error fault => .error (.disk fault target none)
      | .ok false => .error (.noSqlFile file)
      | .ok true =>
        let text ← read target
        if (Text.trim text).isEmpty then .error (.emptySqlFile file) else .ok text

/-- Text with every line end as a line feed. -/
def unifyNewlines : Text → Text
  | [] => []
  | '\r' :: '\n' :: rest => '\n' :: unifyNewlines rest
  | c :: rest => (if c = '\r' then '\n' else c) :: unifyNewlines rest

/-- The text of a file of the disk, with line ends unified. -/
def readPlain (disk : Disk) (path : Path) : Except Failure Text :=
  match disk.readFile path with
  | .error fault => .error (.disk fault path none)
  | .ok content =>
    match Utf8.decode content with
    | .ok text => .ok (unifyNewlines text)
    | .error fault => .error (.undecodable fault)

end ReadOnlyViews.Sql
