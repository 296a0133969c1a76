import ReadOnlyViews.Disk.Path
import ReadOnlyViews.Json.Reader
import ReadOnlyViews.Text.Utf8

/-!
Why an operation fails.  Every failure is a cause; its wording, the word for its class and the
family by which callers tell recoverable failures apart are functions of the cause.
-/

namespace ReadOnlyViews

/-- What the file system answers when it refuses. -/
inductive DiskFault where
  | noSuchEntry
  | entryExists
  | notFolder
  | isFolder
  | nameTooLong
  | tooManyLinks
  deriving DecidableEq, Repr

namespace DiskFault

/-- The number of a fault. -/
def code : DiskFault → Nat
  | noSuchEntry => 2
  | entryExists => 17
  | notFolder => 20
  | isFolder => 21
  | nameTooLong => 36
  | tooManyLinks => 40

/-- The words for a fault. -/
def words : DiskFault → Text
  | noSuchEntry => "No such file or directory"
  | entryExists => "File exists"
  | notFolder => "Not a directory"
  | isFolder => "Is a directory"
  | nameTooLong => "File name too long"
  | tooManyLinks => "Too many levels of symbolic links"

/-- The class word for a fault. -/
def label : DiskFault → Text
  | noSuchEntry => "FileNotFoundError"
  | entryExists => "FileExistsError"
  | notFolder => "NotADirectoryError"
  | isFolder => "IsADirectoryError"
  | nameTooLong => "OSError"
  | tooManyLinks => "OSError"

/-- Whether a question about an entry takes the fault for "there is none". -/
def meansAbsent : DiskFault → Bool
  | noSuchEntry | notFolder | tooManyLinks => true
  | _ => false

end DiskFault

/-- How callers group failures. -/
inductive Family where
  /-- Input that is not allowed. -/
  | validation
  /-- Something expected is absent. -/
  | notFound
  /-- Text or bytes that cannot be processed. -/
  | malformed
  /-- The file system refused. -/
  | disk
  /-- A value of the right kind that makes no sense. -/
  | value
  /-- A value of the wrong kind. -/
  | kind
  /-- A member asked of a value that has none. -/
  | member
  /-- A number out of range. -/
  | range
  /-- Any other failure at run time. -/
  | runtime
  deriving DecidableEq, Repr

namespace Family

/-- The class word of a family. -/
def label : Family → Text
  | validation => "ValidationError"
  | notFound => "NotFoundError"
  | malformed => "MalformedInputError"
  | disk => "OSError"
  | value => "ValueError"
  | kind => "TypeError"
  | member => "AttributeError"
  | range => "OverflowError"
  | runtime => "RuntimeError"

/-- Whether the failure is one of the three that an edit of a project foresees. -/
def isForeseen : Family → Bool
  | validation | notFound | malformed => true
  | _ => false

end Family

/-- Why an operation fails. -/
inductive Failure where
  /-- A SQL file path climbs to a parent folder. -/
  | parentSegment (raw : Text)
  /-- A SQL file path does not start at the project. -/
  | notRelative (raw : Text)
  /-- A path leads out of the project. -/
  | outsideProject (raw : Text)
  /-- No anchor matches; `sought` is shown as the thing to insert. -/
  | noAnchor (sought : Text)
  /-- The SQL file of a view is not there. -/
  | noSqlFile (raw : Text)
  /-- The SQL file of a view holds only white space. -/
  | emptySqlFile (raw : Text)
  /-- A view has neither SQL text nor a SQL file. -/
  | noSql (view : Text)
  /-- The body of the method that starts on this line never closes. -/
  | unbalancedMethod (line : Nat)
  /-- A file of the project is not UTF-8; the offset is that of the first fault. -/
  | notUtf8 (file : Text) (offset : Nat)
  /-- An edit would break a source that was well formed. -/
  | brokenEdit
  /-- The file system refused; a rename also names its destination. -/
  | disk (fault : DiskFault) (path : Path) (destination : Option Path)
  /-- A file that the project does not have, or no longer. -/
  | noFile (file : Text)
  /-- Links that lead back to themselves. -/
  | linkLoop (path : Path)
  /-- A path with a NUL character. -/
  | nulInPath
  /-- A text file outside the project's own reader is not UTF-8. -/
  | undecodable (fault : Utf8.Fault)
  /-- A text with half of a surrogate pair at this position cannot be encoded. -/
  | unencodable (half position : Nat)
  /-- The calendar has no further second. -/
  | calendarEnd
  /-- A configuration is not JSON. -/
  | notJson (fault : Json.Fault)
  /-- A list was expected and a single value of this kind was found. -/
  | notIterable (kind : Text)
  /-- A member was asked of a value of this kind. -/
  | noMember (kind : Text)
  /-- An element of a list of pairs is no sequence. -/
  | notPair (index : Nat)
  /-- An element of a list of pairs has another length. -/
  | pairLength (index length : Nat)
  /-- A key of a pair is a list or an object. -/
  | compositeKey (kind : Text)
  /-- A diagnostic of an unknown level. -/
  | unknownLevel (level : Text)
  /-- A failure that a caller's own step reports. -/
  | reported (family : Family) (message : Text)
  deriving DecidableEq, Repr

namespace Failure

/-- The family of a failure. -/
def family : Failure → Family
  | parentSegment _ | notRelative _ | outsideProject _ => .validation
  | noAnchor _ | noSqlFile _ | emptySqlFile _ | noSql _ => .notFound
  | unbalancedMethod _ | notUtf8 _ _ | brokenEdit => .malformed
  | disk _ _ _ | noFile _ => .disk
  | linkLoop _ => .runtime
  | nulInPath | undecodable _ | unencodable _ _ | notJson _ | pairLength _ _ | unknownLevel _ => .value
  | notIterable _ | notPair _ | compositeKey _ => .kind
  | noMember _ => .member
  | calendarEnd => .range
  | reported family _ => family

/-- The class word of a failure. -/
def label : Failure → Text
  | disk fault _ _ => fault.label
  | noFile _ => "FileNotFoundError"
  | undecodable _ => "UnicodeDecodeError"
  | unencodable _ _ => "UnicodeEncodeError"
  | notJson (.notJson _ _ _ _) => "JSONDecodeError"
  | failure => failure.family.label

/-- The words for a fault of a byte sequence. -/
def decodingWords (fault : Utf8.Fault) : Text :=
  let place : Text :=
    if fault.length = 1 then
      " byte 0x" ++ Text.hexPadded 2 fault.first.toNat ++ " in position " ++ Text.ofNat fault.offset
    else
      " bytes in position " ++ Text.ofNat fault.offset ++ "-" ++
        Text.ofNat (fault.offset + fault.length - 1)
  let what : Text := match fault.kind with
    | .start => "invalid start byte"
    | .continuation => "invalid continuation byte"
    | .truncated => "unexpected end of data"
  "'utf-8' codec can't decode" ++ place ++ ": " ++ what

/-- The wording of a failure. -/
def message : Failure → Text
  | parentSegment raw => "path traversal detected in SQL file path: " ++ raw
  | notRelative raw => "SQL file path must be relative to the project root: " ++ raw
  | outsideProject raw => "path is outside the project directory: " ++ raw
  | noAnchor sought => "no suitable anchor for " ++ sought
  | noSqlFile raw => "SQL file not found: " ++ raw
  | emptySqlFile raw => "SQL file is empty: " ++ raw
  | noSql view => "no SQL defined for view " ++ view
  | unbalancedMethod line =>
    "no balancing brace for method at line " ++ Text.ofNat line ++ "; rest of file left untouched"
  | notUtf8 file offset => "not valid UTF-8: " ++ file ++ " (byte " ++ Text.ofNat offset ++ ")"
  | brokenEdit => "edited source no longer parses; original kept"
  | disk fault path destination =>
    "[Errno " ++ Text.ofNat fault.code ++ "] " ++ fault.words ++ ": " ++ Text.quoted path.text ++
      match destination with
      | some onto => " -> " ++ Text.quoted onto.text
      | none => []
  | noFile file => file
  | linkLoop path => "Symlink loop from " ++ Text.quoted path.text
  | nulInPath => "embedded null byte"
  | undecodable fault => decodingWords fault
  | unencodable half position =>
    "'utf-8' codec can't encode character " ++ Text.quotedPoints [half] ++ " in position " ++
      Text.ofNat position ++ ": surrogates not allowed"
  | calendarEnd => "date value out of range"
  | notJson fault => fault.message
  | notIterable kind => "'" ++ kind ++ "' object is not iterable"
  | noMember kind => "'" ++ kind ++ "' object has no attribute 'get'"
  | notPair index =>
    "cannot convert dictionary update sequence element #" ++ Text.ofNat index ++ " to a sequence"
  | pairLength index length =>
    "dictionary update sequence element #" ++ Text.ofNat index ++ " has length " ++
      Text.ofNat length ++ "; 2 is required"
  | compositeKey kind => "unhashable type: '" ++ kind ++ "'"
  | unknownLevel level => "unknown diagnostic level: " ++ level
  | reported _ message => message

end Failure

end ReadOnlyViews
