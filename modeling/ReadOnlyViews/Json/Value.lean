import ReadOnlyViews.Number.Real64
import ReadOnlyViews.Text.Points

/-!
JSON values as configurations give them: whole numbers and fractions are kept apart, and the
members of an object keep their order.  A string is read as code points, and becomes a text where a
text is wanted.
-/

namespace ReadOnlyViews

/-- A JSON value with strings of some kind of characters. -/
inductive JsonOf (α : Type) where
  | null
  | bool (value : Bool)
  | int (value : Int)
  | real (value : Real64)
  | string (value : List α)
  | array (items : List (JsonOf α))
  | object (members : List (List α × JsonOf α))
  deriving Repr

/-- A JSON value whose strings are texts. -/
abbrev Json := JsonOf Char

/-- A JSON value as it is read: its strings are code points. -/
abbrev RawJson := JsonOf Nat

namespace JsonOf

variable {α : Type}

/-- Whether a value counts as set: not null, false, zero or empty. -/
def holds : JsonOf α → Bool
  | .null => false
  | .bool value => value
  | .int value => value != 0
  | .real value => !value.isZero
  | .string value => !value.isEmpty
  | .array items => !items.isEmpty
  | .object members => !members.isEmpty

/-- Whether a value is null or equal to false; every zero is. -/
def isOff : JsonOf α → Bool
  | .null => true
  | .bool value => !value
  | .int value => value == 0
  | .real value => value.isZero
  | _ => false

/-- The word for the kind of a value in messages. -/
def kindWord : JsonOf α → Text
  | .null => "NoneType"
  | .bool _ => "bool"
  | .int _ => "int"
  | .real _ => "float"
  | .string _ => "str"
  | .array _ => "list"
  | .object _ => "dict"

mutual

/-- The text of a value inside another one, where strings are quoted. -/
def shown (quoted : List α → Text) : JsonOf α → Text
  | .null => "None"
  | .bool value => if value then "True" else "False"
  | .int value => Text.ofInt value
  | .real value => value.text
  | .string value => quoted value
  | .array items => "[" ++ shownItems quoted items ++ "]"
  | .object members => "\x7b" ++ shownMembers quoted members ++ "\x7d"

/-- The texts of the items of a list, with commas. -/
def shownItems (quoted : List α → Text) : List (JsonOf α) → Text
  | [] => []
  | [item] => shown quoted item
  | item :: next :: others => shown quoted item ++ ", " ++ shownItems quoted (next :: others)

/-- The texts of the members of an object, with commas. -/
def shownMembers (quoted : List α → Text) : List (List α × JsonOf α) → Text
  | [] => []
  | [(key, value)] => quoted key ++ ": " ++ shown quoted value
  | (key, value) :: next :: others =>
    quoted key ++ ": " ++ shown quoted value ++ ", " ++ shownMembers quoted (next :: others)

end

variable [DecidableEq α]

/-- The value of a member, if the object has it. -/
def member? (key : List α) (members : List (List α × JsonOf α)) : Option (JsonOf α) := members.lookup key

/-- The value of a member that counts as set. -/
def setMember? (key : List α) (members : List (List α × JsonOf α)) : Option (JsonOf α) :=
  (member? key members).filter holds

/-- Adds a member; a key that is already there keeps its place and takes the new value. -/
def putMember (key : List α) (value : JsonOf α) : List (List α × JsonOf α) → List (List α × JsonOf α)
  | [] => [(key, value)]
  | (k, v) :: others => if k = key then (k, value) :: others else (k, v) :: putMember key value others

/-- The text of a value: a string is its own text. -/
def text : JsonOf Char → Text
  | .string value => value
  | value => value.shown Text.quoted

/-- The code points of a value's text: a string is its own text. -/
def points : JsonOf Nat → List Nat
  | .string value => value
  | value => Text.points (value.shown Text.quotedPoints)

end JsonOf

namespace Json

mutual

/-- The value with texts for code points; the replacement character stands for half of a surrogate
pair. -/
def ofRaw : RawJson → Json
  | .null => .null
  | .bool value => .bool value
  | .int value => .int value
  | .real value => .real value
  | .string value => .string (Text.ofPoints value)
  | .array items => .array (ofRawItems items)
  | .object members => .object (ofRawMembers members)

/-- The items of a list with texts for code points. -/
def ofRawItems : List RawJson → List Json
  | [] => []
  | item :: others => ofRaw item :: ofRawItems others

/-- The members of an object with texts for code points. -/
def ofRawMembers : List (List Nat × RawJson) → List (Text × Json)
  | [] => []
  | (key, value) :: others => (Text.ofPoints key, ofRaw value) :: ofRawMembers others

end

end Json

end ReadOnlyViews
