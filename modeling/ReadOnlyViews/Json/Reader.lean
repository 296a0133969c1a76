import ReadOnlyViews.Json.Value

/-!
Reading JSON text.  Besides the standard grammar the words for not-a-number and the infinities are
values.  A text that cannot be read gives the first fault and its place.
-/

namespace ReadOnlyViews.Json

/-- What a reader can trip over. -/
inductive Problem where
  | byteOrderMark
  | value
  | propertyName
  | colon
  | comma
  | openString
  | controlCharacter
  | escape
  | unicodeEscape
  | extraData
  deriving DecidableEq, Repr

/-- The words for a problem. -/
def Problem.words : Problem → Text
  | byteOrderMark => "Unexpected UTF-8 BOM (decode using utf-8-sig)"
  | value => "Expecting value"
  | propertyName => "Expecting property name enclosed in double quotes"
  | colon => "Expecting ':' delimiter"
  | comma => "Expecting ',' delimiter"
  | openString => "Unterminated string starting at"
  | controlCharacter => "Invalid control character at"
  | escape => "Invalid \\escape"
  | unicodeEscape => "Invalid \\uXXXX escape"
  | extraData => "Extra data"

/-- Why a text cannot be read. -/
inductive Fault where
  /-- The text is not JSON; the place is an offset and its line and column, counted from one. -/
  | notJson (problem : Problem) (line column offset : Nat)
  /-- A whole number has more digits than are read. -/
  | longNumber (digits : Nat)
  deriving DecidableEq, Repr

/-- The most digits that a whole number may have. -/
def digitLimit : Nat := 4300

/-- The wording of a fault. -/
def Fault.message : Fault → Text
  | notJson problem line column offset =>
    problem.words ++ ": line " ++ Text.ofNat line ++ " column " ++ Text.ofNat column ++ " (char " ++
      Text.ofNat offset ++ ")"
  | longNumber digits =>
    "Exceeds the limit (" ++ Text.ofNat digitLimit ++
      " digits) for integer string conversion: value has " ++ Text.ofNat digits ++
      " digits; use sys.set_int_max_str_digits() to increase the limit"

/-- A fault while the place is still known only by the number of characters from it to the end. -/
inductive Stuck where
  | at (problem : Problem) (left : Nat)
  | longNumber (digits : Nat)

/-- The text without its leading JSON white space. -/
def skipBlanks (text : Text) : Text :=
  text.dropWhile fun c => c == ' ' || c == '\t' || c == '\n' || c == '\r'

/-- The value of a digit in base sixteen. -/
def hexDigit? (c : Char) : Option Nat :=
  if '0' ≤ c ∧ c ≤ '9' then some (c.toNat - '0'.toNat)
  else if 'a' ≤ c ∧ c ≤ 'f' then some (c.toNat - 'a'.toNat + 10)
  else if 'A' ≤ c ∧ c ≤ 'F' then some (c.toNat - 'A'.toNat + 10)
  else none

/-- The value of four digits in base sixteen. -/
def hexUnit? (a b c d : Char) : Option Nat := do
  let a ← hexDigit? a
  let b ← hexDigit? b
  let c ← hexDigit? c
  let d ← hexDigit? d
  return ((a * 16 + b) * 16 + c) * 16 + d

/-- The character of a one-letter escape. -/
def escaped? : Char → Option Char
  | '"' => some '"'
  | '\\' => some '\\'
  | '/' => some '/'
  | 'b' => some '\x08'
  | 'f' => some '\x0c'
  | 'n' => some '\n'
  | 'r' => some '\r'
  | 't' => some '\t'
  | _ => none

/-- The code units of a string up to its closing quote; `opened` is the number of characters left
at the opening quote. -/
def stringUnits (opened : Nat) : Text → Except Stuck (List Nat × Text)
  | [] => .error (.at .openString opened)
  | '"' :: rest => .ok ([], rest)
  | ['\\'] => .error (.at .openString opened)
  | '\\' :: 'u' :: a :: b :: c :: d :: next :: rest =>
    match hexUnit? a b c d with
    | none => .error (.at .unicodeEscape (rest.length + 6))
    | some unit => (fun (units, after) => (unit :: units, after)) <$> stringUnits opened (next :: rest)
  | '\\' :: e :: rest =>
    if e = 'u' then .error (.at .unicodeEscape (rest.length + 1))
    else match escaped? e with
      | none => .error (.at .escape (rest.length + 2))
      | some c =>
        (fun (units, after) => (c.toNat :: units, after)) <$> stringUnits opened rest
  | c :: rest =>
    if c.toNat < 0x20 then .error (.at .controlCharacter (rest.length + 1))
    else (fun (units, after) => (c.toNat :: units, after)) <$> stringUnits opened rest

/-- The code points of code units: a high and a low surrogate in a row are one character. -/
def joinUnits : List Nat → List Nat
  | [] => []
  | high :: low :: rest =>
    if 0xd800 ≤ high ∧ high < 0xdc00 ∧ 0xdc00 ≤ low ∧ low < 0xe000 then
      (0x10000 + (high - 0xd800) * 0x400 + (low - 0xdc00)) :: joinUnits rest
    else high :: joinUnits (low :: rest)
  | [unit] => [unit]

/-- A string, read from behind its opening quote. -/
def readString (text : Text) : Except Stuck (List Nat × Text) :=
  (fun (units, after) => (joinUnits units, after)) <$> stringUnits (text.length + 1) text

/-- The value of decimal digits. -/
def digitsValue (digits : Text) : Nat :=
  digits.foldl (fun n c => 10 * n + (c.toNat - '0'.toNat)) 0

/-- The digits of a fraction, if a point and a digit come next, and the text behind them. -/
def fraction : Text → Text × Text
  | '.' :: d :: rest =>
    if d.isDigit then (d :: rest.takeWhile Char.isDigit, rest.dropWhile Char.isDigit)
    else ([], '.' :: d :: rest)
  | rest => ([], rest)

/-- The exponent, if one comes next, and the text behind it. -/
def exponent? : Text → Option (Int × Text)
  | mark :: rest =>
    if mark = 'e' ∨ mark = 'E' then
      let (negative, rest) := match rest with
        | '-' :: rest => (true, rest)
        | '+' :: rest => (false, rest)
        | rest => (false, rest)
      let digits := rest.takeWhile Char.isDigit
      if digits.isEmpty then none
      else
        let n : Int := digitsValue digits
        some (if negative then -n else n, rest.dropWhile Char.isDigit)
    else none
  | [] => none

/-- A number; `start` is the text at its first character. -/
def readNumber (start : Text) : Except Stuck (RawJson × Text) :=
  let (negative, rest) := match start with
    | '-' :: rest => (true, rest)
    | rest => (false, rest)
  let whole := match rest with
    | '0' :: _ => ['0']
    | rest => rest.takeWhile Char.isDigit
  if whole.isEmpty then .error (.at .value start.length)
  else
    let rest := rest.drop whole.length
    let (places, rest) := fraction rest
    let digits := digitsValue (whole ++ places)
    match exponent? rest with
    | some (power, rest) =>
      .ok (.real (Real64.ofDecimal negative digits (power - places.length)), rest)
    | none =>
      if places.isEmpty then
        if whole.length > digitLimit then .error (.longNumber whole.length)
        else .ok (.int (if negative then -(digits : Int) else digits), rest)
      else .ok (.real (Real64.ofDecimal negative digits (-(places.length : Int))), rest)

/-- The items of an array from the first one on; `item` reads one of them. -/
def readItems (item : Text → Except Stuck (RawJson × Text)) :
    (bound : Nat) → Text → Except Stuck (List RawJson × Text)
  | 0, text => .error (.at .value text.length)
  | bound + 1, text => do
    let (first, rest) ← item text
    match skipBlanks rest with
    | ']' :: rest => return ([first], rest)
    | ',' :: rest => do
      let (others, rest) ← readItems item bound (skipBlanks rest)
      return (first :: others, rest)
    | rest => .error (.at .comma rest.length)

/-- The members of an object from the first key on, added to those already read. -/
def readMembers (item : Text → Except Stuck (RawJson × Text)) :
    (bound : Nat) → List (List Nat × RawJson) → Text → Except Stuck (List (List Nat × RawJson) × Text)
  | 0, _, text => .error (.at .value text.length)
  | bound + 1, known, text =>
    match text with
    | '"' :: rest => do
      let (key, rest) ← readString rest
      match skipBlanks rest with
      | ':' :: rest => do
        let (value, rest) ← item (skipBlanks rest)
        let known := JsonOf.putMember key value known
        match skipBlanks rest with
        | '\x7d' :: rest => return (known, rest)
        | ',' :: rest => readMembers item bound known (skipBlanks rest)
        | rest => .error (.at .comma rest.length)
      | rest => .error (.at .colon rest.length)
    | text => .error (.at .propertyName text.length)

/-- The words that are values. -/
def wordValues : List (Text × RawJson) :=
  [("null", .null), ("true", .bool true), ("false", .bool false), ("NaN", .real .nan),
    ("Infinity", .real (.infinite false)), ("-Infinity", .real (.infinite true))]

/-- One value at the start of the text; `depth` bounds the nesting. -/
def readValue : (depth : Nat) → Text → Except Stuck (RawJson × Text)
  | 0, text => .error (.at .value text.length)
  | depth + 1, text =>
    match text with
    | '"' :: rest => (fun (value, after) => (.string value, after)) <$> readString rest
    | '[' :: rest =>
      match skipBlanks rest with
      | ']' :: rest => .ok (.array [], rest)
      | rest =>
        (fun (items, after) => (.array items, after)) <$>
          readItems (readValue depth) rest.length.succ rest
    | '\x7b' :: rest =>
      match skipBlanks rest with
      | '\x7d' :: rest => .ok (.object [], rest)
      | rest =>
        (fun (members, after) => (.object members, after)) <$>
          readMembers (readValue depth) rest.length.succ [] rest
    | text =>
      match wordValues.findSome? fun (word, value) => (Text.after? word text).map (value, ·) with
      | some found => .ok found
      | none => readNumber text

/-- The fault of a text, with its place worked out. -/
def Stuck.fault (text : Text) : Stuck → Fault
  | .at problem left =>
    let offset := text.length - left
    let passed := text.take offset
    .notJson problem (Text.lineFeeds passed + 1)
      ((passed.reverse.takeWhile (· != '\n')).length + 1) offset
  | .longNumber digits => .longNumber digits

/-- The value that a text spells, or its first fault. -/
def read (text : Text) : Except Fault RawJson :=
  if text.head? == some '\ufeff' then .error (.notJson .byteOrderMark 1 1 0)
  else match readValue (text.length + 1) (skipBlanks text) with
    | .error stuck => .error (stuck.fault text)
    | .ok (value, rest) =>
      match skipBlanks rest with
      | [] => .ok value
      | rest => .error (Stuck.fault text (.at .extraData rest.length))

/-- The value that a text spells, with texts for its strings, or its first fault. -/
def parse (text : Text) : Except Fault Json := (read text).map ofRaw

end ReadOnlyViews.Json
