import ReadOnlyViews.Entity.Basic
import ReadOnlyViews.Failure

/-!
Entities from the members of a JSON configuration.  Values of the wrong kind are turned into text
where a text is wanted; where a list is wanted they fail.
-/

namespace ReadOnlyViews

namespace JsonOf

variable {α : Type}

/-- The whole number that a number or a truth value equals. -/
def whole? : JsonOf α → Option Int
  | .bool value => some (if value then 1 else 0)
  | .int value => some value
  | .real (.finite negative mantissa exponent) =>
    let sign : Int := if negative then -1 else 1
    if exponent ≥ 0 then some (sign * (mantissa * Real64.twoTo exponent.toNat))
    else
      let unit := Real64.twoTo (-exponent).toNat
      if mantissa % unit = 0 then some (sign * (mantissa / unit)) else none
  | _ => none

/-- Whether two scalars are the same key: numbers and truth values by value, texts by text. -/
def sameKey [DecidableEq α] (a b : JsonOf α) : Bool :=
  match a.whole?, b.whole? with
  | some x, some y => x == y
  | none, none =>
    match a, b with
    | .null, .null => true
    | .string s, .string t => s == t
    | .real x, .real y => x == y
    | _, _ => false
  | _, _ => false

/-- The elements of a value that can be gone through: items, members' keys or characters. -/
def elements? : JsonOf α → Option (List (JsonOf α))
  | .array items => some items
  | .object members => some (members.map fun (key, _) => .string key)
  | .string text => some (text.map fun c => .string [c])
  | _ => none

end JsonOf

namespace Annotations

/-- Sets the value under a key; a key that is already there keeps its place. -/
def put (key value : Json) : Annotations → Annotations
  | [] => [(key, value)]
  | (k, v) :: others =>
    if JsonOf.sameKey k key then (k, value) :: others else (k, v) :: put key value others

/-- Annotations from a list of pairs, from the element with the given index on. -/
def ofPairs (known : Annotations) : (index : Nat) → List Json → Except Failure Annotations
  | _, [] => .ok known
  | index, element :: others =>
    match element.elements? with
    | none => .error (.notPair index)
    | some [key, value] =>
      match key with
      | .array _ | .object _ => .error (.compositeKey key.kindWord)
      | key => ofPairs (put key value known) (index + 1) others
    | some parts => .error (.pairLength index parts.length)

/-- Annotations from the value of a configuration's member. -/
def ofJson (value : Json) : Except Failure Annotations :=
  if !value.holds then .ok []
  else match value with
    | .object members => .ok (members.map fun (key, value) => (.string key, value))
    | value =>
      match value.elements? with
      | some pairs => ofPairs [] 0 pairs
      | none => .error (.notIterable value.kindWord)

end Annotations

namespace Entity

/-- What one element of the field list says: a field, the type of the primary key, or nothing. -/
inductive FieldEntry where
  | field (field : Field)
  | key (type : Text)
  | nothing

/-- The reading of one element of the field list. -/
def fieldEntry : Json → FieldEntry
  | .object members =>
    match JsonOf.setMember? "fieldName" members with
    | none => .nothing
    | some name =>
      let type := ((JsonOf.setMember? "fieldType" members).map JsonOf.text).getD "Object"
      if (JsonOf.setMember? "id" members).isSome then .key type
      else .field
        { name := name.text, type,
          isBlob := (JsonOf.setMember? "fieldTypeBlobContent" members).isSome }
  | _ => .nothing

/-- The elements of the field list. -/
def fieldList (value : Option Json) : Except Failure (List Json) :=
  match value with
  | none => .ok []
  | some value =>
    match value.elements? with
    | some elements => .ok elements
    | none => .error (.notIterable value.kindWord)

/-- The entity of a configuration; `name` is used when the configuration gives none. -/
def ofConfig (name : Text) (config : List (Text × Json)) : Except Failure Entity := do
  let className := Naming.upperFirst
    (((JsonOf.setMember? "name" config).map JsonOf.text).getD name)
  let elements ← fieldList (JsonOf.setMember? "fields" config)
  let entries := elements.map fieldEntry
  let fields := entries.filterMap fun
    | .field field => some field
    | _ => none
  let listedKey := (entries.filterMap fun
    | .key type => some type
    | _ => none).getLast?
  let givenKey := match JsonOf.member? "primaryKey" config with
    | some (.object members) => (JsonOf.setMember? "type" members).map JsonOf.text
    | _ => none
  let annotations ← Annotations.ofJson ((JsonOf.member? "annotations" config).getD .null)
  return {
    name := className
    className
    table := ((JsonOf.setMember? "entityTableName" config).map JsonOf.text).getD
      (Naming.snakeCase className)
    fields
    keyType := (givenKey.or listedKey).getD "Long"
    annotations }

/-- The entity of a configuration value, which must be an object. -/
def ofJson (name : Text) : Json → Except Failure Entity
  | .object config => ofConfig name config
  | other => .error (.noMember other.kindWord)

end Entity

end ReadOnlyViews
