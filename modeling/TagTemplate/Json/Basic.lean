import TagTemplate.Decimal.Shortest
import TagTemplate.Dict

/-!
# JSON values

The data that templates are filled from is JSON. Leaves that have a text of their own are `Scalar`s;
null is a leaf without one. Numbers are integers or floats according to how they were written, so
that `1` and `1.0` keep their texts apart.

The fields of an object are a list of pairs. Every object that the library builds goes through
`Json.ofFields`, which puts the keys in ascending order and lets the last of equal keys win, so that
an object is iterated in the order of its keys.
-/

namespace TagTemplate

/-- A number as written: without a fraction and an exponent it is an integer. -/
inductive Number
  | int (value : Int)
  | float (value : Binary64)
deriving DecidableEq, Repr

/-- The decimal text of a number. -/
def Number.text : Number → Text
  | .int (.ofNat n) => Text.ofNat n
  | .int (.negSucc n) => '-' :: Text.ofNat (n + 1)
  | .float x => x.text

/-- A leaf that has a text. -/
inductive Scalar
  | bool (value : Bool)
  | num (value : Number)
  | str (value : Text)
deriving DecidableEq, Repr

/-- A scalar as it appears in output: strings as they are, the others in their JSON spelling. -/
def Scalar.text : Scalar → Text
  | .bool true => "true".toList
  | .bool false => "false".toList
  | .num n => n.text
  | .str s => s

/-- A JSON value. -/
inductive Json
  | null
  | scalar (value : Scalar)
  | list (items : List Json)
  | object (fields : List (Text × Json))

namespace Json

/-- A string value. -/
abbrev str (t : Text) : Json := .scalar (.str t)

/-- A boolean value. -/
abbrev bool (b : Bool) : Json := .scalar (.bool b)

/-- An integer value. -/
abbrev int (i : Int) : Json := .scalar (.num (.int i))

/-- The scalar of a leaf that has a text. -/
def scalar? : Json → Option Scalar
  | .scalar s => some s
  | _ => none

/-- The object with the given fields; a later field replaces an earlier one with its key. -/
def ofFields (fields : List (Text × Json)) : Json :=
  .object (Dict.ofList fields).entries

/-- The value that an object has under the key. -/
def field? (key : Text) : Json → Option Json
  | .object fields => fields.lookup key
  | _ => none

/-- What kind of value it is, as messages name it. -/
def kindName : Json → Text
  | .null => "null".toList
  | .scalar (.bool _) => "a boolean".toList
  | .scalar (.num _) => "a number".toList
  | .scalar (.str _) => "a string".toList
  | .list _ => "a list".toList
  | .object _ => "a mapping".toList

end Json

end TagTemplate
