import TagTemplate.Json.Basic
import TagTemplate.Text.Digit
import TagTemplate.Yaml.Tag

/-!
# The values of YAML texts

A plain text may mean something other than itself: null, a boolean or a number (`plainValue?`). A
text between quotes means itself. A tag overrides both: one that asks for a null, a boolean or a
number asks for the text of one, and one that asks for anything else leaves the text as it is. A tag
of the document's own means nothing to JSON.
-/

namespace TagTemplate.Yaml

/-- The spellings of the value null. -/
def nullNames : List Text := ["~", "null", "Null", "NULL"].map String.toList

/-- The spellings of true. -/
def trueNames : List Text := ["true", "True", "TRUE"].map String.toList

/-- The spellings of false. -/
def falseNames : List Text := ["false", "False", "FALSE"].map String.toList

/-- The spellings of the floats that are no numbers; JSON has no value for them. -/
def boundlessNames : List Text :=
  [".inf", ".Inf", ".INF", "+.inf", "+.Inf", "+.INF", "-.inf", "-.Inf", "-.INF", ".nan", ".NaN",
    ".NAN"].map String.toList

/-- Takes a sign off the front of a number; tells whether it is a minus. -/
def unsigned : Text → Bool × Text
  | '-' :: t => (true, t)
  | '+' :: t => (false, t)
  | t => (false, t)

/-- Whether the text is a number with needless zeros in front, which is no number at all. -/
def isPadded (t : Text) : Bool :=
  let (_, t) := unsigned t
  t.head? = some '0' && 1 < t.length && t.all Char.isDigit

/-- The magnitude of an integer: hexadecimal behind `0x`, octal behind `0o`, binary behind `0b`,
decimal otherwise. -/
def magnitude? : Text → Option Nat
  | '0' :: 'x' :: t => Text.number? 16 t
  | '0' :: 'o' :: t => Text.number? 8 t
  | '0' :: 'b' :: t => Text.number? 2 t
  | t => if isPadded t then none else Text.number? 10 t

/-- The integer that the text writes, within the range of 128 bits. -/
def integer? (t : Text) : Option Int := do
  let (negative, t) := unsigned t
  let n ← magnitude? t
  if negative then if n ≤ Nat.pow 2 127 then some (-n) else none
  else if n < Nat.pow 2 128 then some n else none

/-- The integer as a value, unless it needs more than 64 bits, signed or unsigned. -/
def integerValue? (i : Int) : Option Json :=
  if -0x8000000000000000 ≤ i ∧ i ≤ 0xFFFFFFFFFFFFFFFF then some (.int i) else none

/-- The exponent that ends a float: digits, at least one, behind `e` and maybe a sign. -/
def exponent? : Text → Option Int
  | [] => some 0
  | e :: t => do
    if e ≠ 'e' ∧ e ≠ 'E' then none
    let (negative, t) := unsigned t
    let n ← Text.number? 10 t
    return if negative then -n else n

/-- The float that the text writes, rounded once. There have to be digits on one side of the
point. -/
def float? (t : Text) : Option Binary64 := do
  let (negative, t) := unsigned t
  let (whole, t) := Text.takeDigits 10 t
  let (fraction, t) := match t with
    | '.' :: t => Text.takeDigits 10 t
    | t => ([], t)
  if whole.isEmpty ∧ fraction.isEmpty then none
  let exponent ← exponent? t
  Binary64.ofDecimal? negative (Text.ofDigits 10 (whole ++ fraction)) (exponent - fraction.length)

/-- The boolean that the text spells. -/
def boolValue? (t : Text) : Option Json :=
  if t ∈ trueNames then some (.bool true)
  else if t ∈ falseNames then some (.bool false)
  else none

/-- The float that the text spells. -/
def floatValue? (t : Text) : Option Json :=
  if t ∈ boundlessNames then some .null
  else (float? t).map fun x ↦ .scalar (.num (.float x))

/-- What a plain text means. An integer beyond 128 bits is a float. -/
def plainValue? (t : Text) : Option Json :=
  if t.isEmpty ∨ t ∈ nullNames then some .null
  else if let some value := boolValue? t then some value
  else if let some i := integer? t then integerValue? i
  else if isPadded t then some (.str t)
  else some ((floatValue? t).getD (.str t))

/-- What a text means under a tag, or without one. -/
def textValue? (tag : Option Text) (content : Text) (plain : Bool) : Option Json :=
  match tag with
  | none => if plain then plainValue? content else some (.str content)
  | some tag =>
    if isOwnTag tag then none
    else if tag = coreTag "bool" then boolValue? content
    else if tag = coreTag "int" then (integer? content).bind integerValue?
    else if tag = coreTag "float" then floatValue? content
    else if tag = coreTag "null" then if content ∈ nullNames then some .null else none
    else if tag.head? = some '!' ∧ plain then plainValue? content
    else some (.str content)

end TagTemplate.Yaml
