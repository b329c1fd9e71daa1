import TagTemplate.Json.Basic

/-!
# Writing JSON text

The text of a value is compact: no blanks between tokens. In strings the quote, the backslash and
the control characters are escaped, by their letter where they have one; every other character
stands for itself.
-/

namespace TagTemplate.Json

/-- The hexadecimal digit of a number below sixteen. -/
def hexDigit (n : Nat) : Char := Nat.digitChar n

/-- A character inside a string. -/
def escape (c : Char) : Text :=
  if c = '"' then "\\\"".toList
  else if c = '\\' then "\\\\".toList
  else if c.toNat = 0x08 then "\\b".toList
  else if c = '\t' then "\\t".toList
  else if c = '\n' then "\\n".toList
  else if c.toNat = 0x0C then "\\f".toList
  else if c = '\r' then "\\r".toList
  else if c.toNat < 0x20 then "\\u00".toList ++ [hexDigit (c.toNat / 16), hexDigit (c.toNat % 16)]
  else [c]

/-- A string between its quotes. -/
def quoted (t : Text) : Text := '"' :: t.flatMap escape ++ ['"']

/-- The text of a scalar. -/
def scalarText : Scalar → Text
  | .str t => quoted t
  | s => s.text

mutual

/-- The text of a value. -/
def text : Json → Text
  | .null => "null".toList
  | .scalar s => scalarText s
  | .list items => '[' :: Text.join [','] (itemTexts items) ++ [']']
  | .object fields => '\x7b' :: Text.join [','] (fieldTexts fields) ++ ['\x7d']

/-- The texts of the items of a list. -/
def itemTexts : List Json → List Text
  | [] => []
  | item :: items => text item :: itemTexts items

/-- The texts of the fields of an object. -/
def fieldTexts : List (Text × Json) → List Text
  | [] => []
  | (key, value) :: fields => (quoted key ++ ':' :: text value) :: fieldTexts fields

end

end TagTemplate.Json
