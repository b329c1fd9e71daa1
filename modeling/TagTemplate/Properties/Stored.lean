import TagTemplate.Json.Basic
import TagTemplate.Properties.Definition

/-!
# Definitions as JSON

A definition is stored as a JSON object with one field for each of its parts. Reading is strict
about the parts, all of which must be there and of their kind, and lenient about the shape: unknown
fields are passed over, and a list gives the parts by position.
-/

namespace TagTemplate

/-- Reads a text. -/
def Definition.text? : Json → Option Text
  | .scalar (.str t) => some t
  | _ => none

/-- The parts of a stored value, by name. A list must be exactly as long as the names. -/
def Definition.part? (names : List String) (j : Json) (name : String) : Option Json :=
  match j with
  | .object fields => fields.lookup name.toList
  | .list items => if items.length = names.length then (names.zip items).lookup name else none
  | _ => none

/-- Reads a field type: its name, or an object whose one key is the name. -/
def FieldType.ofJson? : Json → Option FieldType
  | .scalar (.str name) => ofName? name
  | .object [(name, .null)] => ofName? name
  | _ => none

namespace Choice

/-- The names of the parts of a choice. -/
def partNames : List String := ["name", "value"]

/-- Reads a choice. -/
def ofJson? (j : Json) : Option Choice := do
  let part? := Definition.part? partNames j
  let name ← (← part? "name") |> Definition.text?
  let value ← (← part? "value") |> Definition.text?
  return ⟨name, value⟩

/-- The choice as JSON. -/
def toJson (choice : Choice) : Json :=
  .ofFields [("name".toList, .str choice.name), ("value".toList, .str choice.value)]

end Choice

namespace Definition

/-- The names of the parts of a definition. -/
def partNames : List String := ["name", "description", "field_type", "options", "value"]

/-- Reads the choices of a definition. -/
def choices? : Json → Option (List Choice)
  | .list items => items.mapM Choice.ofJson?
  | _ => none

/-- Reads a definition. -/
def ofJson? (j : Json) : Option Definition := do
  let part? := part? partNames j
  let name ← (← part? "name") |> text?
  let description ← (← part? "description") |> text?
  let type ← (← part? "field_type") |> FieldType.ofJson?
  let choices ← (← part? "options") |> choices?
  let value ← (← part? "value") |> text?
  return ⟨name, description, type, choices, value⟩

/-- The definition as JSON. -/
def toJson (definition : Definition) : Json :=
  .ofFields [("name".toList, .str definition.name),
    ("description".toList, .str definition.description),
    ("field_type".toList, .str definition.type.name),
    ("options".toList, .list (definition.choices.map Choice.toJson)),
    ("value".toList, .str definition.value)]

end Definition

end TagTemplate
