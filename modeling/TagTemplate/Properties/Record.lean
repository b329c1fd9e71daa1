import TagTemplate.Json.Flatten
import TagTemplate.Properties.Basic

/-!
# Properties and JSON

A JSON object gives properties: each of its values under its key, nested values flattened to dotted
names. A value that is a full property record, an object with a `value`, stands for that value.
-/

namespace TagTemplate.Properties

/-- The value that a field of a property source stands for. -/
def recordValue (j : Json) : Json := (j.field? "value".toList).getD j

/-- The properties that a JSON value gives; none, unless it is an object. -/
def ofJson : Json → Properties
  | .object fields =>
    ofList <| fields.flatMap fun (key, value) ↦
      ((recordValue value).flatten .dotted key).map fun (name, leaf) ↦ (name, leaf.text)
  | _ => empty

/-- The properties as a JSON object of strings. -/
def toJson (p : Properties) : Json := .ofFields (p.entries.map fun (key, value) ↦ (key, .str value))

end TagTemplate.Properties
