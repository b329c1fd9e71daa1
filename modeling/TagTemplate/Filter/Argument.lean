import TagTemplate.Json.Reader
import TagTemplate.Json.Writer
import TagTemplate.Text.Blank

/-!
# Filter arguments

An argument that spells a JSON object is a table of texts by key, and one that spells a JSON list a
table by index. Every other argument, whether it is JSON or not, is a text of its own and is kept as
written under the key `value`.
-/

namespace TagTemplate

/-- A decoded argument. -/
structure FilterArgument where
  entries : Dict Text
  /-- Whether the argument spells an object or a list. -/
  isTable : Bool

namespace FilterArgument

/-- The key of an argument that is a text of its own. -/
def valueKey : Text := "value".toList

/-- The text of an entry: nested values in JSON, null as the empty text. -/
def entryText : Json → Text
  | .null => []
  | .scalar s => s.text
  | j => j.text

/-- Decodes an argument. -/
def parse (raw : Text) : FilterArgument :=
  match Json.read? raw.trim with
  | some (.object fields) => ⟨.ofList (fields.map fun (key, value) ↦ (key, entryText value)), true⟩
  | some (.list items) =>
    ⟨.ofList (items.zipIdx.map fun (item, index) ↦ (Text.ofNat index, entryText item)), true⟩
  | _ => ⟨.ofList [(valueKey, raw)], false⟩

/-- The text under a key. -/
def get? (argument : FilterArgument) (key : Text) : Option Text := argument.entries.get? key

/-- The text that most methods use. -/
def value? (argument : FilterArgument) : Option Text := argument.get? valueKey

end FilterArgument

end TagTemplate
