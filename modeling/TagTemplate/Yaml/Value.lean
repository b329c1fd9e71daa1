import TagTemplate.Yaml.Basic
import TagTemplate.Yaml.Scalar

/-!
# YAML documents as JSON

A document is read as a JSON value. Its mappings become objects, in which the last of equal keys
wins. Nesting is limited, and counted through aliases, so that a part that contains itself has no
value.
-/

namespace TagTemplate.Yaml

/-- The greatest number of collections that a value may be nested in. -/
def deepest : Nat := 128

namespace Document

/-- Reads a part as a JSON value, nested at most so deep. A collection with a tag of the document's
own has none. -/
def json (d : Document) (depth : Nat) (part : Yaml) : Reading Json := do
  match ← d.follow part, depth with
  | .text tag content plain, _ => textValue? tag content plain
  | .list tag items, depth + 1 =>
    if tag.any isOwnTag then failure
    return .list (← items.mapM (d.json depth))
  | .mapping tag fields, depth + 1 =>
    if tag.any isOwnTag then failure
    return .ofFields (← fields.mapM fun (key, value) ↦ return (← d.text key, ← d.json depth value))
  | _, _ => failure

/-- The JSON value of the document. -/
def json? (d : Document) : Option Json := d.readWith (d.json deepest d.root)

end Document

end TagTemplate.Yaml
