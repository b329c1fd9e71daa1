import TagTemplate.Yaml.Tag

/-!
# YAML tokens

YAML text is cut into tokens before it is read. A collection is written in flow style, between
brackets, or in block style, by indentation; tokens stand for the brackets that indentation implies,
so that they can be read without looking at columns.
-/

namespace TagTemplate.Yaml

/-- A token of YAML text. -/
inductive Token
  | directive (content : Directive)
  /-- The mark `---` that begins a document. -/
  | start
  /-- The mark `...` that ends a document. -/
  | stop
  /-- A dash, and the start of a block of items. -/
  | item | openItems
  /-- The start of a key and of a value, and the start of a block of fields. -/
  | key | value | openFields
  /-- The end of a block. -/
  | closeBlock
  /-- The brackets and the comma of flow style. -/
  | openList | closeList | openMapping | closeMapping | comma
  /-- A name for the part that follows, and one that stands for the part so named. -/
  | anchor (name : Text) | aliasOf (name : Text)
  | tag (name : TagName)
  | text (content : Text) (plain : Bool)

end TagTemplate.Yaml
