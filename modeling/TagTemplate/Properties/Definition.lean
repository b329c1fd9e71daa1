import TagTemplate.Properties.Basic
import TagTemplate.Text.Quote
import TagTemplate.Text.Upper

/-!
# Property strings

A property string is a list of segments `name=value`, each behind an `&`. Values are quoted with
backticks, and a doubled backtick is a literal one. A segment that is not a name and a value is
dropped without affecting its neighbours. A separator that was written `&amp;` leaves `amp;` at the
start of the name, where it is removed.

A value of the form `description;type;value`, or `description;type;choices;value` for the types that
offer choices, is a legacy value: it describes the property beside giving its text. `definitions`
keeps the description; `Properties.parse` keeps names and texts only.
-/

namespace TagTemplate

/-- The kind of field that edits a property. -/
inductive FieldType
  | text | number | checkbox | list | combo | date | radio | area | time
deriving DecidableEq, Repr

namespace FieldType

/-- All field types. -/
def all : List FieldType := [text, number, checkbox, list, combo, date, radio, area, time]

/-- The canonical name. -/
def name : FieldType → Text
  | text => "textfield".toList
  | number => "numberfield".toList
  | checkbox => "checkbox".toList
  | list => "list".toList
  | combo => "combo".toList
  | date => "datefield".toList
  | radio => "radio".toList
  | area => "textarea".toList
  | time => "timefield".toList

/-- The field type with the canonical name. -/
def ofName? (token : Text) : Option FieldType := all.find? fun type ↦ type.name = token

/-- The field type that a legacy value names: by a canonical name or by the name of a basic type. An
unknown name is a text field. -/
def ofToken (token : Text) : FieldType :=
  if token = "string".toList then text
  else if token ∈ ["int".toList, "integer".toList, "float".toList] then number
  else if token ∈ ["bool".toList, "boolean".toList] then checkbox
  else (ofName? token).getD text

/-- Whether a legacy value of the type lists choices before its text. -/
def offersChoices (token : Text) : Bool := token = "list".toList || token = "combo".toList

end FieldType

/-- One of the texts that a property may take, and its label. -/
structure Choice where
  name : Text
  value : Text
deriving DecidableEq, Repr

/-- A choice labelled by its text with a capital first letter. -/
def Choice.ofValue (value : Text) : Choice := ⟨value.capitalize, value⟩

/-- A property with its description. -/
structure Definition where
  name : Text
  description : Text
  type : FieldType
  choices : List Choice
  value : Text
deriving DecidableEq, Repr

namespace Definition

/-- A text property without description. -/
def plain (name value : Text) : Definition := ⟨name, [], .text, [], value⟩

/-- Reads a value in one of the legacy forms; the text is still quoted. A value that names a type
but has too few parts for it keeps its first part as description and text alike. -/
def ofLegacy (name raw : Text) : Definition :=
  match raw.split ';' with
  | description :: type :: rest =>
    match FieldType.offersChoices type, rest with
    | true, choices :: value :: _ =>
      ⟨name, description, .ofToken type, (choices.splitAt ',').map .ofValue, value⟩
    | false, value :: _ => ⟨name, description, .ofToken type, [], value⟩
    | _, _ => ⟨name, description, .text, [], description⟩
  | _ => plain name raw

/-- The start of a name that an encoded separator leaves behind. -/
def encodedRest : Text := "amp;".toList

/-- The name without what an encoded separator left in front of it. -/
def cleanName (name : Text) : Text := (name.after? encodedRest).getD name

theorem cleanName_append (name : Text) : cleanName (encodedRest ++ name) = name := by
  rw [cleanName, Text.after?_append, Option.getD_some]

theorem cleanName_of_not_prefix {name : Text} (h : ¬encodedRest <+: name) :
    cleanName name = name := by
  have hnone : name.after? encodedRest = none :=
    Text.after?_eq_none_iff.2 fun rest hrest ↦ h ⟨rest, hrest.symm⟩
  rw [cleanName, hnone, Option.getD_none]

/-- Reads a segment, unless it is not a name and a value. -/
def ofSegment? (segment : Text) : Option Definition :=
  match segment.split '=' with
  | [name, raw] =>
    let definition := ofLegacy (cleanName name) raw
    some { definition with value := definition.value.unquote }
  | _ => none

/-- The definitions in a property string, in order. -/
def parse (source : Text) : List Definition := (source.split '&').filterMap ofSegment?

end Definition

namespace Properties

/-- The properties set by a property string. -/
def parse (source : Text) : Properties :=
  ofList ((Definition.parse source).map fun definition ↦ (definition.name, definition.value))

/-- A property as a segment of a property string. -/
def segment (entry : Text × Text) : Text := entry.1.trim ++ '=' :: entry.2.quote

/-- The property string that sets the properties. -/
def toPropertyString (p : Properties) : Text := Text.join ['&'] (p.entries.map segment)

end Properties

end TagTemplate
