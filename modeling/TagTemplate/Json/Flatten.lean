import TagTemplate.Json.Basic

/-!
# Flattening

Nested values become flat names: the name of a leaf is built from the keys and list indices on the
way to it. How a name is extended by one more key is a rule of its own, since stores and property
records join differently; flattening lists the leaves with their names, in the order of the value,
and leaves out nulls.
-/

namespace TagTemplate

/-- How the name of a nested value is made from the name above it and the key below. -/
abbrev NameRule := Text → Text → Text

/-- Names joined by the separator wherever there is something on both sides to be joined. -/
def NameRule.separated (separator : Text) : NameRule := fun above key ↦
  if above.isEmpty || separator.isEmpty then above ++ key else above ++ separator ++ key

/-- Names joined by a dot, an empty name above included. -/
def NameRule.dotted : NameRule := fun above key ↦ above ++ '.' :: key

namespace Json

mutual

/-- The leaves that have a text, each under its name, for a value that stands under `name`. -/
def flatten (rule : NameRule) (name : Text) : Json → List (Text × Scalar)
  | .null => []
  | .scalar s => [(name, s)]
  | .list items => flattenItems rule name 0 items
  | .object fields => flattenFields rule name fields

/-- The leaves of the items of a list, which are keyed by their indices from `index` on. -/
def flattenItems (rule : NameRule) (name : Text) (index : Nat) : List Json → List (Text × Scalar)
  | [] => []
  | item :: items =>
    flatten rule (rule name (Text.ofNat index)) item ++ flattenItems rule name (index + 1) items

/-- The leaves of the fields of an object. -/
def flattenFields (rule : NameRule) (name : Text) : List (Text × Json) → List (Text × Scalar)
  | [] => []
  | (key, value) :: fields =>
    flatten rule (rule name key) value ++ flattenFields rule name fields

end

/-- The leaves below a value that stands under `name`; a value that is itself a leaf has none. -/
def flattenBelow (rule : NameRule) (name : Text) : Json → List (Text × Scalar)
  | .list items => flattenItems rule name 0 items
  | .object fields => flattenFields rule name fields
  | _ => []

end Json

end TagTemplate
