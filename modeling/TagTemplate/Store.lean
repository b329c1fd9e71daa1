import TagTemplate.Json.Flatten
import TagTemplate.Properties.Basic

/-!
# The placeholder store

The store is where `[[+name]]` finds its text: a dictionary from names to scalars. Nested data is
flattened on the way in, so that only leaves are stored, and each of them has a text.

Every operation that writes answers a `Scope`: which names it wrote, in order, and which values they
held before. Giving the scope back to `Store.restore` undoes the writes. Since one operation may
write a name several times, the values are put back last to first, and the oldest one stays.
-/

namespace TagTemplate

/-- Scalars under flat names. -/
abbrev Store := Dict Scalar

/-- What one writing operation did. -/
structure Scope where
  /-- The names written, in order. -/
  keys : List Text
  /-- The values overwritten, in order. -/
  previous : List (Text × Scalar)
deriving DecidableEq, Repr

namespace Store

/-- Writes the leaves one after the other. -/
def write (s : Store) : List (Text × Scalar) → Store × Scope
  | [] => (s, ⟨[], []⟩)
  | (key, value) :: leaves =>
    let (s', scope) := write (s.insert key value) leaves
    let overwritten := match s.get? key with
      | some old => [(key, old)]
      | none => []
    (s', ⟨key :: scope.keys, overwritten ++ scope.previous⟩)

/-- Flattens what is below the subject into the store. A subject that is a leaf has no name and is
left out. -/
def writeBelow (s : Store) (subject : Json) (above separator : Text) : Store × Scope :=
  write s (subject.flattenBelow (.separated separator) above)

/-- Flattens a value into the store under one key. -/
def writeField (s : Store) (key : Text) (value : Json) (above separator : Text) : Store × Scope :=
  let rule := NameRule.separated separator
  write s (value.flatten rule (rule above key))

/-- Flattens a value into the store under a key, with dots. -/
def set (s : Store) (key : Text) (value : Json) : Store := (writeField s key value [] ['.']).1

/-- Writes properties as texts. -/
def writeProperties (s : Store) (p : Properties) : Store × Scope :=
  write s (p.entries.map fun (key, value) ↦ (key, .str value))

/-- Removes the names. -/
def eraseAll (s : Store) (keys : List Text) : Store := keys.foldl Dict.erase s

/-- Undoes what a writing operation did: its names are removed and the values before it put back. -/
def restore (s : Store) (scope : Scope) : Store :=
  scope.previous.reverse.foldl (fun s (key, value) ↦ s.insert key value) (eraseAll s scope.keys)

/-- The text stored under a name. -/
def text? (s : Store) (key : Text) : Option Text := (s.get? key).map Scalar.text

/-- Removes the names that begin with `start`, and counts them. -/
def eraseStarting (s : Store) (start : Text) : Store × Nat :=
  let s' := Dict.eraseStarting s start
  (s', s.size - s'.size)

/-- The store as properties, in the order of the names. -/
def toProperties (s : Store) : Properties :=
  .ofList (s.entries.map fun (key, value) ↦ (key, value.text))

end Store

end TagTemplate
