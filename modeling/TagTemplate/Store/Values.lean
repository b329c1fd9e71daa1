import TagTemplate.Store

/-!
# Stores of JSON values

A `ValueStore` keeps JSON values under flat names, and it is filled while data is walked: each leaf
is written where it is met, and every level of the walk hands back what it wrote. Nothing in the
types keeps objects, lists and nulls out. That they stay out is a property of the operations, and a
store of values that is kept by them is a `Store` (`ValueStore.scalars?`), which is what engines
work on.

The names that begin with a text are removed by visiting them: from that text onward, in the order
of the names, up to the first one that does not begin with it.
-/

namespace TagTemplate

/-- JSON values under flat names. -/
abbrev ValueStore := Dict Json

/-- What one writing operation did to a store of values. -/
structure ValueScope where
  /-- The names written, in order. -/
  keys : List Text
  /-- The values overwritten, in order. -/
  previous : List (Text × Json)

namespace ValueScope

/-- Nothing was written. -/
def empty : ValueScope := ⟨[], []⟩

/-- What two operations did, one after the other. -/
def absorb (scope other : ValueScope) : ValueScope :=
  ⟨scope.keys ++ other.keys, scope.previous ++ other.previous⟩

end ValueScope

namespace ValueStore

/-! ### Writing -/

/-- Stores a value under a name. -/
def assign (s : ValueStore) (key : Text) (value : Json) : ValueStore × ValueScope :=
  (s.insert key value, ⟨[key], ((s.get? key).map fun old ↦ (key, old)).toList⟩)

mutual

/-- Flattens a value into the store under one key. A value that holds others is walked. -/
def writeField (s : ValueStore) (key : Text) (value : Json) (above separator : Text) :
    ValueStore × ValueScope :=
  let name := NameRule.separated separator above key
  match value with
  | .null => (s, .empty)
  | .scalar leaf => s.assign name (.scalar leaf)
  | .list items => writeItems s .empty 0 items name separator
  | .object fields => writeFields s .empty fields name separator

/-- Flattens the items of a list, which are keyed by their indices from `index` on, behind what the
scope says was written. -/
def writeItems (s : ValueStore) (scope : ValueScope) (index : Nat) (items : List Json)
    (above separator : Text) : ValueStore × ValueScope :=
  match items with
  | [] => (s, scope)
  | item :: items =>
    let written := writeField s (Text.ofNat index) item above separator
    writeItems written.1 (scope.absorb written.2) (index + 1) items above separator

/-- Flattens the fields of an object, behind what the scope says was written. -/
def writeFields (s : ValueStore) (scope : ValueScope) (fields : List (Text × Json))
    (above separator : Text) : ValueStore × ValueScope :=
  match fields with
  | [] => (s, scope)
  | (key, value) :: fields =>
    let written := writeField s key value above separator
    writeFields written.1 (scope.absorb written.2) fields above separator

end

/-- Flattens what is below the subject into the store. A subject that is a leaf has no name and is
left out. -/
def writeBelow (s : ValueStore) (subject : Json) (above separator : Text) :
    ValueStore × ValueScope :=
  match subject with
  | .list items => writeItems s .empty 0 items above separator
  | .object fields => writeFields s .empty fields above separator
  | _ => (s, .empty)

/-- Flattens a value into the store under a key, with dots. -/
def set (s : ValueStore) (key : Text) (value : Json) : ValueStore :=
  (s.writeField key value [] ['.']).1

/-- Writes properties as texts. -/
def writeProperties (s : ValueStore) (p : Properties) : ValueStore × ValueScope :=
  p.entries.foldl (fun written entry ↦
    let next := written.1.assign entry.1 (.str entry.2)
    (next.1, written.2.absorb next.2)) (s, .empty)

/-! ### Taking back and removing -/

/-- Removes the names. -/
def eraseAll (s : ValueStore) (keys : List Text) : ValueStore := keys.foldl Dict.erase s

/-- Undoes what a writing operation did: its names are removed and the values before it put back. -/
def restore (s : ValueStore) (scope : ValueScope) : ValueStore :=
  scope.previous.reverse.foldl (fun s entry ↦ s.insert entry.1 entry.2) (s.eraseAll scope.keys)

/-- The names from `start` onward, ascending. -/
def keysFrom (s : ValueStore) (start : Text) : List Text := s.keys.filter (¬ · < start)

/-- Removes the names that begin with `start`, and counts them: of the names from `start` onward,
those up to the first one that does not begin with it. -/
def eraseStarting (s : ValueStore) (start : Text) : ValueStore × Nat :=
  let visited := (s.keysFrom start).takeWhile (·.startsWith start)
  (s.eraseAll visited, visited.length)

/-! ### Reading -/

/-- The text of the value under a name, if it has one. -/
def text? (s : ValueStore) (key : Text) : Option Text :=
  (s.get? key).bind fun value ↦ value.scalar?.map Scalar.text

/-- The entry as one of scalars, if its value is a leaf that has a text. -/
def leaf? (entry : Text × Json) : Option (Text × Scalar) :=
  entry.2.scalar?.map fun leaf ↦ (entry.1, leaf)

/-- The leaves as properties, in the order of the names. -/
def toProperties (s : ValueStore) : Properties :=
  .ofList ((s.entries.filterMap leaf?).map fun entry ↦ (entry.1, entry.2.text))

/-- The store of scalars that the store is, if it holds nothing else. -/
def scalars? (s : ValueStore) : Option Store := (s.entries.mapM leaf?).map Dict.ofList

end ValueStore

/-- The store as a store of values. -/
def Store.values (s : Store) : ValueStore :=
  ⟨s.entries.map fun entry ↦ (entry.1, .scalar entry.2), List.pairwise_map.2 s.sorted⟩

/-- The scope as a scope of values. -/
def Scope.values (scope : Scope) : ValueScope :=
  ⟨scope.keys, scope.previous.map fun entry ↦ (entry.1, .scalar entry.2)⟩

end TagTemplate
