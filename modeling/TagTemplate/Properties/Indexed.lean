import TagTemplate.Properties.Basic

/-!
# Properties with an index

A list of properties is searched by trying them in turn. An `IndexedProperties` need not be: beside
the sequence of the named texts, in their order, it keeps a dictionary with the position of each
name. A new name comes last and its position is put down; a text that is set again is changed where
the index says it stands.

Nothing in the types keeps the two in step. A position may be past the end of the sequence, and an
operation that is sent there has no answer at all, which is not the answer that a name has no text.
Two maps are the same when both their sequences and their indices are.
-/

namespace TagTemplate

/-- Named texts in a sequence, and an index of the names. -/
structure IndexedProperties where
  /-- The named texts, in order of first insertion. -/
  entries : Array (Text × Text)
  /-- The position of each name. -/
  index : Dict Nat

namespace IndexedProperties

/-- The map without properties. -/
def empty : IndexedProperties := ⟨#[], .empty⟩

/-- The properties one after the other, as they are iterated over. -/
def toList (p : IndexedProperties) : List (Text × Text) := p.entries.toList

/-- The names of the properties, in their order. -/
def names (p : IndexedProperties) : List Text := p.toList.map (·.1)

/-- The text of a property, if the index knows its name. -/
def find? (p : IndexedProperties) (key : Text) : Option (Option Text) :=
  match p.index.get? key with
  | some position => (p.entries[position]?).map fun entry ↦ some entry.2
  | none => some none

/-- Whether the property is there. -/
def contains (p : IndexedProperties) (key : Text) : Bool := p.index.contains key

/-- The number of properties. -/
def size (p : IndexedProperties) : Nat := p.entries.size

/-- Whether there is no property. -/
def isEmpty (p : IndexedProperties) : Bool := p.entries.isEmpty

/-- Sets a property, and tells which text it had, if any. -/
def insert? (p : IndexedProperties) (key value : Text) :
    Option (IndexedProperties × Option Text) :=
  match p.index.get? key with
  | some position =>
    (p.entries[position]?).map fun entry ↦
      ({ p with entries := p.entries.setIfInBounds position (entry.1, value) }, some entry.2)
  | none => some (⟨p.entries.push (key, value), p.index.insert key p.entries.size⟩, none)

/-- Sets the pairs one after the other. -/
def extend? (p : IndexedProperties) (pairs : List (Text × Text)) : Option IndexedProperties :=
  pairs.foldlM (fun p pair ↦ (p.insert? pair.1 pair.2).map (·.1)) p

/-- The properties of both maps; the second one's texts win. -/
def merge? (p q : IndexedProperties) : Option IndexedProperties := p.extend? q.toList

/-- The properties set by the pairs one after the other. -/
def ofList? (pairs : List (Text × Text)) : Option IndexedProperties := empty.extend? pairs

end IndexedProperties

end TagTemplate
