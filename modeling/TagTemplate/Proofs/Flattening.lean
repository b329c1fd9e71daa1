import TagTemplate.Proofs.LeafPaths
import TagTemplate.Store.Values

/-!
# Flattening writes the leaves

A store of values is filled while the data is walked, and every level of the walk passes on the
store and what was written so far. What comes of it is told here by a list of writes, one after the
other: which names they are, what every name holds behind them, and what each of them has replaced
(`ValueStore.Writes`). Two such lists, one behind the other, are a list again
(`ValueStore.Writes.absorb`), and so each level adds the writes of its leaves to those before it.

A write may replace a value that was written by the same flattening, as names can collide. Therefore
what a write replaces is told by what its name holds behind the writes before it, and not by the
store alone.
-/

namespace TagTemplate

namespace ValueStore

/-! ### Writes, one after the other -/

/-- What a name holds behind the writes: the last value written under it, or what it held before. -/
def held (s : ValueStore) (writes : List (Text × Json)) (key : Text) : Option Json :=
  (writes.reverse.lookup key).or (s.get? key)

/-- What one of the writes replaces, given with its position: its name and the value that the name
holds behind the writes before it. -/
def replaced? (s : ValueStore) (writes : List (Text × Json)) (write : (Text × Json) × Nat) :
    Option (Text × Json) :=
  (s.held (writes.take write.2) write.1.1).map fun old ↦ (write.1.1, old)

/-- What the writes replace, in their order. -/
def overwritten (s : ValueStore) (writes : List (Text × Json)) : List (Text × Json) :=
  writes.zipIdx.filterMap (s.replaced? writes)

/-- A store and a scope are what comes of the writes. -/
structure Writes (s : ValueStore) (writes : List (Text × Json))
    (written : ValueStore × ValueScope) : Prop where
  keys : written.2.keys = writes.map (·.1)
  get? : ∀ key, written.1.get? key = s.held writes key
  previous : written.2.previous = s.overwritten writes

variable {s s' : ValueStore} {writes writes' : List (Text × Json)}

/-- What is held after further writes is told by all of them. -/
theorem held_append (h : ∀ key, s'.get? key = s.held writes key) (key : Text) :
    s'.held writes' key = s.held (writes ++ writes') key := by
  rw [held, h, held, held, List.reverse_append, List.lookup_append, Option.or_assoc]

/-- What further writes replace is told by what is held at each of them. -/
theorem overwritten_append (h : ∀ key, s'.get? key = s.held writes key) :
    s.overwritten (writes ++ writes') = s.overwritten writes ++ s'.overwritten writes' := by
  rw [overwritten, List.zipIdx_append, List.filterMap_append]
  refine congrArg₂ (· ++ ·) ?_ ?_
  · refine List.filterMap_congr fun write hwrite ↦ ?_
    have hlt : write.2 < writes.length := by
      have := List.snd_lt_of_mem_zipIdx hwrite
      omega
    rw [replaced?, replaced?, List.take_append_of_le_length (Nat.le_of_lt hlt)]
  · rw [overwritten, List.zipIdx_eq_map_add, List.filterMap_map]
    refine List.filterMap_congr fun write _ ↦ ?_
    show s.replaced? _ (write.1, 0 + writes.length + write.2) = s'.replaced? writes' write
    rw [replaced?, replaced?, held_append h, Nat.zero_add, List.take_length_add_append]

namespace Writes

/-- Nothing is written. -/
theorem nil (s : ValueStore) : Writes s [] (s, .empty) := ⟨rfl, fun _ ↦ rfl, rfl⟩

/-- Writes behind writes. -/
theorem absorb {written written' : ValueStore × ValueScope} (h : Writes s writes written)
    (h' : Writes written.1 writes' written') :
    Writes s (writes ++ writes') (written'.1, written.2.absorb written'.2) where
  keys := by rw [ValueScope.absorb, h.keys, h'.keys, List.map_append]
  get? key := by rw [h'.get?, held_append h.get?]
  previous := by rw [ValueScope.absorb, h.previous, h'.previous, overwritten_append h.get?]

/-- **What comes of writes is determined by them.** -/
theorem unique {written written' : ValueStore × ValueScope} (h : Writes s writes written)
    (h' : Writes s writes written') : written = written' := by
  obtain ⟨store, keys, previous⟩ := written
  obtain ⟨store', keys', previous'⟩ := written'
  obtain rfl : store = store' := Dict.ext fun key ↦ (h.get? key).trans (h'.get? key).symm
  obtain rfl : keys = keys' := h.keys.trans h'.keys.symm
  obtain rfl : previous = previous' := h.previous.trans h'.previous.symm
  rfl

end Writes

/-- To store a value under a name is one write. -/
theorem writes_assign (s : ValueStore) (key : Text) (value : Json) :
    Writes s [(key, value)] (s.assign key value) where
  keys := rfl
  get? key' := by
    rw [assign, Dict.get?_insert, held, List.reverse_singleton, Dict.lookup_cons]
    split <;> rfl
  previous := by
    have hreplaced : s.replaced? [(key, value)] ((key, value), 0) =
        (s.get? key).map fun old ↦ (key, old) := rfl
    show _ = [((key, value), 0)].filterMap _
    rw [List.filterMap_cons, hreplaced, assign]
    rcases s.get? key with - | old <;> rfl

/-! ### Flattening -/

/-- A leaf as a value to be written. -/
def ofLeaf (leaf : Text × Scalar) : Text × Json := (leaf.1, .scalar leaf.2)

mutual

/-- **Flattening a value under a key** writes its leaves under their names. -/
theorem writes_writeField (s : ValueStore) (key above separator : Text) : (value : Json) →
    Writes s ((value.flatten (.separated separator) (NameRule.separated separator above key)).map
      ofLeaf) (s.writeField key value above separator)
  | .null => .nil s
  | .scalar leaf => s.writes_assign _ (.scalar leaf)
  | .list items => by
    rw [writeField, Json.flatten]
    exact writes_writeItems (.nil s) 0 _ separator items
  | .object fields => by
    rw [writeField, Json.flatten]
    exact writes_writeFields (.nil s) _ separator fields

/-- The items of a list are written one after the other, by induction on them. -/
theorem writes_writeItems {start : ValueStore} {before : List (Text × Json)} {s : ValueStore}
    {scope : ValueScope} (h : Writes start before (s, scope)) (index : Nat)
    (above separator : Text) : (items : List Json) →
    Writes start (before ++
      (Json.flattenItems (.separated separator) above index items).map ofLeaf)
      (s.writeItems scope index items above separator)
  | [] => by
    rw [writeItems, Json.flattenItems, List.map_nil, List.append_nil]
    exact h
  | item :: items => by
    rw [writeItems, Json.flattenItems, List.map_append, ← List.append_assoc]
    have hitem := s.writes_writeField (Text.ofNat index) above separator item
    exact writes_writeItems (h.absorb hitem) (index + 1) above separator items

/-- The fields of an object are written one after the other, by induction on them. -/
theorem writes_writeFields {start : ValueStore} {before : List (Text × Json)} {s : ValueStore}
    {scope : ValueScope} (h : Writes start before (s, scope)) (above separator : Text) :
    (fields : List (Text × Json)) →
    Writes start (before ++
      (Json.flattenFields (.separated separator) above fields).map ofLeaf)
      (s.writeFields scope fields above separator)
  | [] => by
    rw [writeFields, Json.flattenFields, List.map_nil, List.append_nil]
    exact h
  | (key, value) :: fields => by
    rw [writeFields, Json.flattenFields, List.map_append, ← List.append_assoc]
    have hvalue := s.writes_writeField key above separator value
    exact writes_writeFields (h.absorb hvalue) above separator fields

end

/-- **Flattening what is below a subject** writes its leaves under their names. -/
theorem writes_writeBelow (s : ValueStore) (subject : Json) (above separator : Text) :
    Writes s ((subject.flattenBelow (.separated separator) above).map ofLeaf)
      (s.writeBelow subject above separator) := by
  match subject with
  | .null => exact .nil s
  | .scalar _ => exact .nil s
  | .list items => exact writes_writeItems (.nil s) 0 above separator items
  | .object fields => exact writes_writeFields (.nil s) above separator fields

/-- **Writing properties** writes their texts under their names. -/
theorem writes_writeProperties (s : ValueStore) (p : Properties) :
    Writes s (p.entries.map fun entry ↦ (entry.1, .str entry.2)) (s.writeProperties p) := by
  have hbehind (entries : List (Text × Text)) : ∀ {before written}, Writes s before written →
      Writes s (before ++ entries.map fun entry ↦ (entry.1, .str entry.2))
        (entries.foldl (fun written entry ↦
          let next := written.1.assign entry.1 (.str entry.2)
          (next.1, written.2.absorb next.2)) written) := by
    induction entries with
    | nil =>
      intro before written h
      rw [List.map_nil, List.append_nil]
      exact h
    | cons entry entries ih =>
      intro before written h
      rw [List.map_cons, List.append_cons]
      exact ih (h.absorb (written.1.writes_assign entry.1 (.str entry.2)))
  exact hbehind p.entries (.nil s)

/-- **Flattening writes exactly the leaves.** For every store, subject, name above and separator: let
the leaves below the subject that have a text be listed in the order of a walk through it, each with
its place, and let a leaf be named by the texts of its steps behind the name above, joined by the
separator except as long as they are empty. Then the scope lists these names in this order; each of
them holds the last leaf that has it, and every other name holds what it held; and the scope has, for
each write in turn whose name held a value behind the writes before it, the name and that value.

The list is what it should be: if the objects of the subject list their keys in ascending order, it
has each leaf below the subject at its place and nothing else, and it is in the order of the places,
by ascending keys and by counting indices. -/
theorem flattening_writes_leaves (s : ValueStore) (subject : Json) (above separator : Text) :
    let writes := subject.walkBelow.map fun leaf ↦
      (Json.placeName above separator leaf.1, Json.scalar leaf.2)
    let flattened := s.writeBelow subject above separator
    flattened.2.keys = writes.map (·.1) ∧
    (∀ key, flattened.1.get? key = (writes.reverse.lookup key).or (s.get? key)) ∧
    flattened.2.previous = (writes.zipIdx.filterMap fun (write, i) ↦
      (((writes.take i).reverse.lookup write.1).or (s.get? write.1)).map fun old ↦
        (write.1, old)) ∧
    (subject.Ordered → subject.walkBelow.Pairwise Json.PlacedLeaf.Before ∧
      ∀ path leaf, (path, leaf) ∈ subject.walkBelow ↔
        path ≠ [] ∧ subject.at? path = some (.scalar leaf)) := by
  intro writes flattened
  have hwrites : Writes s writes flattened := by
    have hbelow := s.writes_writeBelow subject above separator
    rw [Json.flattenBelow_eq, List.map_map] at hbelow
    exact hbelow
  refine ⟨hwrites.keys, hwrites.get?, hwrites.previous, fun hordered ↦ ⟨?_, fun path leaf ↦ ?_⟩⟩
  · exact Json.pairwise_walkBelow hordered
  · exact Json.mem_walkBelow_iff hordered

/-- An object with a key that is named like a leaf below another key. -/
def crossing : Json :=
  .ofFields [("a.b".toList, .str ['x']),
    (['a'], .ofFields [(['c'], .list [.null, .bool true]), (['b'], .int 1)])]

/-- A text spells it. -/
theorem ordered_crossing : crossing.Ordered := by
  have hread : Json.read?
      "\x7b\"a.b\": \"x\", \"a\": \x7b\"c\": [null, true], \"b\": 1\x7d\x7d".toList =
        some crossing := rfl
  exact Json.ordered_read? hread

/-- One name is written twice. It replaces the value that was stored before, and then the leaf that
was written first. -/
theorem crossing_flattened :
    let s : ValueStore := Dict.empty.insert "p.a.b".toList (.bool false)
    let flattened := s.writeBelow crossing ['p'] ['.']
    crossing.Ordered ∧
      flattened.2.keys = ["p.a.b".toList, "p.a.c.1".toList, "p.a.b".toList] ∧
      flattened.1.get? "p.a.b".toList = some (.str ['x']) ∧
      flattened.2.previous = [("p.a.b".toList, .bool false), ("p.a.b".toList, .int 1)] ∧
      ([.key ['a'], .key ['c'], .index 1], .bool true) ∈ crossing.walkBelow := by
  intro s flattened
  obtain ⟨hkeys, hget, hprevious, hlisted⟩ := s.flattening_writes_leaves crossing ['p'] ['.']
  have hplace := ((hlisted ordered_crossing).2 [.key ['a'], .key ['c'], .index 1] (.bool true)).2
  exact ⟨ordered_crossing, hkeys.trans rfl, (hget _).trans rfl, hprevious.trans rfl,
    hplace ⟨nofun, rfl⟩⟩

end ValueStore

end TagTemplate
