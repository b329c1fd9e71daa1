import TagTemplate.Proofs.LeafNames
import TagTemplate.Proofs.OrderedValues

/-!
# Where the leaves of a value are

The walk through a value lists its leaves with their places. Two facts say that it lists them as it
should: a leaf is listed at a place exactly if that is where it is found (`Json.mem_walk_iff`), and
places are listed in the order in which their steps are taken, keys ascending and indices counting
up (`Json.pairwise_walk`). So the list is the only one of its kind. Both need an ordered value, as
of a key that is listed twice only the first field would be found.

A store names a leaf by joining the keys and indices on the way to it behind the name that stands
above. As long as all of these texts are empty, nothing is put between them, and so the name is what
is left when the empty texts at the start are dropped (`Json.foldl_separated`).
-/

namespace TagTemplate.Json

/-! ### The walk -/

/-- A leaf that has a text, with its place. -/
abbrev PlacedLeaf := List Step × Scalar

/-- The leaf as seen from one step above. -/
def PlacedLeaf.below (step : Step) (leaf : PlacedLeaf) : PlacedLeaf := (step :: leaf.1, leaf.2)

mutual

/-- The leaves of a value with their places, in the order of a walk through it. -/
def walk : Json → List PlacedLeaf
  | .null => []
  | .scalar leaf => [([], leaf)]
  | .list items => walkItems 0 items
  | .object fields => walkFields fields

/-- The leaves of the items of a list, whose indices count from `index` on. -/
def walkItems (index : Nat) : List Json → List PlacedLeaf
  | [] => []
  | item :: items => (walk item).map (PlacedLeaf.below (.index index)) ++ walkItems (index + 1) items

/-- The leaves of the fields of an object. -/
def walkFields : List (Text × Json) → List PlacedLeaf
  | [] => []
  | (key, value) :: fields => (walk value).map (PlacedLeaf.below (.key key)) ++ walkFields fields

end

/-- The leaves below a value; one that is itself a leaf has none. -/
def walkBelow : Json → List PlacedLeaf
  | .list items => walkItems 0 items
  | .object fields => walkFields fields
  | _ => []

/-- The leaves of items are the leaves of each of them, below its index. -/
theorem mem_walkItems {index : Nat} {items : List Json} {leaf : PlacedLeaf} :
    leaf ∈ walkItems index items ↔
      ∃ i item, items[i]? = some item ∧
        ∃ inner ∈ walk item, leaf = inner.below (.index (index + i)) := by
  induction items generalizing index with
  | nil => simp [walkItems]
  | cons item items ih =>
    rw [walkItems, List.mem_append, List.mem_map, ih]
    constructor
    · rintro (⟨inner, hinner, rfl⟩ | ⟨i, item', hi, inner, hinner, rfl⟩)
      · exact ⟨0, item, rfl, inner, hinner, rfl⟩
      · exact ⟨i + 1, item', hi, inner, hinner, by rw [Nat.add_right_comm, Nat.add_assoc]⟩
    · rintro ⟨- | i, item', hi, inner, hinner, rfl⟩
      · cases hi
        exact .inl ⟨inner, hinner, rfl⟩
      · exact .inr ⟨i, item', hi, inner, hinner, by rw [Nat.add_right_comm, Nat.add_assoc]⟩

/-- The leaves of fields are the leaves of each of them, below its key. -/
theorem mem_walkFields {fields : List (Text × Json)} {leaf : PlacedLeaf} :
    leaf ∈ walkFields fields ↔
      ∃ field ∈ fields, ∃ inner ∈ walk field.2, leaf = inner.below (.key field.1) := by
  induction fields with
  | nil => simp [walkFields]
  | cons field fields ih =>
    obtain ⟨key, value⟩ := field
    rw [walkFields, List.mem_append, List.mem_map, ih]
    simp only [List.mem_cons, exists_eq_or_imp, eq_comm]

/-- **A leaf is listed where it is found.** -/
theorem mem_walk_iff {j : Json} (h : j.Ordered) {path : List Step} {leaf : Scalar} :
    (path, leaf) ∈ walk j ↔ j.at? path = some (.scalar leaf) := by
  induction path generalizing j with
  | nil =>
    -- At the place itself there is a leaf, or else what holds leaves further down.
    match j with
    | .null => simp [walk, at?]
    | .scalar leaf' => simp [walk, at?, eq_comm]
    | .list items => simp [walk, at?, mem_walkItems, PlacedLeaf.below]
    | .object fields => simp [walk, at?, mem_walkFields, PlacedLeaf.below]
  | cons step path ih =>
    rw [at?, Option.bind_eq_some_iff]
    match j with
    | .null => cases step <;> simp [walk, child?, field?]
    | .scalar leaf' => cases step <;> simp [walk, child?, field?]
    | .list items =>
      rw [walk, mem_walkItems]
      constructor
      · rintro ⟨i, item, hi, inner, hinner, heq⟩
        cases heq
        rw [Nat.zero_add]
        exact ⟨item, hi, (ih (h.item (List.mem_of_getElem? hi))).1 hinner⟩
      · -- Only an index leads into a list.
        rintro ⟨item, hitem, hleaf⟩
        cases step with
        | key => cases hitem
        | index i =>
          refine ⟨i, item, hitem, (path, leaf), ?_, by rw [Nat.zero_add]; rfl⟩
          exact (ih (h.item (List.mem_of_getElem? hitem))).2 hleaf
    | .object fields =>
      rw [walk, mem_walkFields]
      constructor
      · rintro ⟨field, hfield, inner, hinner, heq⟩
        cases heq
        exact ⟨field.2, (Dict.lookup_eq_some_iff h.ascending).2 hfield,
          (ih (h.field hfield)).1 hinner⟩
      · -- Only a key leads into an object, and to one value there, since its keys are in order.
        rintro ⟨value, hvalue, hleaf⟩
        cases step with
        | index => cases hvalue
        | key name =>
          have hfield : (name, value) ∈ fields := (Dict.lookup_eq_some_iff h.ascending).1 hvalue
          exact ⟨_, hfield, (path, leaf), (ih (h.field hfield)).2 hleaf, rfl⟩

/-- One place comes before another one if the first step in which they part is taken before. -/
def PlacedLeaf.Before (a b : PlacedLeaf) : Prop := List.Lex Step.Before a.1 b.1

/-- One step more above all of them keeps the order of leaves. -/
theorem pairwise_map_below (step : Step) {leaves : List PlacedLeaf}
    (h : leaves.Pairwise PlacedLeaf.Before) :
    (leaves.map (PlacedLeaf.below step)).Pairwise PlacedLeaf.Before :=
  List.pairwise_map.2 (h.imp fun hbefore ↦ List.Lex.cons hbefore)

mutual

/-- **Leaves are listed in the order of their places.** -/
theorem pairwise_walk : (j : Json) → j.Ordered → (walk j).Pairwise PlacedLeaf.Before
  | .null, _ => .nil
  | .scalar _, _ => List.pairwise_singleton _ _
  | .list items, h => by
    rw [walk]
    exact pairwise_walkItems 0 items fun item hitem ↦ h.item hitem
  | .object fields, h => by
    rw [walk]
    exact pairwise_walkFields fields h.ascending fun field hfield ↦ h.field hfield

/-- The leaves of items stand in the order of the indexes. -/
theorem pairwise_walkItems (index : Nat) : (items : List Json) → (∀ item ∈ items, item.Ordered) →
    (walkItems index items).Pairwise PlacedLeaf.Before
  | [], _ => .nil
  | item :: items, h => by
    rw [List.forall_mem_cons] at h
    rw [walkItems, List.pairwise_append]
    refine ⟨pairwise_map_below _ (pairwise_walk item h.1), pairwise_walkItems _ items h.2, ?_⟩
    intro leaf hleaf later hlater
    obtain ⟨inner, -, rfl⟩ := List.mem_map.1 hleaf
    obtain ⟨i, item', -, inner', -, rfl⟩ := mem_walkItems.1 hlater
    exact List.Lex.rel (show index < index + 1 + i by omega)

/-- The leaves of fields stand in the order of the keys. -/
theorem pairwise_walkFields : (fields : List (Text × Json)) →
    (fields.Pairwise fun a b ↦ a.1 < b.1) → (∀ field ∈ fields, field.2.Ordered) →
    (walkFields fields).Pairwise PlacedLeaf.Before
  | [], _, _ => .nil
  | (key, value) :: fields, hkeys, h => by
    rw [List.forall_mem_cons] at h
    rw [List.pairwise_cons] at hkeys
    rw [walkFields, List.pairwise_append]
    refine ⟨pairwise_map_below _ (pairwise_walk value h.1),
      pairwise_walkFields fields hkeys.2 h.2, ?_⟩
    intro leaf hleaf later hlater
    obtain ⟨inner, -, rfl⟩ := List.mem_map.1 hleaf
    obtain ⟨field, hfield, inner', -, rfl⟩ := mem_walkFields.1 hlater
    exact List.Lex.rel (show key < field.1 from hkeys.1 field hfield)

end

/-- Below a value its leaves are listed with their places, except for the value itself. -/
theorem mem_walkBelow_iff {j : Json} (h : j.Ordered) {path : List Step} {leaf : Scalar} :
    (path, leaf) ∈ walkBelow j ↔ path ≠ [] ∧ j.at? path = some (.scalar leaf) := by
  rw [← mem_walk_iff h]
  match j with
  | .null => simp [walkBelow, walk]
  | .scalar _ => simp +contextual [walkBelow, walk]
  | .list items =>
    have hne : (path, leaf) ∈ walkItems 0 items → path ≠ [] := by
      rintro hmem rfl
      obtain ⟨i, item, -, inner, -, heq⟩ := mem_walkItems.1 hmem
      cases heq
    exact ⟨fun hmem ↦ ⟨hne hmem, hmem⟩, And.right⟩
  | .object fields =>
    have hne : (path, leaf) ∈ walkFields fields → path ≠ [] := by
      rintro hmem rfl
      obtain ⟨field, -, inner, -, heq⟩ := mem_walkFields.1 hmem
      cases heq
    exact ⟨fun hmem ↦ ⟨hne hmem, hmem⟩, And.right⟩

/-- The leaves below a subject stand in the order of their places. -/
theorem pairwise_walkBelow {j : Json} (h : j.Ordered) :
    (walkBelow j).Pairwise PlacedLeaf.Before := by
  have hwalk := pairwise_walk j h
  match j with
  | .null => exact .nil
  | .scalar _ => exact .nil
  | .list items => exact hwalk
  | .object fields => exact hwalk

/-! ### Names -/

/-- The leaf with its path as texts. -/
def PlacedLeaf.texts (leaf : PlacedLeaf) : Leaf := (leaf.1.map Step.text, leaf.2)

/-- The text of a path with one step more is the text of that step in front. -/
theorem map_texts_below (step : Step) (leaves : List PlacedLeaf) :
    (leaves.map (PlacedLeaf.below step)).map PlacedLeaf.texts =
      (leaves.map PlacedLeaf.texts).map (Leaf.under step.text) := by
  rw [List.map_map, List.map_map]
  rfl

mutual

/-- The walk lists the leaves in the order in which they are flattened. -/
theorem leaves_eq : (j : Json) → leaves j = (walk j).map PlacedLeaf.texts
  | .null => rfl
  | .scalar _ => rfl
  | .list items => itemLeaves_eq 0 items
  | .object fields => fieldLeaves_eq fields

/-- The leaves of items, with the texts of their paths. -/
theorem itemLeaves_eq (index : Nat) : (items : List Json) →
    itemLeaves index items = (walkItems index items).map PlacedLeaf.texts
  | [] => rfl
  | item :: items => by
    rw [itemLeaves, walkItems, List.map_append, map_texts_below, leaves_eq item,
      itemLeaves_eq (index + 1) items]
    rfl

/-- The leaves of fields, with the texts of their paths. -/
theorem fieldLeaves_eq : (fields : List (Text × Json)) →
    fieldLeaves fields = (walkFields fields).map PlacedLeaf.texts
  | [] => rfl
  | (key, value) :: fields => by
    rw [fieldLeaves, walkFields, List.map_append, map_texts_below, leaves_eq value,
      fieldLeaves_eq fields]
    rfl

end

/-- The name of a place below a name: the texts of its steps behind that name, joined by the
separator, without those at the start that are empty. -/
def placeName (above separator : Text) (path : List Step) : Text :=
  Text.join separator ((above :: path.map Step.text).dropWhile List.isEmpty)

/-- A store puts the separator behind a name unless the name is empty. -/
theorem foldl_separated (separator above : Text) (path : List Text) :
    path.foldl (NameRule.separated separator) above =
      Text.join separator ((above :: path).dropWhile List.isEmpty) := by
  induction path generalizing above with
  | nil => cases above <;> rfl
  | cons key path ih =>
    rw [List.foldl_cons, ih]
    rcases above with - | ⟨c, above⟩
    · rfl
    · have hjoined : NameRule.separated separator (c :: above) key =
          c :: above ++ separator ++ key := by
        cases separator <;> simp [NameRule.separated]
      rw [hjoined]
      cases path <;> simp [Text.join]

/-- **Flattening names the places of the leaves.** -/
theorem flattenBelow_eq (separator above : Text) (j : Json) :
    j.flattenBelow (.separated separator) above =
      (walkBelow j).map fun leaf ↦ (placeName above separator leaf.1, leaf.2) := by
  have hnamed (leaves : List PlacedLeaf) :
      (leaves.map PlacedLeaf.texts).map (Leaf.named (.separated separator) above) =
        leaves.map fun leaf ↦ (placeName above separator leaf.1, leaf.2) := by
    rw [List.map_map]
    refine List.map_congr_left fun leaf _ ↦ ?_
    exact congrArg (·, leaf.2) (foldl_separated separator above _)
  match j with
  | .null => rfl
  | .scalar _ => rfl
  | .list items =>
    rw [flattenBelow, flattenItems_eq, itemLeaves_eq, hnamed]
    rfl
  | .object fields =>
    rw [flattenBelow, flattenFields_eq, fieldLeaves_eq, hnamed]
    rfl

end TagTemplate.Json
