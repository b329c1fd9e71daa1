import TagTemplate.Properties.Record
import TagTemplate.Proofs.Lookup
import TagTemplate.Proofs.QuotedSplit

/-!
# The names of leaves

Stores and property records flatten nested data each in their own way, with a name rule of its own.
What they have in common is the leaves: a leaf stands at the end of a path of keys and indices, and
its name is folded from the path by the rule (`Json.flatten_eq`). So the two can be compared path by
path. A property record joins all of the path with dots. A store does so too, but as long as the
name above is empty it puts no dot behind it, so that empty keys at the start of a path leave no
trace (`Json.foldl_separated_nil`).

The two names of a leaf are the same unless the path leads below an empty key at the top
(`Json.dottedName_eq_iff`). That is where the two ways of flattening part; everywhere else property
records are what a store makes of the same data (`Properties.flatteners_agree`).
-/

namespace TagTemplate

/-! ### Leaves and the paths to them -/

namespace Json

/-- A leaf that has a text, with the keys and list indices on the way to it. -/
abbrev Leaf := List Text × Scalar

/-- The leaf as seen from one level above. -/
def Leaf.under (key : Text) (leaf : Leaf) : Leaf := (key :: leaf.1, leaf.2)

mutual

/-- The leaves of a value, in its order. -/
def leaves : Json → List Leaf
  | .null => []
  | .scalar s => [([], s)]
  | .list items => itemLeaves 0 items
  | .object fields => fieldLeaves fields

/-- The leaves of the items of a list, which are keyed by their indices from `index` on. -/
def itemLeaves (index : Nat) : List Json → List Leaf
  | [] => []
  | item :: items =>
    (leaves item).map (Leaf.under (Text.ofNat index)) ++ itemLeaves (index + 1) items

/-- The leaves of the fields of an object. -/
def fieldLeaves : List (Text × Json) → List Leaf
  | [] => []
  | (key, value) :: fields => (leaves value).map (Leaf.under key) ++ fieldLeaves fields

end

/-- The leaf under the name that the rule makes of its path, for a value that stands under
`name`. -/
def Leaf.named (rule : NameRule) (name : Text) (leaf : Leaf) : Text × Scalar :=
  (leaf.1.foldl rule name, leaf.2)

/-- To name a leaf below a key is to name it from the name of the key. -/
theorem map_named_under (rule : NameRule) (name key : Text) (leaves : List Leaf) :
    (leaves.map (Leaf.under key)).map (Leaf.named rule name) =
      leaves.map (Leaf.named rule (rule name key)) := by
  rw [List.map_map]
  rfl

mutual

/-- **Flattening names the leaves**, each of them by folding the rule over its path. -/
theorem flatten_eq (rule : NameRule) (name : Text) :
    (j : Json) → flatten rule name j = (leaves j).map (Leaf.named rule name)
  | .null => rfl
  | .scalar _ => rfl
  | .list items => by
    rw [flatten, leaves]
    exact flattenItems_eq rule name 0 items
  | .object fields => by
    rw [flatten, leaves]
    exact flattenFields_eq rule name fields

/-- The items of a list are flattened to their leaves under their indexes. -/
theorem flattenItems_eq (rule : NameRule) (name : Text) (index : Nat) :
    (items : List Json) →
      flattenItems rule name index items = (itemLeaves index items).map (Leaf.named rule name)
  | [] => rfl
  | item :: items => by
    rw [flattenItems, itemLeaves, List.map_append, map_named_under, flatten_eq rule _ item,
      flattenItems_eq rule name (index + 1) items]

/-- The fields of an object are flattened to their leaves under their keys. -/
theorem flattenFields_eq (rule : NameRule) (name : Text) :
    (fields : List (Text × Json)) →
      flattenFields rule name fields = (fieldLeaves fields).map (Leaf.named rule name)
  | [] => rfl
  | (key, value) :: fields => by
    rw [flattenFields, fieldLeaves, List.map_append, map_named_under, flatten_eq rule _ value,
      flattenFields_eq rule name fields]

end

/-! ### The two names of a leaf -/

/-- The name of a leaf in a property record: its path with dots between the keys. -/
def dottedName (path : List Text) : Text := Text.join ['.'] path

/-- The name of a leaf in a store: its path without the empty keys at its start. -/
def storedName (path : List Text) : Text := Text.join ['.'] (path.dropWhile List.isEmpty)

/-- The path leads below an empty key at the top. -/
def BelowEmptyKey : List Text → Prop
  | [] :: _ :: _ => True
  | _ => False

/-- Whether a path leads below an empty key can be computed. -/
instance : (path : List Text) → Decidable (BelowEmptyKey path)
  | [] => .isFalse id
  | [[]] => .isFalse id
  | [] :: _ :: _ => .isTrue trivial
  | (_ :: _) :: _ => .isFalse id

theorem storedName_of_ne_nil {key : Text} (h : key ≠ []) (path : List Text) :
    storedName (key :: path) = dottedName (key :: path) := by
  have hkey : ¬key.isEmpty = true := by simpa using h
  rw [storedName, List.dropWhile_cons_of_neg hkey, dottedName]

/-- Keys that are joined one by one with dots are joined with dots. -/
theorem foldl_dotted (key : Text) (path : List Text) :
    path.foldl NameRule.dotted key = dottedName (key :: path) := by
  induction path generalizing key with
  | nil => rfl
  | cons child path ih =>
    have hjoin : dottedName (NameRule.dotted key child :: path) =
        dottedName (key :: child :: path) := by
      cases path <;> simp [dottedName, Text.join, NameRule.dotted]
    rw [List.foldl_cons, ih, hjoin]

/-- Behind a name that is not empty, the two rules join alike. -/
theorem foldl_separated_of_ne_nil {above : Text} (h : above ≠ []) (path : List Text) :
    path.foldl (NameRule.separated ['.']) above = path.foldl NameRule.dotted above := by
  induction path generalizing above with
  | nil => rfl
  | cons key path ih =>
    have hstep : NameRule.separated ['.'] above key = NameRule.dotted above key := by
      simp [NameRule.separated, NameRule.dotted, h]
    have hne : NameRule.dotted above key ≠ [] := by simp [NameRule.dotted]
    rw [List.foldl_cons, List.foldl_cons, hstep, ih hne]

/-- From an empty name on, empty keys at the start leave no dot behind. -/
theorem foldl_separated_nil (path : List Text) :
    path.foldl (NameRule.separated ['.']) [] = storedName path := by
  induction path with
  | nil => rfl
  | cons key path ih =>
    have hstep : NameRule.separated ['.'] [] key = key := rfl
    rw [List.foldl_cons, hstep]
    by_cases hkey : key = []
    · rw [hkey, ih]
      rfl
    · rw [foldl_separated_of_ne_nil hkey, foldl_dotted, storedName_of_ne_nil hkey]

/-- One key more at the start is as many characters more, and the dot. -/
theorem length_dottedName_cons (key : Text) {path : List Text} (h : path ≠ []) :
    (dottedName (key :: path)).length = key.length + 1 + (dottedName path).length := by
  rw [dottedName, Text.join_cons h, dottedName, List.length_append, List.length_append,
    List.length_singleton]

/-- A stored name is no longer than the dotted one. -/
theorem length_storedName_le (path : List Text) :
    (storedName path).length ≤ (dottedName path).length := by
  induction path with
  | nil => exact Nat.le_refl _
  | cons key path ih =>
    by_cases hkey : key = []
    · have hskip : storedName (key :: path) = storedName path := by rw [hkey]; rfl
      rw [hskip]
      by_cases hpath : path = []
      · rw [hpath]
        exact Nat.zero_le _
      · have hlength := length_dottedName_cons key hpath
        omega
    · exact Nat.le_of_eq (congrArg List.length (storedName_of_ne_nil hkey path))

/-- **The two names of a leaf are the same**, unless it is below an empty key at the top. -/
theorem dottedName_eq_iff (path : List Text) :
    dottedName path = storedName path ↔ ¬BelowEmptyKey path := by
  match path with
  | [] => exact ⟨fun _ ↦ id, fun _ ↦ rfl⟩
  | [[]] => exact ⟨fun _ ↦ id, fun _ ↦ rfl⟩
  | [] :: key :: rest =>
    refine ⟨fun hnames ↦ absurd (congrArg List.length hnames) ?_, fun hnot ↦ absurd trivial hnot⟩
    -- The dot behind the empty key is missing in a store.
    have hskip : storedName ([] :: key :: rest) = storedName (key :: rest) := rfl
    have hshort := length_storedName_le (key :: rest)
    have hlong := length_dottedName_cons [] (List.cons_ne_nil key rest)
    rw [hskip, hlong]
    omega
  | (c :: key) :: rest =>
    exact ⟨fun _ ↦ id, fun _ ↦ (storedName_of_ne_nil (List.cons_ne_nil c key) rest).symm⟩

/-- The text of the last leaf that has the name. -/
def lastNamed (name : List Text → Text) (leaves : List Leaf) (key : Text) : Option Text :=
  ((leaves.reverse.map fun leaf ↦ (name leaf.1, leaf.2)).lookup key).map Scalar.text

/-- What has a name in two ways of naming is the same, if the leaves that are named differently have
it in neither of them. -/
theorem lastNamed_congr {name name' : List Text → Text} {leaves : List Leaf} {key : Text}
    (h : ∀ leaf ∈ leaves, name leaf.1 = name' leaf.1 ∨ name leaf.1 ≠ key ∧ name' leaf.1 ≠ key) :
    lastNamed name leaves key = lastNamed name' leaves key := by
  rw [lastNamed, lastNamed,
    Dict.lookup_map_congr fun leaf hleaf ↦ h leaf (List.mem_reverse.1 hleaf)]

end Json

open Json

/-! ### What the two make of an object -/

namespace Properties

/-- The object in which every full property record is replaced by its value. -/
def unwrapped (fields : List (Text × Json)) : Json :=
  .object (fields.map fun field ↦ (field.1, recordValue field.2))

/-- The properties of an object are its leaves under their dotted names, the last of each name. -/
theorem get?_ofJson (fields : List (Text × Json)) (key : Text) :
    (ofJson (.object fields)).get? key = lastNamed dottedName (unwrapped fields).leaves key := by
  have hleaves : (fields.flatMap fun field ↦ ((recordValue field.2).flatten .dotted field.1).map
      fun leaf ↦ (leaf.1, leaf.2.text)) =
        (unwrapped fields).leaves.map fun leaf ↦ (dottedName leaf.1, leaf.2.text) := by
    rw [unwrapped, leaves]
    induction fields with
    | nil => rfl
    | cons field fields ih =>
      rw [List.flatMap_cons, ih, List.map_cons, fieldLeaves, List.map_append, flatten_eq,
        List.map_map, List.map_map]
      refine congrArg (· ++ _) (List.map_congr_left fun leaf _ ↦ ?_)
      exact congrArg (·, leaf.2.text) (foldl_dotted field.1 leaf.1)
  have hofList : ofJson (.object fields) = ofList (fields.flatMap fun field ↦
      ((recordValue field.2).flatten .dotted field.1).map fun leaf ↦ (leaf.1, leaf.2.text)) := rfl
  rw [hofList, hleaves, get?_ofList, ← List.map_reverse, lastNamed]
  have htexts := Dict.lookup_map (fun _ ↦ Scalar.text)
    ((unwrapped fields).leaves.reverse.map fun leaf ↦ (dottedName leaf.1, leaf.2)) key
  rw [List.map_map] at htexts
  exact htexts

end Properties

namespace Store

/-- Writing an object makes its leaves found, the last one of each name, before what was there. -/
theorem text?_writeBelow (s : Store) (fields : List (Text × Json)) (key : Text) :
    text? (s.writeBelow (.object fields) [] ['.']).1 key =
      (lastNamed storedName (Json.object fields).leaves key).or (text? s key) := by
  have hwritten : (Json.object fields).flattenBelow (.separated ['.']) [] =
      (Json.object fields).leaves.map fun leaf ↦ (storedName leaf.1, leaf.2) := by
    rw [flattenBelow, flattenFields_eq, leaves]
    exact List.map_congr_left fun leaf _ ↦ congrArg (·, leaf.2) (foldl_separated_nil leaf.1)
  rw [text?, writeBelow, get?_write, hwritten, ← List.map_reverse, Option.map_or]
  rfl

/-- The properties that a store is taken for which holds an object and nothing else. -/
def snapshot (fields : List (Text × Json)) : Properties :=
  (writeBelow .empty (.object fields) [] ['.']).1.toProperties

/-- They are the leaves of the object under their stored names, the last of each name. -/
theorem get?_snapshot (fields : List (Text × Json)) (key : Text) :
    (snapshot fields).get? key = lastNamed storedName (Json.object fields).leaves key := by
  rw [snapshot, get?_toProperties, text?_writeBelow]
  exact Option.or_none

end Store

namespace Properties

/-- **Where the two ways of flattening agree.** The properties of an object and the properties of a
store that holds the same object, with every full property record replaced by its value, are the
last leaves of each name, under their dotted names in the one and their stored names in the other.
The two names of a leaf are the same unless it is below an empty key at the top. So the properties
are the same if there is no such leaf, and wherever they differ, it is at the name of one. -/
theorem flatteners_agree (fields : List (Text × Json)) :
    let leaves := (unwrapped fields).leaves
    let snapshot := Store.snapshot (fields.map fun field ↦ (field.1, recordValue field.2))
    (∀ key, (ofJson (.object fields)).get? key = lastNamed dottedName leaves key ∧
      snapshot.get? key = lastNamed storedName leaves key) ∧
    (∀ leaf ∈ leaves, dottedName leaf.1 = storedName leaf.1 ↔ ¬BelowEmptyKey leaf.1) ∧
    ((∀ leaf ∈ leaves, ¬BelowEmptyKey leaf.1) →
      ∀ key, (ofJson (.object fields)).get? key = snapshot.get? key) ∧
    ∀ key, (ofJson (.object fields)).get? key ≠ snapshot.get? key →
      ∃ leaf ∈ leaves,
        BelowEmptyKey leaf.1 ∧ (key = dottedName leaf.1 ∨ key = storedName leaf.1) := by
  intro leaves snapshot
  have hproperties := get?_ofJson fields
  have hstore : ∀ key, snapshot.get? key = lastNamed storedName leaves key := Store.get?_snapshot _
  have hdiffer (key : Text) (hne : (ofJson (.object fields)).get? key ≠ snapshot.get? key) :
      ∃ leaf ∈ leaves,
        BelowEmptyKey leaf.1 ∧ (key = dottedName leaf.1 ∨ key = storedName leaf.1) := by
    by_contra hnone
    rw [hproperties, hstore] at hne
    refine hne (lastNamed_congr fun leaf hleaf ↦ ?_)
    by_cases hbelow : BelowEmptyKey leaf.1
    · exact .inr ⟨fun heq ↦ hnone ⟨leaf, hleaf, hbelow, .inl heq.symm⟩,
        fun heq ↦ hnone ⟨leaf, hleaf, hbelow, .inr heq.symm⟩⟩
    · exact .inl ((dottedName_eq_iff leaf.1).2 hbelow)
  refine ⟨fun key ↦ ⟨hproperties key, hstore key⟩, fun leaf _ ↦ dottedName_eq_iff leaf.1,
    fun hclear key ↦ ?_, hdiffer⟩
  by_contra hne
  obtain ⟨leaf, hleaf, hbelow, -⟩ := hdiffer key hne
  exact hclear leaf hleaf hbelow

/-- Fields with an empty key below another one, names that collide, and a full property record. -/
def tangled : List (Text × Json) :=
  [([], .int 0),
    (['a'], .object [([], .object [(['b'], .int 1)]), (['c'], .list [.null, .bool true])]),
    ("a..b".toList, .int 2), (['r'], .object [("value".toList, .object [([], .str ['v'])])])]

/-- Nothing stands below an empty key at the top, so that the two agree, also on a name that two
leaves have. -/
theorem tangled_agree :
    let snapshot := Store.snapshot (tangled.map fun field ↦ (field.1, recordValue field.2))
    (∀ leaf ∈ (unwrapped tangled).leaves, ¬BelowEmptyKey leaf.1) ∧
      (ofJson (.object tangled)).get? "a..b".toList = snapshot.get? "a..b".toList ∧
      snapshot.get? "a..b".toList = some ['2'] := by
  have hclear : ∀ leaf ∈ (unwrapped tangled).leaves, ¬BelowEmptyKey leaf.1 := by decide
  exact ⟨hclear, (flatteners_agree tangled).2.2.1 hclear _, by decide⟩

/-- A field below an empty key. -/
def unnamed : List (Text × Json) := [([], .object [(['a'], .int 1)])]

/-- **The two do not always agree**: below the empty key, the property record has a name with a dot
in front, and the store has it without. -/
theorem unnamed_not_agree :
    let snapshot := Store.snapshot (unnamed.map fun field ↦ (field.1, recordValue field.2))
    (ofJson (.object unnamed)).get? ['a'] = none ∧ snapshot.get? ['a'] = some ['1'] ∧
      (ofJson (.object unnamed)).get? ['.', 'a'] = some ['1'] ∧
      snapshot.get? ['.', 'a'] = none := by
  decide

end Properties

end TagTemplate
