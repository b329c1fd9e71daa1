import TagTemplate.Dict

/-!
# Properties

The properties of a tag are named texts in the order in which they were first given. Setting a
property that is already there keeps its position and changes its text, so that merging one map into
another works like updating an ordered dictionary: the first map's order comes first, and the second
map's texts win.

A map carries the proof that its names are distinct; looking a name up and listing the entries
therefore tell the same story.
-/

namespace TagTemplate

/-- Distinct names with their texts, in order of first insertion. -/
structure Properties where
  entries : List (Text × Text)
  distinct : (entries.map (·.1)).Nodup
deriving DecidableEq, Repr

namespace Properties

/-! ### Lists of named texts -/

/-- Sets the text of a name: in its place if the name is there, else at the end. -/
def put (key value : Text) : List (Text × Text) → List (Text × Text)
  | [] => [(key, value)]
  | entry :: entries =>
    if entry.1 = key then (key, value) :: entries else entry :: put key value entries

theorem keys_put (key value : Text) (entries : List (Text × Text)) :
    (put key value entries).map (·.1) =
      if key ∈ entries.map (·.1) then entries.map (·.1) else entries.map (·.1) ++ [key] := by
  induction entries with
  | nil => simp [put]
  | cons entry entries ih =>
    rw [put]
    by_cases h : entry.1 = key
    · simp [h]
    · rw [if_neg h, List.map_cons, ih, List.map_cons]
      by_cases hm : key ∈ entries.map (·.1)
      · rw [if_pos hm, if_pos (List.mem_cons_of_mem _ hm)]
      · rw [if_neg hm, if_neg (by simpa [Ne.symm h] using hm), List.cons_append]

theorem distinct_put {key value : Text} {entries : List (Text × Text)}
    (h : (entries.map (·.1)).Nodup) : ((put key value entries).map (·.1)).Nodup := by
  rw [keys_put]
  split
  · exact h
  · rename_i hm
    exact List.nodup_append.2 ⟨h, by simp, fun a ha b hb ↦ by
      rw [List.mem_singleton.1 hb]
      exact fun hab ↦ hm (hab ▸ ha)⟩

theorem lookup_put (key key' value : Text) (entries : List (Text × Text)) :
    (put key value entries).lookup key' =
      if key = key' then some value else entries.lookup key' := by
  induction entries with
  | nil => rw [put, Dict.lookup_cons]
  | cons entry entries ih =>
    rw [put]
    by_cases h : entry.1 = key
    · rw [if_pos h, Dict.lookup_cons, Dict.lookup_cons, h]
      split <;> rfl
    · rw [if_neg h, Dict.lookup_cons, Dict.lookup_cons, ih]
      by_cases h' : entry.1 = key'
      · rw [if_pos h', if_pos h', if_neg fun hk ↦ h (h'.trans hk.symm)]
      · rw [if_neg h', if_neg h']

theorem put_of_notMem {key value : Text} {entries : List (Text × Text)}
    (h : key ∉ entries.map (·.1)) : put key value entries = entries ++ [(key, value)] := by
  induction entries with
  | nil => rfl
  | cons entry entries ih =>
    rw [List.map_cons, List.mem_cons, not_or] at h
    rw [put, if_neg (Ne.symm h.1), ih h.2, List.cons_append]

/-! ### Operations -/

/-- The map without properties. -/
def empty : Properties := ⟨[], .nil⟩

instance : Inhabited Properties := ⟨empty⟩

/-- The text of a property. -/
def get? (p : Properties) (key : Text) : Option Text := p.entries.lookup key

/-- Whether the property is there. -/
def contains (p : Properties) (key : Text) : Bool := (p.get? key).isSome

/-- Sets a property. -/
def insert (p : Properties) (key value : Text) : Properties :=
  ⟨put key value p.entries, distinct_put p.distinct⟩

/-- Sets the pairs one after the other. -/
def extend (p : Properties) (pairs : List (Text × Text)) : Properties :=
  pairs.foldl (fun p pair ↦ p.insert pair.1 pair.2) p

/-- The properties of both maps; the second one's texts win. -/
def merge (p q : Properties) : Properties := p.extend q.entries

/-- The properties set by the pairs one after the other. -/
def ofList (pairs : List (Text × Text)) : Properties := empty.extend pairs

/-- The number of properties. -/
def size (p : Properties) : Nat := p.entries.length

/-- Whether there is no property. -/
def isEmpty (p : Properties) : Bool := p.entries.isEmpty

@[simp] theorem get?_empty (key : Text) : empty.get? key = none := rfl

theorem get?_insert (p : Properties) (key key' value : Text) :
    (p.insert key value).get? key' = if key = key' then some value else p.get? key' :=
  lookup_put key key' value p.entries

@[simp] theorem extend_nil (p : Properties) : p.extend [] = p := rfl

@[simp] theorem extend_cons (p : Properties) (key value : Text) (pairs : List (Text × Text)) :
    p.extend ((key, value) :: pairs) = (p.insert key value).extend pairs := rfl

theorem extend_append (p : Properties) (xs ys : List (Text × Text)) :
    p.extend (xs ++ ys) = (p.extend xs).extend ys := by
  simp [extend, List.foldl_append]

/-- Pairs with names that are new and distinct are added in their order. -/
theorem entries_extend {p : Properties} {pairs : List (Text × Text)}
    (h : (p.entries.map (·.1) ++ pairs.map (·.1)).Nodup) :
    (p.extend pairs).entries = p.entries ++ pairs := by
  induction pairs generalizing p with
  | nil => exact (List.append_nil _).symm
  | cons pair pairs ih =>
    obtain ⟨key, value⟩ := pair
    have hnew : key ∉ p.entries.map (·.1) := fun hmem ↦
      (List.nodup_append.1 h).2.2 key hmem key List.mem_cons_self rfl
    have hput : (p.insert key value).entries = p.entries ++ [(key, value)] := put_of_notMem hnew
    rw [extend_cons, ih (by simpa [hput] using h), hput, List.append_assoc]
    rfl

/-- A map is made of its entries. -/
theorem ofList_entries (p : Properties) : ofList p.entries = p := by
  have hentries : (ofList p.entries).entries = p.entries := entries_extend p.distinct
  cases h : ofList p.entries
  rw [h] at hentries
  cases p
  cases hentries
  rfl

end Properties

end TagTemplate
