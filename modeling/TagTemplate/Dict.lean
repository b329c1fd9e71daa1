import TagTemplate.Text.Basic

/-!
# Dictionaries in key order

A `Dict` holds at most one value for each key and lists its entries in ascending key order. It is a
sorted association list that carries the proof of its order, so that two dictionaries are equal
exactly when they answer alike (`Dict.ext`), and each operation is described by what it does to
look-up.

The keys that begin with a common text stand together, in one block that begins where that text
itself would stand; `eraseStarting` cuts this block out.
-/

namespace TagTemplate

/-- A dictionary from texts, in ascending key order. -/
structure Dict (α : Type) where
  entries : List (Text × α)
  sorted : entries.Pairwise fun a b ↦ a.1 < b.1

namespace Dict

variable {α : Type}

/-! ### Sorted lists of entries -/

/-- Looking up in a list of entries tries them in turn. -/
theorem lookup_cons (key : Text) (entry : Text × α) (entries : List (Text × α)) :
    (entry :: entries).lookup key = if entry.1 = key then some entry.2 else entries.lookup key := by
  change (match key == entry.1 with
    | true => some entry.2
    | false => entries.lookup key) = _
  by_cases h : entry.1 = key
  · simp [h]
  · rw [if_neg h, beq_eq_false_iff_ne.2 (Ne.symm h)]

/-- Puts an entry in its place, in the place of one with the same key if there is one. -/
def put (key : Text) (value : α) : List (Text × α) → List (Text × α)
  | [] => [(key, value)]
  | entry :: entries =>
    if key < entry.1 then (key, value) :: entry :: entries
    else if key = entry.1 then (key, value) :: entries
    else entry :: put key value entries

theorem mem_put {key : Text} {value : α} {entries : List (Text × α)} {e : Text × α}
    (h : e ∈ put key value entries) : e = (key, value) ∨ e ∈ entries := by
  induction entries with
  | nil => simpa [put] using h
  | cons entry entries ih =>
    rw [put] at h
    split at h
    · simpa using h
    · split at h
      · rcases List.mem_cons.1 h with h | h
        · exact .inl h
        · exact .inr (List.mem_cons_of_mem _ h)
      · rcases List.mem_cons.1 h with h | h
        · exact .inr (h ▸ List.mem_cons_self)
        · exact (ih h).imp_right (List.mem_cons_of_mem _)

theorem sorted_put {key : Text} {value : α} {entries : List (Text × α)}
    (h : entries.Pairwise fun a b ↦ a.1 < b.1) :
    (put key value entries).Pairwise fun a b ↦ a.1 < b.1 := by
  induction entries with
  | nil => simp [put]
  | cons entry entries ih =>
    rw [List.pairwise_cons] at h
    rw [put]
    split
    · rename_i hlt
      refine List.pairwise_cons.2 ⟨?_, List.pairwise_cons.2 h⟩
      intro e he
      rcases List.mem_cons.1 he with rfl | he
      · exact hlt
      · exact List.lt_trans hlt (h.1 e he)
    · rename_i hge
      split
      · rename_i heq
        exact List.pairwise_cons.2 ⟨fun e he ↦ heq ▸ h.1 e he, h.2⟩
      · rename_i hne
        refine List.pairwise_cons.2 ⟨fun e he ↦ ?_, ih h.2⟩
        rcases mem_put he with rfl | he
        · by_cases hlt : entry.1 < key
          · exact hlt
          · exact absurd (List.le_antisymm hlt hge) hne
        · exact h.1 e he

/-! ### Operations -/

/-- The dictionary without entries. -/
def empty : Dict α := ⟨[], .nil⟩

instance : Inhabited (Dict α) := ⟨empty⟩

/-- The value stored under the key. -/
def get? (d : Dict α) (key : Text) : Option α := d.entries.lookup key

/-- Whether a value is stored under the key. -/
def contains (d : Dict α) (key : Text) : Bool := (d.get? key).isSome

/-- Stores a value, in the place of one already stored under the key. -/
def insert (d : Dict α) (key : Text) (value : α) : Dict α :=
  ⟨put key value d.entries, sorted_put d.sorted⟩

/-- Removes what is stored under the key. -/
def erase (d : Dict α) (key : Text) : Dict α :=
  ⟨d.entries.filter fun entry ↦ entry.1 ≠ key, d.sorted.filter _⟩

/-- Stores the pairs one after the other, so that the last of those with equal keys stays. -/
def ofList (pairs : List (Text × α)) : Dict α :=
  pairs.foldl (fun d pair ↦ d.insert pair.1 pair.2) empty

/-- The number of entries. -/
def size (d : Dict α) : Nat := d.entries.length

/-- Whether there is no entry. -/
def isEmpty (d : Dict α) : Bool := d.entries.isEmpty

/-- The keys, ascending. -/
def keys (d : Dict α) : List Text := d.entries.map (·.1)

/-- Removes the block of the keys that begin with `start`: of the entries from `start` onward, those
up to the first one whose key does not begin with it. -/
def eraseStarting (d : Dict α) (start : Text) : Dict α :=
  let below := d.entries.takeWhile fun entry ↦ entry.1 < start
  let onward := d.entries.dropWhile fun entry ↦ entry.1 < start
  let rest := onward.dropWhile fun entry ↦ entry.1.startsWith start
  ⟨below ++ rest, by
    have sub : (below ++ rest).Sublist d.entries := by
      have split : below ++ onward = d.entries := List.takeWhile_append_dropWhile
      rw [← split]
      exact (List.Sublist.refl _).append (List.dropWhile_sublist _)
    exact d.sorted.sublist sub⟩

/-! ### Look-up after each operation -/

@[simp] theorem get?_empty (key : Text) : (empty : Dict α).get? key = none := rfl

theorem lookup_eq_none {key : Text} {entries : List (Text × α)} (h : ∀ e ∈ entries, e.1 ≠ key) :
    entries.lookup key = none := by
  induction entries with
  | nil => rfl
  | cons entry entries ih =>
    rw [lookup_cons, if_neg (h entry List.mem_cons_self)]
    exact ih fun e he ↦ h e (List.mem_cons_of_mem _ he)

theorem lookup_put {key key' : Text} {value : α} {entries : List (Text × α)}
    (h : entries.Pairwise fun a b ↦ a.1 < b.1) :
    (put key value entries).lookup key' =
      if key = key' then some value else entries.lookup key' := by
  induction entries with
  | nil => rw [put, lookup_cons]
  | cons entry entries ih =>
    rw [List.pairwise_cons] at h
    rw [put]
    split
    · rw [lookup_cons]
    · split
      · rename_i heq
        rw [lookup_cons, lookup_cons, ← heq]
        split <;> rfl
      · rename_i hne
        rw [lookup_cons, lookup_cons]
        split
        · rename_i hkey
          rw [if_neg (fun hk ↦ hne (hk.trans hkey.symm))]
        · exact ih h.2

theorem get?_insert (d : Dict α) (key key' : Text) (value : α) :
    (d.insert key value).get? key' = if key = key' then some value else d.get? key' :=
  lookup_put d.sorted

theorem get?_insert_self (d : Dict α) (key : Text) (value : α) :
    (d.insert key value).get? key = some value := by
  rw [get?_insert, if_pos rfl]

theorem get?_insert_of_ne (d : Dict α) {key key' : Text} (value : α) (h : key ≠ key') :
    (d.insert key value).get? key' = d.get? key' := by
  rw [get?_insert, if_neg h]

theorem get?_erase (d : Dict α) (key key' : Text) :
    (d.erase key).get? key' = if key = key' then none else d.get? key' := by
  change (d.entries.filter fun entry ↦ entry.1 ≠ key).lookup key' = _
  rw [get?]
  induction d.entries with
  | nil => simp
  | cons entry entries ih =>
    rw [List.filter_cons]
    by_cases hk : entry.1 = key
    · rw [if_neg (by simp [hk]), ih, lookup_cons, hk]
      split <;> rfl
    · rw [if_pos (by simp [hk]), lookup_cons, lookup_cons, ih]
      by_cases hk' : entry.1 = key'
      · rw [if_pos hk', if_pos hk', if_neg fun h ↦ hk (hk'.trans h.symm)]
      · rw [if_neg hk', if_neg hk']

theorem lookup_eq_some_iff {key : Text} {value : α} {entries : List (Text × α)}
    (h : entries.Pairwise fun a b ↦ a.1 < b.1) :
    entries.lookup key = some value ↔ (key, value) ∈ entries := by
  induction entries with
  | nil => simp
  | cons entry entries ih =>
    rw [List.pairwise_cons] at h
    rw [lookup_cons, List.mem_cons]
    split
    · rename_i hk
      constructor
      · intro hv
        simp only [Option.some.injEq] at hv
        exact .inl (by rw [← hk, ← hv])
      · rintro (hv | hv)
        · simp [← hv]
        · exact absurd (hk ▸ h.1 _ hv) (List.lt_irrefl _)
    · rename_i hk
      rw [ih h.2]
      exact ⟨.inr, fun hv ↦ hv.resolve_left fun he ↦ hk (by simp [← he])⟩

/-- A value is stored under a key exactly when the pair is listed. -/
theorem get?_eq_some_iff {d : Dict α} {key : Text} {value : α} :
    d.get? key = some value ↔ (key, value) ∈ d.entries :=
  lookup_eq_some_iff d.sorted

/-! ### Equality is equality of answers -/

theorem entries_eq_of_lookup {as bs : List (Text × α)} (ha : as.Pairwise fun a b ↦ a.1 < b.1)
    (hb : bs.Pairwise fun a b ↦ a.1 < b.1) (h : ∀ key, as.lookup key = bs.lookup key) : as = bs := by
  induction as generalizing bs with
  | nil =>
    cases bs with
    | nil => rfl
    | cons b bs =>
      have := h b.1
      rw [lookup_cons, if_pos rfl] at this
      cases this
  | cons a as ih =>
    cases bs with
    | nil =>
      have := h a.1
      rw [lookup_cons, if_pos rfl] at this
      cases this
    | cons b bs =>
      have hmem : ∀ e, e ∈ a :: as ↔ e ∈ b :: bs := by
        intro e
        rw [← @lookup_eq_some_iff _ e.1 e.2 _ ha,
          ← @lookup_eq_some_iff _ e.1 e.2 _ hb, h]
      rw [List.pairwise_cons] at ha hb
      have hab : a = b := by
        rcases List.mem_cons.1 ((hmem a).1 List.mem_cons_self) with hab | hab
        · exact hab
        · rcases List.mem_cons.1 ((hmem b).2 List.mem_cons_self) with hba | hba
          · exact hba.symm
          · exact absurd (List.lt_trans (hb.1 a hab) (ha.1 b hba)) (List.lt_irrefl _)
      subst hab
      congr 1
      refine ih ha.2 hb.2 fun key ↦ ?_
      by_cases hk : a.1 = key
      · rw [lookup_eq_none fun e he heq ↦ ?_, lookup_eq_none fun e he heq ↦ ?_]
        · exact absurd (hb.1 e he) (by rw [heq, ← hk]; exact List.lt_irrefl _)
        · exact absurd (ha.1 e he) (by rw [heq, ← hk]; exact List.lt_irrefl _)
      · have := h key
        rwa [lookup_cons, lookup_cons, if_neg hk, if_neg hk] at this

/-- Dictionaries that answer every key alike are equal. -/
@[ext] theorem ext {d e : Dict α} (h : ∀ key, d.get? key = e.get? key) : d = e := by
  obtain ⟨as, ha⟩ := d
  obtain ⟨bs, hb⟩ := e
  obtain rfl : as = bs := entries_eq_of_lookup ha hb h
  rfl

end Dict

end TagTemplate
