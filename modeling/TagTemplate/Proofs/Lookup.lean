import Mathlib.Data.List.Nodup
import TagTemplate.Store

/-!
# What is found under a name

Properties and stores are filled by setting pairs one after the other, and the names of the pairs
need not be distinct. What is found under a name afterwards is the last value that was set under it
(`Properties.get?_extend`, `Store.get?_write`), which is the first one of the reversed list. For
pairs with distinct names, such as the entries of a map or a store, first and last are the same
(`Dict.lookup_reverse`).
-/

namespace TagTemplate

namespace Dict

variable {α β : Type}

/-- Looking up among values that were made from others, each under its name. -/
theorem lookup_map (f : Text → α → β) (entries : List (Text × α)) (key : Text) :
    (entries.map fun entry ↦ (entry.1, f entry.1 entry.2)).lookup key =
      (entries.lookup key).map (f key) := by
  induction entries with
  | nil => rfl
  | cons entry entries ih =>
    rw [List.map_cons, lookup_cons, lookup_cons, ih]
    by_cases hkey : entry.1 = key
    · rw [if_pos hkey, if_pos hkey, hkey]
      rfl
    · rw [if_neg hkey, if_neg hkey]

/-- Looking up under one of two names for each entry, if they agree wherever one of them matters. -/
theorem lookup_map_congr {f g : α → Text} {entries : List (α × β)} {key : Text}
    (h : ∀ entry ∈ entries, f entry.1 = g entry.1 ∨ f entry.1 ≠ key ∧ g entry.1 ≠ key) :
    (entries.map fun entry ↦ (f entry.1, entry.2)).lookup key =
      (entries.map fun entry ↦ (g entry.1, entry.2)).lookup key := by
  induction entries with
  | nil => rfl
  | cons entry entries ih =>
    rw [List.forall_mem_cons] at h
    rw [List.map_cons, List.map_cons, lookup_cons, lookup_cons, ih h.2]
    rcases h.1 with hsame | ⟨hf, hg⟩
    · rw [hsame]
    · rw [if_neg hf, if_neg hg]

theorem isSome_lookup_of_mem {entries : List (Text × α)} {entry : Text × α} (h : entry ∈ entries) :
    (entries.lookup entry.1).isSome = true :=
  List.lookup_isSome_iff.2 ⟨entry, h, beq_self_eq_true _⟩

/-- What is found is listed. -/
theorem mem_of_lookup {entries : List (Text × α)} {key : Text} {value : α}
    (h : entries.lookup key = some value) : (key, value) ∈ entries := by
  obtain ⟨before, after, rfl, -⟩ := List.lookup_eq_some_iff.1 h
  exact List.mem_append_right _ List.mem_cons_self

/-- Where no name stands twice, what is listed is found. -/
theorem lookup_eq_some_iff_mem {entries : List (Text × α)} (h : (entries.map (·.1)).Nodup)
    {key : Text} {value : α} : entries.lookup key = some value ↔ (key, value) ∈ entries := by
  refine ⟨mem_of_lookup, fun hmem ↦ ?_⟩
  obtain ⟨found, hfound⟩ := Option.isSome_iff_exists.1 (isSome_lookup_of_mem hmem)
  have hsame := List.inj_on_of_nodup_map h (mem_of_lookup hfound) hmem rfl
  rw [hfound, (Prod.mk.inj hsame).2]

/-- Where no name stands twice, the last value under a name is the first one. -/
theorem lookup_reverse {entries : List (Text × α)} (h : (entries.map (·.1)).Nodup) (key : Text) :
    entries.reverse.lookup key = entries.lookup key := by
  induction entries with
  | nil => rfl
  | cons entry entries ih =>
    rw [List.map_cons, List.nodup_cons] at h
    rw [List.reverse_cons, List.lookup_append, ih h.2, lookup_cons, lookup_cons]
    by_cases hkey : entry.1 = key
    · have hnone : entries.lookup key = none :=
        lookup_eq_none fun other hother heq ↦
          h.1 (List.mem_map.2 ⟨other, hother, heq.trans hkey.symm⟩)
      rw [if_pos hkey, if_pos hkey, hnone, Option.none_or]
    · rw [if_neg hkey, if_neg hkey]
      exact Option.or_none

/-- The keys of a dictionary are distinct, since they ascend. -/
theorem nodup_keys (d : Dict α) : (d.entries.map (·.1)).Nodup := by
  refine List.pairwise_map.2 (d.sorted.imp ?_)
  intro a b hlt heq
  rw [heq] at hlt
  exact List.lt_irrefl _ hlt

/-- The last value that was stored under a key is found there. -/
theorem get?_foldl_insert (d : Dict α) (pairs : List (Text × α)) (key : Text) :
    (pairs.foldl (fun d pair ↦ d.insert pair.1 pair.2) d).get? key =
      (pairs.reverse.lookup key).or (d.get? key) := by
  induction pairs generalizing d with
  | nil => rfl
  | cons pair pairs ih =>
    rw [List.foldl_cons, ih, get?_insert, List.reverse_cons, List.lookup_append, lookup_cons,
      Option.or_assoc]
    split <;> rfl

/-- The entries of a dictionary make it again. -/
theorem ofList_entries (d : Dict α) : ofList d.entries = d := by
  refine ext fun key ↦ ?_
  rw [ofList, get?_foldl_insert, lookup_reverse d.nodup_keys, get?_empty, Option.or_none]
  rfl

end Dict

namespace Properties

/-- Pairs with distinct names are set as they are. -/
theorem entries_ofList {pairs : List (Text × Text)} (h : (pairs.map (·.1)).Nodup) :
    (ofList pairs).entries = pairs :=
  entries_extend (p := empty) h

/-- The last text that was set under a name is found there. -/
theorem get?_extend (p : Properties) (pairs : List (Text × Text)) (key : Text) :
    (p.extend pairs).get? key = (pairs.reverse.lookup key).or (p.get? key) := by
  induction pairs generalizing p with
  | nil => rfl
  | cons pair pairs ih =>
    obtain ⟨name, value⟩ := pair
    rw [extend_cons, ih, get?_insert, List.reverse_cons, List.lookup_append, Dict.lookup_cons,
      Option.or_assoc]
    split <;> rfl

theorem get?_ofList (pairs : List (Text × Text)) (key : Text) :
    (ofList pairs).get? key = pairs.reverse.lookup key := by
  rw [ofList, get?_extend]
  exact Option.or_none

end Properties

namespace Store

/-- The last value that was written under a name is found there. -/
theorem get?_write (s : Store) (leaves : List (Text × Scalar)) (key : Text) :
    (write s leaves).1.get? key = (leaves.reverse.lookup key).or (s.get? key) := by
  induction leaves generalizing s with
  | nil => rfl
  | cons leaf leaves ih =>
    obtain ⟨name, value⟩ := leaf
    show (write (s.insert name value) leaves).1.get? key = _
    rw [ih, Dict.get?_insert, List.reverse_cons, List.lookup_append, Dict.lookup_cons,
      Option.or_assoc]
    split <;> rfl

/-- The properties are found before anything else. -/
theorem text?_writeProperties (s : Store) (p : Properties) (key : Text) :
    text? (s.writeProperties p).1 key = (p.get? key).or (text? s key) := by
  have hnames : ((p.entries.map fun entry ↦ (entry.1, Scalar.str entry.2)).map (·.1)).Nodup := by
    rw [List.map_map]
    exact p.distinct
  have hlookup := Dict.lookup_map (fun _ ↦ Scalar.str) p.entries key
  show ((write s (p.entries.map fun entry ↦ (entry.1, Scalar.str entry.2))).1.get? key).map
    Scalar.text = _
  rw [get?_write, Dict.lookup_reverse hnames, hlookup, Properties.get?]
  cases p.entries.lookup key <;> rfl

/-- A store has one property for each name, in the order of the names. -/
theorem entries_toProperties (s : Store) :
    s.toProperties.entries = s.entries.map fun entry ↦ (entry.1, entry.2.text) := by
  refine Properties.entries_ofList ?_
  rw [List.map_map]
  exact s.nodup_keys

/-- The properties that a store is taken for have the texts that are stored. -/
theorem get?_toProperties (s : Store) (key : Text) : s.toProperties.get? key = s.text? key := by
  rw [Properties.get?, entries_toProperties, Dict.lookup_map fun _ ↦ Scalar.text]
  rfl

end Store

end TagTemplate
