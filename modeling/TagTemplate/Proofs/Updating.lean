import Mathlib.Data.List.Induction
import TagTemplate.Proofs.Lookup

/-!
# Updating properties

Properties are told by two things: the order of their names, and the text that is found under each
of them (`Properties.ext_get?`). What happens to the texts when pairs are set is the business of
look-up (`Properties.get?_extend`). The order only grows: a name that is there keeps its place, and
a new one comes last (`Properties.keys_insert`).

So of the pairs that are set nothing counts but the order in which their names came first and the
last text of each name, and that is what the properties keep that the pairs make. Merging these
properties is therefore the same as setting the pairs (`Properties.merge_ofList`).
-/

namespace TagTemplate.Properties

variable {p q : Properties} {key value : Text}

/-- The names of the properties, in their order. -/
def keys (p : Properties) : List Text := p.entries.map (·.1)

/-- The keys are what is found. -/
theorem mem_keys_iff : key ∈ p.keys ↔ (p.get? key).isSome = true := by
  constructor
  · intro hmem
    obtain ⟨entry, hentry, rfl⟩ := List.mem_map.1 hmem
    exact Dict.isSome_lookup_of_mem hentry
  · intro hsome
    obtain ⟨text, htext⟩ := Option.isSome_iff_exists.1 hsome
    exact List.mem_map.2 ⟨(key, text), Dict.mem_of_lookup htext, rfl⟩

/-- The names with one more name: it keeps its place if it is there, and comes last if it is new. -/
def withKey (names : List Text) (name : Text) : List Text :=
  if name ∈ names then names else names ++ [name]

theorem keys_insert (p : Properties) (key value : Text) :
    (p.insert key value).keys = withKey p.keys key := keys_put key value p.entries

/-- The order of the names hangs on the names of the pairs only. -/
theorem keys_extend (p : Properties) (pairs : List (Text × Text)) :
    (p.extend pairs).keys = (pairs.map (·.1)).foldl withKey p.keys := by
  induction pairs generalizing p with
  | nil => rfl
  | cons pair pairs ih =>
    obtain ⟨name, value⟩ := pair
    rw [extend_cons, ih, keys_insert]
    rfl

/-- One name more is among the names, and none is lost. -/
theorem mem_withKey {names : List Text} {name other : Text} :
    other ∈ withKey names name ↔ other ∈ names ∨ other = name := by
  rw [withKey]
  split
  · rename_i hmem
    exact ⟨.inl, fun h ↦ h.elim id fun hsame ↦ hsame ▸ hmem⟩
  · rw [List.mem_append, List.mem_singleton]

/-- The keys after an extension are those from before and those of the pairs. -/
theorem mem_keys_extend {pairs : List (Text × Text)} :
    key ∈ (p.extend pairs).keys ↔ key ∈ p.keys ∨ key ∈ pairs.map (·.1) := by
  induction pairs generalizing p with
  | nil => simp
  | cons pair pairs ih =>
    obtain ⟨name, value⟩ := pair
    rw [extend_cons, ih, keys_insert, mem_withKey, List.map_cons, List.mem_cons, or_assoc]

/-- Names keep their places. -/
theorem keys_prefix_extend (p : Properties) (pairs : List (Text × Text)) :
    p.keys <+: (p.extend pairs).keys := by
  induction pairs generalizing p with
  | nil => exact List.prefix_refl _
  | cons pair pairs ih =>
    obtain ⟨name, value⟩ := pair
    have hinsert : p.keys <+: (p.insert name value).keys := by
      rw [keys_insert, withKey]
      split
      · exact List.prefix_refl _
      · exact List.prefix_append _ _
    exact hinsert.trans (ih (p.insert name value))

/-! ### Maps that are the same -/

/-- Entries with distinct names are told by the order of the names and by look-up. -/
theorem entries_eq_of_lookup {xs ys : List (Text × Text)} (hkeys : xs.map (·.1) = ys.map (·.1))
    (hdistinct : (xs.map (·.1)).Nodup) (h : ∀ key, xs.lookup key = ys.lookup key) : xs = ys := by
  induction xs generalizing ys with
  | nil => exact (List.map_eq_nil_iff.1 hkeys.symm).symm
  | cons x xs ih =>
    obtain ⟨y, ys, rfl⟩ := List.exists_cons_of_ne_nil fun hnil : ys = [] ↦ by simp [hnil] at hkeys
    obtain ⟨hname, hnames⟩ := List.cons.inj hkeys
    obtain ⟨hnew, hdistinct⟩ := List.nodup_cons.1 hdistinct
    have htext : x.2 = y.2 := by
      have hfirst := h x.1
      rw [Dict.lookup_cons, Dict.lookup_cons, if_pos rfl, if_pos hname.symm] at hfirst
      exact Option.some.inj hfirst
    have hrest (key : Text) : xs.lookup key = ys.lookup key := by
      by_cases hkey : x.1 = key
      · -- A name does not stand twice, so it is in neither of the rests.
        subst hkey
        have hnone {zs : List (Text × Text)} (hnotMem : x.1 ∉ zs.map (·.1)) :
            zs.lookup x.1 = none :=
          Dict.lookup_eq_none fun z hz hsame ↦ hnotMem (List.mem_map.2 ⟨z, hz, hsame⟩)
        rw [hnone hnew, hnone (hnames ▸ hnew)]
      · have hbehind := h key
        rwa [Dict.lookup_cons, Dict.lookup_cons, if_neg hkey, if_neg fun h ↦ hkey (hname.trans h)]
          at hbehind
    rw [Prod.ext hname htext, ih hnames hdistinct hrest]

/-- **Properties are the same** when their names have the same order and the same texts are found
under them. -/
theorem ext_get? (hkeys : p.keys = q.keys) (h : ∀ key, p.get? key = q.get? key) : p = q := by
  have hentries : p.entries = q.entries := entries_eq_of_lookup hkeys p.distinct h
  obtain ⟨_, _⟩ := p
  obtain ⟨_, _⟩ := q
  cases hentries
  rfl

/-! ### Merging -/

/-- In a merged map the second one counts first. -/
theorem get?_merge (p q : Properties) (key : Text) :
    (p.merge q).get? key = (q.get? key).or (p.get? key) := by
  rw [merge, get?_extend, Dict.lookup_reverse q.distinct]
  rfl

/-- A property of the second map may as well be set after the merge. -/
theorem merge_insert (p q : Properties) (key value : Text) :
    p.merge (q.insert key value) = (p.merge q).insert key value := by
  refine ext_get? ?_ fun other ↦ ?_
  · have hkeys (q : Properties) : (p.merge q).keys = q.keys.foldl withKey p.keys :=
      keys_extend p q.entries
    rw [keys_insert, hkeys, keys_insert]
    by_cases hmem : key ∈ q.keys
    · have hthere : key ∈ (p.merge q).keys := mem_keys_extend.2 (.inr hmem)
      rw [withKey, if_pos hmem, withKey, if_pos hthere, hkeys]
    · rw [withKey, if_neg hmem, List.foldl_append, hkeys]
      rfl
  · rw [get?_insert, get?_merge, get?_insert, get?_merge]
    split <;> rfl

/-- **Merging the properties that pairs make** is setting the pairs. -/
theorem merge_ofList (p : Properties) (pairs : List (Text × Text)) :
    p.merge (ofList pairs) = p.extend pairs := by
  induction pairs using List.reverseRecOn with
  | nil => rfl
  | append_singleton pairs pair ih =>
    rw [ofList, extend_append, extend_append, ← ofList]
    show p.merge ((ofList pairs).insert pair.1 pair.2) = (p.extend pairs).insert pair.1 pair.2
    rw [merge_insert, ih]

/-- The pairs of two lists make the properties of the first one, merged with those of the second
one. -/
theorem ofList_append (xs ys : List (Text × Text)) :
    ofList (xs ++ ys) = (ofList xs).merge (ofList ys) := by
  rw [ofList, extend_append, merge_ofList, ofList]

/-! ### Which names come first -/

/-- A name put to names without repetitions is one put to the names, with its repetitions erased. -/
theorem withKey_eraseDups (names : List Text) (name : Text) :
    withKey names.eraseDups name = (names ++ [name]).eraseDups := by
  rw [withKey, List.eraseDups_append, List.cons_removeAll]
  by_cases hmem : name ∈ names
  · rw [if_pos (List.mem_eraseDups.2 hmem), if_neg (by simpa using hmem)]
    exact (List.append_nil _).symm
  · rw [if_neg fun h ↦ hmem (List.mem_eraseDups.1 h), if_pos (by simpa using hmem)]
    rfl

/-- The names that pairs set stand in the order in which they come first. -/
theorem keys_ofList (pairs : List (Text × Text)) :
    (ofList pairs).keys = (pairs.map (·.1)).eraseDups := by
  rw [ofList, keys_extend]
  induction pairs using List.reverseRecOn with
  | nil => rfl
  | append_singleton pairs pair ih =>
    rw [List.map_append, List.foldl_append, ih]
    exact withKey_eraseDups (pairs.map (·.1)) pair.1

/-- Setting pairs a second time changes nothing. -/
theorem ofList_append_self (pairs : List (Text × Text)) :
    ofList (pairs ++ pairs) = ofList pairs := by
  refine ext_get? ?_ fun key ↦ ?_
  · have hnew : (pairs.map (·.1)).removeAll (pairs.map (·.1)) = [] :=
      List.filter_eq_nil_iff.2 fun name hname ↦ by simp [hname]
    rw [keys_ofList, keys_ofList, List.map_append, List.eraseDups_append, hnew]
    exact List.append_nil _
  · rw [get?_ofList, get?_ofList, List.reverse_append, List.lookup_append, Option.or_self]

end TagTemplate.Properties
