import TagTemplate.Proofs.Updating
import TagTemplate.Properties.Indexed

/-!
# Properties with an index are an ordered dictionary

A map with an index *indexes* properties when its sequence lists them and its index has a position
for a name exactly if the name stands there (`IndexedProperties.Indexes`). This invariant carries
everything. No operation is sent past the end of the sequence, what is found through the index is
what is listed, and given properties are indexed by one map only, so that maps that list the same
properties have the same index as well.

Setting a property keeps the two in step (`Indexes.insert`): where the name is known, neither names
nor positions change, and where it is new, the next free position is put down for it. So each
operation does what the operation of the same name does on `Properties`, and a map that came about
in any way (`History`) indexes the properties that its pairs make, set one after the other. What
merging several maps gives is then a question of which pairs are set, and in which order.
-/

namespace TagTemplate

namespace Properties

variable {entries : List (Text × Text)} {key : Text} {position : Nat} {entry : Text × Text}

/-! ### Names and positions -/

/-- Setting the text of a name that has a position changes what stands there. -/
theorem put_eq_set (h : (entries.map (·.1)).Nodup) (hentry : entries[position]? = some entry)
    (value : Text) : put entry.1 value entries = entries.set position (entry.1, value) := by
  induction entries generalizing position with
  | nil => cases hentry
  | cons first entries ih =>
    obtain ⟨hnew, hdistinct⟩ := List.nodup_cons.1 h
    rw [put]
    rcases position with - | position
    · obtain rfl : first = entry := Option.some.inj hentry
      exact if_pos rfl
    · -- The name stands further behind, so it is not the first one.
      have hmem : entry ∈ entries := List.mem_of_getElem? hentry
      have hne : first.1 ≠ entry.1 := fun hsame ↦
        hnew (List.mem_map.2 ⟨entry, hmem, hsame.symm⟩)
      rw [if_neg hne, ih hdistinct hentry]
      rfl

/-- A name that is put behind others has the next position. -/
theorem getElem?_concat_iff {names : List Text} {other : Text} :
    (names ++ [key])[position]? = some other ↔
      names[position]? = some other ∨ position = names.length ∧ key = other := by
  rcases Nat.lt_trichotomy position names.length with hlt | rfl | hgt
  · rw [List.getElem?_append_left hlt]
    exact ⟨.inl, fun h ↦ h.resolve_right fun hlast ↦ Nat.ne_of_lt hlt hlast.1⟩
  · rw [List.getElem?_concat_length, List.getElem?_eq_none Nat.le.refl, Option.some.injEq]
    exact ⟨fun h ↦ .inr ⟨rfl, h⟩, fun h ↦ (h.resolve_left nofun).2⟩
  · have hpast : (names ++ [key]).length ≤ position := by
      rw [List.length_append]
      exact hgt
    rw [List.getElem?_eq_none hpast, List.getElem?_eq_none (Nat.le_of_lt hgt)]
    exact ⟨nofun, fun h ↦ h.elim nofun fun hlast ↦ absurd hlast.1 (Nat.ne_of_gt hgt)⟩

end Properties

namespace IndexedProperties

variable {p p' : IndexedProperties} {q q' : Properties}

/-- The sequence lists the properties, and the index is in step with it: it tells where each of the
names stands, and knows no other name. -/
structure Indexes (p : IndexedProperties) (q : Properties) : Prop where
  toList_eq : p.toList = q.entries
  index_iff : ∀ key position, p.index.get? key = some position ↔ q.keys[position]? = some key

theorem indexes_empty : empty.Indexes .empty := ⟨rfl, fun _ _ ↦ ⟨nofun, nofun⟩⟩

namespace Indexes

/-! ### What is answered -/

/-- The names of the entries are the keys of the map, in order. -/
theorem names_eq (h : p.Indexes q) : p.names = q.keys := by
  rw [names, h.toList_eq, Properties.keys]

/-- There is only one map with an index that lists the properties. -/
theorem unique (h : p.Indexes q) (h' : p'.Indexes q) : p = p' := by
  obtain ⟨entries, index⟩ := p
  obtain ⟨entries', index'⟩ := p'
  have hentries : entries = entries' := Array.toList_inj.1 (h.toList_eq.trans h'.toList_eq.symm)
  have hindex : index = index' := Dict.ext fun key ↦ Option.ext fun position ↦
    (h.index_iff key position).trans (h'.index_iff key position).symm
  rw [hentries, hindex]

theorem getElem?_eq (h : p.Indexes q) (position : Nat) :
    p.entries[position]? = q.entries[position]? := by
  rw [← h.toList_eq, toList, Array.getElem?_toList]

/-- Where the index sends a name, its text stands. -/
theorem getElem?_entries (h : p.Indexes q) {key : Text} {position : Nat}
    (hposition : p.index.get? key = some position) :
    ∃ text, p.entries[position]? = some (key, text) ∧ q.get? key = some text := by
  have hkey := (h.index_iff key position).1 hposition
  rw [Properties.keys, List.getElem?_map] at hkey
  obtain ⟨⟨name, text⟩, hentry, rfl⟩ := Option.map_eq_some_iff.1 hkey
  exact ⟨text, (h.getElem?_eq position).trans hentry,
    (Dict.lookup_eq_some_iff_mem q.distinct).2 (List.mem_of_getElem? hentry)⟩

/-- A key that the index does not know is none of the map. -/
theorem notMem_keys (h : p.Indexes q) {key : Text} (hnone : p.index.get? key = none) :
    key ∉ q.keys := by
  intro hmem
  obtain ⟨position, hposition⟩ := List.mem_iff_getElem?.1 hmem
  rw [(h.index_iff key position).2 hposition] at hnone
  cases hnone

/-- A name that the index does not know has no text. -/
theorem get?_eq_none (h : p.Indexes q) {key : Text} (hnone : p.index.get? key = none) :
    q.get? key = none := by
  rw [← Option.not_isSome_iff_eq_none, ← Properties.mem_keys_iff]
  exact h.notMem_keys hnone

/-- The answer of a look-up through the index. -/
theorem find?_eq (h : p.Indexes q) (key : Text) : p.find? key = some (q.get? key) := by
  rw [find?]
  cases hindex : p.index.get? key with
  | some position =>
    obtain ⟨text, hentry, hget⟩ := h.getElem?_entries hindex
    simp only [hentry, Option.map_some, hget]
  | none => rw [h.get?_eq_none hindex]

theorem size_eq (h : p.Indexes q) : p.size = q.size := by
  rw [size, Properties.size, ← h.toList_eq, toList, Array.length_toList]

theorem isEmpty_eq (h : p.Indexes q) : p.isEmpty = q.isEmpty := by
  rw [isEmpty, Properties.isEmpty, ← h.toList_eq, toList, Array.isEmpty_toList]

theorem contains_iff (h : p.Indexes q) (key : Text) : p.contains key = true ↔ key ∈ q.keys := by
  rw [contains, Dict.contains, Option.isSome_iff_exists, List.mem_iff_getElem?]
  exact exists_congr (h.index_iff key)

/-! ### Setting -/

/-- A text that is changed where the index says it stands. Names and positions stay. -/
theorem change (h : p.Indexes q) {key : Text} {position : Nat}
    (hposition : p.index.get? key = some position) (value : Text) :
    Indexes { p with entries := p.entries.setIfInBounds position (key, value) }
      (q.insert key value) := by
  obtain ⟨text, hentry, hget⟩ := h.getElem?_entries hposition
  rw [h.getElem?_eq] at hentry
  refine ⟨?_, fun other place ↦ ?_⟩
  · show (p.entries.setIfInBounds position (key, value)).toList = Properties.put key value q.entries
    rw [Array.toList_setIfInBounds, ← toList, h.toList_eq]
    exact (Properties.put_eq_set q.distinct hentry value).symm
  · have hmem : key ∈ q.keys := Properties.mem_keys_iff.2 (hget ▸ rfl)
    rw [Properties.keys_insert, Properties.withKey, if_pos hmem]
    exact h.index_iff other place

/-- A text that is put behind all others, with its position in the index. -/
theorem append (h : p.Indexes q) {key : Text} (hnone : p.index.get? key = none) (value : Text) :
    Indexes ⟨p.entries.push (key, value), p.index.insert key p.entries.size⟩
      (q.insert key value) := by
  have hnew : key ∉ q.keys := h.notMem_keys hnone
  have hsize : p.entries.size = q.keys.length := h.size_eq.trans (List.length_map _).symm
  refine ⟨?_, fun other place ↦ ?_⟩
  · show (p.entries.push (key, value)).toList = Properties.put key value q.entries
    rw [Array.toList_push, Properties.put_of_notMem hnew, ← toList, h.toList_eq]
  · show (p.index.insert key p.entries.size).get? other = some place ↔ _
    rw [Dict.get?_insert, Properties.keys_insert, Properties.withKey, if_neg hnew, hsize,
      Properties.getElem?_concat_iff]
    split
    · rename_i hsame
      subst hsame
      have hnot : q.keys[place]? ≠ some key := fun hplace ↦ hnew (List.mem_of_getElem? hplace)
      rw [or_iff_right hnot, and_iff_left rfl, Option.some.injEq, eq_comm]
    · rename_i hother
      rw [or_iff_left fun hlast ↦ hother hlast.2]
      exact h.index_iff other place

/-- **Setting a property** has an answer, which is the text that the name had, and keeps the index
in step. -/
theorem insert (h : p.Indexes q) (key value : Text) :
    ∃ after, p.insert? key value = some (after, q.get? key) ∧
      after.Indexes (q.insert key value) := by
  rw [insert?]
  cases hindex : p.index.get? key with
  | some position =>
    obtain ⟨text, hentry, hget⟩ := h.getElem?_entries hindex
    refine ⟨_, ?_, h.change hindex value⟩
    simp only [hentry, Option.map_some, hget]
  | none =>
    refine ⟨_, ?_, h.append hindex value⟩
    simp only [h.get?_eq_none hindex]

/-- Setting several properties, one after the other. -/
theorem extend (h : p.Indexes q) (pairs : List (Text × Text)) :
    ∃ after, p.extend? pairs = some after ∧ after.Indexes (q.extend pairs) := by
  induction pairs generalizing p q with
  | nil => exact ⟨p, rfl, h⟩
  | cons pair pairs ih =>
    obtain ⟨next, hnext, hstep⟩ := h.insert pair.1 pair.2
    obtain ⟨after, hafter, hrun⟩ := ih hstep
    refine ⟨after, ?_, hrun⟩
    rw [extend?, List.foldlM_cons, hnext]
    exact hafter

/-- Merging goes by the index, and comes to the merged map. -/
theorem merge (h : p.Indexes q) (h' : p'.Indexes q') :
    ∃ after, p.merge? p' = some after ∧ after.Indexes (q.merge q') := by
  rw [merge?, h'.toList_eq, Properties.merge]
  exact h.extend q'.entries

end Indexes

/-- The map that pairs make has an answer, and indexes the properties that they make. -/
theorem exists_ofList (pairs : List (Text × Text)) :
    ∃ p, ofList? pairs = some p ∧ p.Indexes (.ofList pairs) := indexes_empty.extend pairs

/-! ### How maps come about -/

/-- How a map came about: it began without properties or was made by pairs, and then properties were
set, one or several at a time, or another map was merged into it that came about likewise. -/
inductive History
  | empty
  | ofList (pairs : List (Text × Text))
  | insert (before : History) (key value : Text)
  | extend (before : History) (pairs : List (Text × Text))
  | merge (before other : History)

namespace History

/-- The map that came about, unless an operation had no answer. -/
def made? : History → Option IndexedProperties
  | empty => some .empty
  | ofList pairs => ofList? pairs
  | insert before key value => do
    let p ← before.made?
    let (after, _) ← p.insert? key value
    return after
  | extend before pairs => do (← before.made?).extend? pairs
  | merge before other => do (← before.made?).merge? (← other.made?)

/-- All pairs that were set, one after the other. Those of a map that was merged are the pairs that
had been set in it, whether or not their texts were still there. -/
def pairs : History → List (Text × Text)
  | empty => []
  | ofList pairs => pairs
  | insert before key value => before.pairs ++ [(key, value)]
  | extend before pairs => before.pairs ++ pairs
  | merge before other => before.pairs ++ other.pairs

/-- **Every history makes a map**, and it lists the properties that the pairs make. -/
theorem exists_made (history : History) :
    ∃ p, history.made? = some p ∧ p.Indexes (.ofList history.pairs) := by
  induction history with
  | empty => exact ⟨.empty, rfl, indexes_empty⟩
  | ofList pairs => exact exists_ofList pairs
  | insert before key value ih =>
    obtain ⟨p, hp, hindexes⟩ := ih
    -- Each operation keeps the entries and the index in agreement.
    obtain ⟨after, hafter, hstep⟩ := hindexes.insert key value
    refine ⟨after, ?_, ?_⟩
    · rw [made?, hp]
      show (p.insert? key value).bind _ = _
      rw [hafter]
      rfl
    · rw [pairs, Properties.ofList, Properties.extend_append]
      exact hstep
  | extend before pairs ih =>
    obtain ⟨p, hp, hindexes⟩ := ih
    obtain ⟨after, hafter, hstep⟩ := hindexes.extend pairs
    refine ⟨after, ?_, ?_⟩
    · rw [made?, hp]
      exact hafter
    · rw [History.pairs, Properties.ofList, Properties.extend_append]
      exact hstep
  | merge before other ih ih' =>
    obtain ⟨p, hp, hindexes⟩ := ih
    obtain ⟨p', hp', hindexes'⟩ := ih'
    obtain ⟨after, hafter, hstep⟩ := hindexes.merge hindexes'
    refine ⟨after, ?_, ?_⟩
    · rw [made?, hp, hp']
      exact hafter
    · rw [pairs, Properties.ofList_append]
      exact hstep

/-- Histories make the same map if their pairs make the same properties. -/
theorem made?_congr {a b : History} (h : Properties.ofList a.pairs = .ofList b.pairs) :
    a.made? = b.made? := by
  obtain ⟨p, hp, hindexes⟩ := a.exists_made
  obtain ⟨p', hp', hindexes'⟩ := b.exists_made
  rw [hp, hp', hindexes.unique (h ▸ hindexes')]

/-- Merging is associative on maps that were made. -/
theorem merge_assoc (a b c : History) :
    ((a.merge b).merge c).made? = (a.merge (b.merge c)).made? :=
  made?_congr (congrArg Properties.ofList (List.append_assoc a.pairs b.pairs c.pairs))

theorem merge_empty (a : History) : (a.merge empty).made? = a.made? :=
  made?_congr (congrArg Properties.ofList (List.append_nil a.pairs))

theorem empty_merge (a : History) : (empty.merge a).made? = a.made? := made?_congr rfl

/-- Merging a map into itself changes nothing. -/
theorem merge_self (a : History) : (a.merge a).made? = a.made? :=
  made?_congr (Properties.ofList_append_self a.pairs)

/-- A map that is merged a second time changes nothing. -/
theorem merge_merge_self (a b : History) : ((a.merge b).merge b).made? = (a.merge b).made? := by
  rw [merge_assoc]
  refine made?_congr ?_
  show Properties.ofList (a.pairs ++ (b.pairs ++ b.pairs)) = .ofList (a.pairs ++ b.pairs)
  rw [Properties.ofList_append, Properties.ofList_append_self, ← Properties.ofList_append]

end History

/-- **Indexed properties are an ordered dictionary.** However a map came about, all operations on
the way had an answer. The map lists distinct names, in the order in which each of them was first
set, and each with the text that was set last, and its index tells where each name stands. What is
found through the index is what is listed, the size counts it, and setting a property answers the
text that was listed for it. Merging is therefore associative, has the map without properties as its
identity, and changes nothing the second time. -/
theorem ordered_dictionary (a b c : History) :
    (∃ p, a.made? = some p ∧
      p.names.Nodup ∧ p.names = (a.pairs.map (·.1)).eraseDups ∧
      (∀ entry ∈ p.toList, a.pairs.reverse.lookup entry.1 = some entry.2) ∧
      (∀ key position, p.index.get? key = some position ↔ p.names[position]? = some key) ∧
      (∀ key, p.find? key = some (p.toList.lookup key)) ∧
      (∀ key, p.contains key = true ↔ key ∈ p.names) ∧
      p.size = (a.pairs.map (·.1)).eraseDups.length ∧
      ∀ key value, ∃ after, p.insert? key value = some (after, p.toList.lookup key)) ∧
    ((a.merge b).merge c).made? = (a.merge (b.merge c)).made? ∧
    (a.merge .empty).made? = a.made? ∧ (History.empty.merge a).made? = a.made? ∧
    (a.merge a).made? = a.made? ∧ ((a.merge b).merge b).made? = (a.merge b).made? := by
  -- The record that is made lists what the map of all pairs lists.
  obtain ⟨p, hp, hindexes⟩ := a.exists_made
  have hnames : p.names = (a.pairs.map (·.1)).eraseDups := by
    rw [hindexes.names_eq, Properties.keys_ofList]
  have hlookup (key : Text) : (Properties.ofList a.pairs).get? key = p.toList.lookup key := by
    rw [Properties.get?, hindexes.toList_eq]
  refine ⟨⟨p, hp, ?_, hnames, fun entry hentry ↦ ?_, ?_, fun key ↦ ?_, fun key ↦ ?_, ?_,
    fun key value ↦ ?_⟩, a.merge_assoc b c, a.merge_empty, a.empty_merge, a.merge_self,
    a.merge_merge_self b⟩
  · rw [hindexes.names_eq]
    exact (Properties.ofList a.pairs).distinct
  · -- The last value of a name is the one that is listed.
    rw [← Properties.get?_ofList]
    rw [hindexes.toList_eq] at hentry
    exact (Dict.lookup_eq_some_iff_mem (Properties.ofList a.pairs).distinct).2 hentry
  · rw [hindexes.names_eq]
    exact hindexes.index_iff
  · rw [hindexes.find?_eq, hlookup]
  · rw [hindexes.contains_iff, hindexes.names_eq]
  · rw [← hnames, hindexes.names_eq, hindexes.size_eq, Properties.size, Properties.keys,
      List.length_map]
  · -- What an insertion answers is what stood there before.
    obtain ⟨after, hafter, -⟩ := hindexes.insert key value
    exact ⟨after, by rw [hafter, hlookup]⟩

/-- A text is overwritten in its place. -/
example :
    let base := History.ofList [(['a'], ['1']), (['b'], ['2'])]
    let update := History.ofList [(['b'], ['2', '0']), (['c'], ['3'])]
    (base.merge update).made?.map toList =
      some [(['a'], ['1']), (['b'], ['2', '0']), (['c'], ['3'])] := rfl

end IndexedProperties

end TagTemplate
