import TagTemplate.Proofs.Lookup

/-!
# Taking writes back

A write answers a scope, and `Store.restore` undoes what the scope records: it removes the names
written and puts the values before them back. What a name holds afterwards is the *first* value that
the scope has for it (`get?_restore`), since the values are put back last to first.

The first value recorded for a name is the one it had before the write, if it had one. A name that
is new to the store has none; but when the same write sets it twice, the second time finds the value
of the first time and records that (`lookup_previous_write`). Such a name is not removed by the
restoration: it keeps the first of the values written (`get?_restore_write`). Everything else is as
it was before, so a write is taken back exactly when it sets no new name twice
(`restore_write_eq_iff`).

Leaves of nested data can share a name, because keys may hold the separator; properties cannot, so
they are always taken back exactly (`restore_writeProperties`).
-/

namespace TagTemplate.Store

/-- The keys of a scope are the names of the leaves, in order. -/
theorem keys_write (s : Store) (leaves : List (Text × Scalar)) :
    (write s leaves).2.keys = leaves.map (·.1) := by
  induction leaves generalizing s with
  | nil => rfl
  | cons leaf leaves ih => simp [write, ih]

/-- A write leaves the other names alone. -/
theorem get?_write_of_notMem {s : Store} {leaves : List (Text × Scalar)} {key : Text}
    (h : key ∉ leaves.map (·.1)) : (write s leaves).1.get? key = s.get? key := by
  induction leaves generalizing s with
  | nil => rfl
  | cons leaf leaves ih =>
    simp only [List.map_cons, List.mem_cons, not_or] at h
    rw [write, ih h.2, Dict.get?_insert_of_ne _ _ (Ne.symm h.1)]

/-- The first value that a write records for a name is the value before the write; or the first of
the values written, if there was none before and the name is written again. -/
theorem lookup_previous_write (s : Store) (leaves : List (Text × Scalar)) (key : Text) :
    (write s leaves).2.previous.lookup key =
      (if key ∈ leaves.map (·.1) then s.get? key else none).or
        (if 1 < (leaves.map (·.1)).count key then leaves.lookup key else none) := by
  induction leaves generalizing s with
  | nil => simp [write]
  | cons leaf leaves ih =>
    obtain ⟨name, value⟩ := leaf
    have hrest := ih (s.insert name value)
    simp only [write, List.map_cons, List.mem_cons]
    by_cases hkey : key = name
    · -- When the rest of the write comes to this name, it finds the value that stands here.
      subst hkey
      have hagain : ((write (s.insert key value) leaves).2.previous.lookup key) =
          if key ∈ leaves.map (·.1) then some value else none := by
        rw [hrest, Dict.get?_insert_self]
        by_cases hmem : key ∈ leaves.map (·.1)
        · simp [hmem]
        · simp [hmem, List.count_eq_zero.2 hmem]
      have hcount : 1 < (key :: leaves.map (·.1)).count key ↔ key ∈ leaves.map (·.1) := by
        rw [List.count_cons_self, Nat.lt_add_left_iff_pos, List.count_pos_iff]
      rw [Dict.lookup_cons, if_pos rfl]
      simp only [hcount, true_or, if_true]
      cases hold : s.get? key with
      | none => rw [List.nil_append, hagain, Option.none_or]
      | some old => simp
    · have hother : s.get? key = (s.insert name value).get? key :=
        (Dict.get?_insert_of_ne _ _ (Ne.symm hkey)).symm
      rw [Dict.lookup_cons, if_neg (Ne.symm hkey), List.count_cons_of_ne (Ne.symm hkey), hother]
      simp only [hkey, false_or]
      cases s.get? name with
      | none => exact hrest
      | some old => rw [List.singleton_append, Dict.lookup_cons, if_neg (Ne.symm hkey), hrest]

/-- Removing names makes them unknown and leaves the others alone. -/
theorem get?_eraseAll (s : Store) (keys : List Text) (key : Text) :
    (eraseAll s keys).get? key = if key ∈ keys then none else s.get? key := by
  induction keys generalizing s with
  | nil => simp [eraseAll]
  | cons name keys ih =>
    rw [eraseAll, List.foldl_cons, ← eraseAll, ih, Dict.get?_erase]
    by_cases hmem : key ∈ keys
    · simp [hmem]
    · by_cases hkey : name = key
      · simp [hkey]
      · simp [hmem, hkey, Ne.symm hkey]

/-- What a name holds after a scope is given back. -/
theorem get?_restore (s : Store) (scope : Scope) (key : Text) :
    (restore s scope).get? key =
      (scope.previous.lookup key).or (if key ∈ scope.keys then none else s.get? key) := by
  have hput := (eraseAll s scope.keys).get?_foldl_insert scope.previous.reverse key
  rwa [List.reverse_reverse, get?_eraseAll] at hput

/-! ### What is left of a write that was taken back -/

/-- What a name holds after a write is taken back: what it held before, or, if that is nothing and
the name was written more than once, the first of the values written. -/
theorem get?_restore_write (s : Store) (leaves : List (Text × Scalar)) (key : Text) :
    (restore (write s leaves).1 (write s leaves).2).get? key =
      (s.get? key).or
        (if 1 < (leaves.map (·.1)).count key then leaves.lookup key else none) := by
  rw [get?_restore, lookup_previous_write, keys_write]
  by_cases hmem : key ∈ leaves.map (·.1)
  · simp [hmem]
  · rw [if_neg hmem, if_neg hmem, get?_write_of_notMem hmem, List.count_eq_zero.2 hmem]
    simp

/-- No name that is new to the store is among the leaves more than once. -/
def SetsNewOnce (s : Store) (leaves : List (Text × Scalar)) : Prop :=
  ∀ key, s.get? key = none → (leaves.map (·.1)).count key ≤ 1

/-- **A write is taken back exactly when it sets no new name twice.** -/
theorem restore_write_eq_iff (s : Store) (leaves : List (Text × Scalar)) :
    restore (write s leaves).1 (write s leaves).2 = s ↔ s.SetsNewOnce leaves := by
  constructor
  · intro hrestored key hnew
    have hleft := get?_restore_write s leaves key
    rw [hrestored, hnew, Option.none_or] at hleft
    refine Nat.not_lt.1 fun htwice ↦ ?_
    rw [if_pos htwice] at hleft
    obtain ⟨leaf, hleaf, rfl⟩ := List.mem_map.1 (List.count_pos_iff.1 (Nat.lt_of_succ_lt htwice))
    simpa using List.lookup_eq_none_iff.1 hleft.symm leaf hleaf
  · intro honce
    ext1 key
    rw [get?_restore_write]
    cases hold : s.get? key with
    | some old => rfl
    | none => rw [Option.none_or, if_neg (Nat.not_lt.2 (honce key hold))]

/-- **Properties are taken back exactly**: their names are distinct. -/
theorem restore_writeProperties (s : Store) (p : Properties) :
    restore (s.writeProperties p).1 (s.writeProperties p).2 = s := by
  refine (restore_write_eq_iff s _).2 fun key _ ↦ ?_
  rw [List.map_map]
  exact List.nodup_iff_count.1 p.distinct key

/-- **When a write is taken back exactly.** Flattening a subject into the store, under a name above
and with any separator (the empty one included), and flattening one value under a key, are undone by
restoring their scope exactly when none of the names that are new to the store is the name of two
leaves. Writing properties is undone always. -/
theorem undo_exact_iff (s : Store) :
    (∀ (subject : Json) (above separator : Text),
      restore (s.writeBelow subject above separator).1
          (s.writeBelow subject above separator).2 = s ↔
        s.SetsNewOnce (subject.flattenBelow (.separated separator) above)) ∧
    (∀ (key : Text) (value : Json) (above separator : Text),
      restore (s.writeField key value above separator).1
          (s.writeField key value above separator).2 = s ↔
        s.SetsNewOnce
          (value.flatten (.separated separator) (NameRule.separated separator above key))) ∧
    ∀ p : Properties, restore (s.writeProperties p).1 (s.writeProperties p).2 = s := by
  refine ⟨fun subject above separator ↦ ?_, fun key value above separator ↦ ?_, fun p ↦ ?_⟩
  · exact restore_write_eq_iff s _
  · exact restore_write_eq_iff s _
  · exact s.restore_writeProperties p

/-- An object with the key `a.b` beside a key `a` that holds a key `b`. -/
def colliding : Json :=
  .ofFields [(['a'], .ofFields [(['b'], .int 1)]), (['a', '.', 'b'], .int 2)]

/-- Two leaves named `a.b` are written into an empty store, and the first one of them is still there
after the restoration. -/
theorem undo_colliding_not_exact :
    restore (writeBelow .empty colliding [] ['.']).1
      (writeBelow .empty colliding [] ['.']).2 ≠ .empty := by
  intro hrestored
  have hleft := congrArg (fun s ↦ Dict.get? s ['a', '.', 'b']) hrestored
  revert hleft
  decide

end TagTemplate.Store
