import TagTemplate.Proofs.Flattening
import TagTemplate.Proofs.Latch
import TagTemplate.Proofs.PrefixBlocks

/-!
# Only scalars are stored

A value comes into a store of values in one of three ways: as a leaf of data that is flattened, as
the text of a property, or out of a scope, when a write is taken back. Scopes may be given back late
and in any order, so that what a store will hold is not told by the store alone. What carries the
proof is that the store *and* all scopes answered so far are made of scalars.

Where they are, each operation does what the operation of the same name does on the `Store` of these
scalars (`Store.writeBelow_values`, `Store.restore_values`, `Store.eraseStarting_values` and
others), and so they are afterwards. Between the operations an engine may be called. It works on the
scalars themselves, and would have nothing to work on if anything else were stored.
-/

namespace TagTemplate

/-! ### A store of scalars, and what it is as a store of values -/

namespace Store

variable (s : Store)

@[simp] theorem get?_values (key : Text) : s.values.get? key = (s.get? key).map .scalar :=
  Dict.lookup_map (fun _ leaf ↦ Json.scalar leaf) s.entries key

theorem text?_values (key : Text) : s.values.text? key = s.text? key := by
  rw [ValueStore.text?, get?_values, text?]
  rcases s.get? key with - | leaf <;> rfl

theorem insert_values (key : Text) (leaf : Scalar) :
    s.values.insert key (.scalar leaf) = Store.values (s.insert key leaf) := by
  refine Dict.ext fun key' ↦ ?_
  rw [Dict.get?_insert, get?_values, get?_values, Dict.get?_insert]
  split <;> rfl

theorem erase_values (key : Text) : s.values.erase key = Store.values (s.erase key) := by
  refine Dict.ext fun key' ↦ ?_
  rw [Dict.get?_erase, get?_values, get?_values, Dict.get?_erase]
  split <;> rfl

theorem eraseAll_values (keys : List Text) : s.values.eraseAll keys = (s.eraseAll keys).values := by
  induction keys generalizing s with
  | nil => rfl
  | cons key keys ih =>
    show ValueStore.eraseAll (s.values.erase key) keys = (eraseAll (s.erase key) keys).values
    rw [erase_values, ih]

/-! ### Writing -/

/-- Leaves that are written to a store are written as values. -/
theorem writes_write (leaves : List (Text × Scalar)) :
    ValueStore.Writes s.values (leaves.map ValueStore.ofLeaf)
      (Prod.map values Scope.values (s.write leaves)) := by
  induction leaves generalizing s with
  | nil => exact .nil _
  | cons leaf leaves ih =>
    obtain ⟨key, value⟩ := leaf
    have hrest := ih (s.insert key value)
    rw [← insert_values] at hrest
    have hboth := (s.values.writes_assign key (.scalar value)).absorb hrest
    have hscope : ((s.values.assign key (.scalar value)).2.absorb
        (write (s.insert key value) leaves).2.values) =
          (s.write ((key, value) :: leaves)).2.values := by
      rw [ValueStore.assign, get?_values, ValueScope.absorb, write, Scope.values, Scope.values]
      rcases s.get? key with - | old <;> rfl
    rw [Prod.map_snd, hscope] at hboth
    exact hboth

/-- To write what is below a subject is the same with scalars as values, and so is the scope that is
answered. -/
theorem writeBelow_values (subject : Json) (above separator : Text) :
    s.values.writeBelow subject above separator =
      Prod.map values Scope.values (s.writeBelow subject above separator) :=
  (s.values.writes_writeBelow subject above separator).unique (s.writes_write _)

theorem writeField_values (key : Text) (value : Json) (above separator : Text) :
    s.values.writeField key value above separator =
      Prod.map values Scope.values (s.writeField key value above separator) :=
  (s.values.writes_writeField key above separator value).unique (s.writes_write _)

theorem set_values (key : Text) (value : Json) : s.values.set key value = (s.set key value).values :=
  congrArg Prod.fst (s.writeField_values key value [] ['.'])

theorem writeProperties_values (p : Properties) :
    s.values.writeProperties p = Prod.map values Scope.values (s.writeProperties p) := by
  have hwrites := s.writes_write (p.entries.map fun entry ↦ (entry.1, .str entry.2))
  rw [List.map_map] at hwrites
  exact (s.values.writes_writeProperties p).unique hwrites

/-! ### Taking back and removing -/

theorem foldl_insert_values (leaves : List (Text × Scalar)) :
    (leaves.map ValueStore.ofLeaf).foldl (fun s entry ↦ s.insert entry.1 entry.2) s.values =
      Store.values (leaves.foldl (fun s entry ↦ s.insert entry.1 entry.2) s) := by
  induction leaves generalizing s with
  | nil => rfl
  | cons leaf leaves ih =>
    rw [List.map_cons, List.foldl_cons, List.foldl_cons, ← ih, ← insert_values]
    rfl

/-- To take a scope back is the same with scalars as values. -/
theorem restore_values (scope : Scope) :
    s.values.restore scope.values = (s.restore scope).values := by
  rw [ValueStore.restore]
  show List.foldl _ (s.values.eraseAll scope.keys) (scope.previous.map ValueStore.ofLeaf).reverse = _
  rw [eraseAll_values, ← List.map_reverse]
  exact foldl_insert_values _ _

/-- To erase what begins with a text is the same with values, and erases as many. -/
theorem eraseStarting_values (start : Text) :
    s.values.eraseStarting start = Prod.map values id (s.eraseStarting start) := by
  have hentries : (Dict.eraseStarting s.values start).entries =
      (s.eraseStarting start).1.values.entries := by
    rw [Dict.entries_eraseStarting]
    show (s.entries.map _).filter _ = (Dict.eraseStarting s start).entries.map _
    rw [Dict.entries_eraseStarting, List.filter_map]
    rfl
  have hstore : (s.values.eraseStarting start).1 = (s.eraseStarting start).1.values := by
    rw [ValueStore.eraseStarting_fst]
    exact Dict.ext fun key ↦ by rw [Dict.get?, Dict.get?, hentries]
  refine Prod.ext hstore ?_
  have hsize (s : Store) : s.values.size = s.size := List.length_map _
  have hcount := s.values.size_eraseStarting start
  rw [hstore, hsize, hsize] at hcount
  show _ = s.size - (s.eraseStarting start).1.size
  omega

/-! ### Reading -/

/-- Values that are scalars have the same texts. -/
theorem toProperties_values : s.values.toProperties = s.toProperties := by
  show Properties.ofList (((s.entries.map ValueStore.ofLeaf).filterMap ValueStore.leaf?).map _) = _
  rw [List.filterMap_map]
  exact congrArg (fun entries : List (Text × Scalar) ↦
    Properties.ofList (entries.map fun entry ↦ (entry.1, entry.2.text))) List.filterMap_some

/-- **The store is found again** among the stores of values. -/
theorem scalars?_values : s.values.scalars? = some s := by
  have hentries (leaves : List (Text × Scalar)) :
      (leaves.map ValueStore.ofLeaf).mapM ValueStore.leaf? = some leaves := by
    induction leaves with
    | nil => rfl
    | cons leaf leaves ih =>
      rw [List.map_cons, List.mapM_cons, ih]
      rfl
  show ((s.entries.map ValueStore.ofLeaf).mapM ValueStore.leaf?).map Dict.ofList = _
  rw [hentries]
  exact congrArg some (Dict.ofList_entries s)

end Store

/-! ### Sessions -/

/-- A store that a host fills and empties, together with the scopes that its writes have answered so
far and with the flags of the engines that work on it. Scopes are kept when they are given back, so
that they can be given back again, and in any order. -/
structure Session where
  store : ValueStore := .empty
  scopes : List ValueScope := []
  uncacheableStarted : Bool := false
  processingElement : Bool := false

namespace Session

/-- What is done with a store: one of its operations, or a call of an engine that works on it. -/
inductive Operation
  | set (key : Text) (value : Json)
  | writeBelow (subject : Json) (above separator : Text)
  | writeField (key : Text) (value : Json) (above separator : Text)
  | writeProperties (properties : Properties)
  /-- The scope that was answered at the position is given back, if there is one. -/
  | restore (position : Nat)
  | erase (key : Text)
  | eraseAll (keys : List Text)
  | eraseStarting (start : Text)
  | call (e : Engine) (operation : Engine.Operation)

/-- The session after a write, with the scope that the write answers. -/
def opened (session : Session) (written : ValueStore × ValueScope) : Session :=
  { session with store := written.1, scopes := session.scopes ++ [written.2] }

/-- The session after an operation. An engine works on scalars, and there is no session after a call
if anything else is stored. -/
def perform (session : Session) : Operation → Option Session
  | .set key value => some { session with store := session.store.set key value }
  | .writeBelow subject above separator =>
    some (session.opened (session.store.writeBelow subject above separator))
  | .writeField key value above separator =>
    some (session.opened (session.store.writeField key value above separator))
  | .writeProperties properties =>
    some (session.opened (session.store.writeProperties properties))
  | .restore position =>
    some { session with
      store := (session.scopes[position]?).elim session.store session.store.restore }
  | .erase key => some { session with store := session.store.erase key }
  | .eraseAll keys => some { session with store := session.store.eraseAll keys }
  | .eraseStarting start => some { session with store := (session.store.eraseStarting start).1 }
  | .call e operation => session.store.scalars?.map fun store ↦
    let after := operation.after e
      ⟨store, session.uncacheableStarted, session.processingElement⟩
    { session with
      store := after.store.values
      uncacheableStarted := after.uncacheableStarted
      processingElement := after.processingElement }

/-- The session after operations, one after the other. -/
def performAll (session : Session) (operations : List Operation) : Option Session :=
  operations.foldlM perform session

/-- The store, and all scopes answered so far, are made of scalars. -/
def OfScalars (session : Session) : Prop :=
  ∃ (store : Store) (scopes : List Scope),
    session.store = store.values ∧ session.scopes = scopes.map Scope.values

theorem ofScalars_new : OfScalars {} := ⟨.empty, [], rfl, rfl⟩

variable {session : Session}

/-- A scope that was opened over scalars is one of scalars. -/
theorem OfScalars.opened (h : session.OfScalars) (written : Store × Scope) :
    (session.opened (Prod.map Store.values Scope.values written)).OfScalars := by
  obtain ⟨store, scopes, -, hscopes⟩ := h
  refine ⟨written.1, scopes ++ [written.2], rfl, ?_⟩
  rw [Session.opened, hscopes, List.map_append]
  rfl

/-- **One operation** on scalars leaves scalars, and a call of an engine is possible. -/
theorem OfScalars.perform (h : session.OfScalars) (operation : Operation) :
    ∃ next, session.perform operation = some next ∧ next.OfScalars := by
  obtain ⟨store, scopes, hstore, hscopes⟩ := id h
  cases operation with
  | set key value =>
    exact ⟨_, rfl, store.set key value, scopes, by rw [hstore, Store.set_values], hscopes⟩
  | writeBelow subject above separator =>
    refine ⟨_, rfl, ?_⟩
    rw [hstore, Store.writeBelow_values]
    exact h.opened _
  | writeField key value above separator =>
    refine ⟨_, rfl, ?_⟩
    rw [hstore, Store.writeField_values]
    exact h.opened _
  | writeProperties properties =>
    refine ⟨_, rfl, ?_⟩
    rw [hstore, Store.writeProperties_values]
    exact h.opened _
  | restore position =>
    -- Only a scope of the session is given back, and its values are scalars.
    refine ⟨_, rfl, (scopes[position]?).elim store store.restore, scopes, ?_, hscopes⟩
    rw [hstore, hscopes, List.getElem?_map]
    rcases scopes[position]? with - | scope
    · rfl
    · exact store.restore_values scope
  | erase key =>
    exact ⟨_, rfl, store.erase key, scopes, by rw [hstore, Store.erase_values], hscopes⟩
  | eraseAll keys =>
    exact ⟨_, rfl, store.eraseAll keys, scopes, by rw [hstore, Store.eraseAll_values], hscopes⟩
  | eraseStarting start =>
    refine ⟨_, rfl, (store.eraseStarting start).1, scopes, ?_, hscopes⟩
    rw [hstore, Store.eraseStarting_values]
    rfl
  | call e operation =>
    rw [Session.perform, hstore, Store.scalars?_values]
    exact ⟨_, rfl, _, scopes, rfl, hscopes⟩

/-- **All operations** on scalars leave scalars. -/
theorem OfScalars.performAll (h : session.OfScalars) (operations : List Operation) :
    ∃ final, session.performAll operations = some final ∧ final.OfScalars := by
  induction operations generalizing session with
  | nil => exact ⟨session, rfl, h⟩
  | cons operation operations ih =>
    obtain ⟨next, hnext, hscalars⟩ := h.perform operation
    obtain ⟨final, hfinal, hfinals⟩ := ih hscalars
    refine ⟨final, ?_, hfinals⟩
    rw [Session.performAll, List.foldlM_cons, hnext]
    exact hfinal

/-- **Only scalars are stored.** Whatever is done with a store that was empty in the beginning, and
whatever engines are called in between, every value stored and every value recorded in a scope that
was answered so far is a scalar. No value is invisible therefore: a name has a text exactly if
something is stored under it, and the store as properties has one for each name, with that text and
in the ascending order of the names. -/
theorem only_scalars_stored (operations : List Operation) :
    ∃ final : Session, performAll {} operations = some final ∧
      (∀ entry ∈ final.store.entries, ∃ leaf, entry.2 = .scalar leaf) ∧
      (∀ scope ∈ final.scopes, ∀ entry ∈ scope.previous, ∃ leaf, entry.2 = .scalar leaf) ∧
      (∀ key, final.store.contains key = true ↔ (final.store.text? key).isSome = true) ∧
      final.store.toProperties.entries.map (·.1) = final.store.keys ∧
      final.store.keys.Pairwise (Text.bytes · < Text.bytes ·) ∧
      ∀ key, final.store.toProperties.get? key = final.store.text? key := by
  obtain ⟨final, hfinal, store, scopes, hstore, hscopes⟩ := ofScalars_new.performAll operations
  refine ⟨final, hfinal, fun entry hentry ↦ ?_, fun scope hscope entry hentry ↦ ?_, fun key ↦ ?_,
    ?_, final.store.keys_pairwise.imp Text.bytes_lt_iff.2, fun key ↦ ?_⟩
  · rw [hstore] at hentry
    obtain ⟨stored, -, rfl⟩ := List.mem_map.1 hentry
    exact ⟨stored.2, rfl⟩
  · rw [hscopes] at hscope
    obtain ⟨recorded, -, rfl⟩ := List.mem_map.1 hscope
    obtain ⟨overwritten, -, rfl⟩ := List.mem_map.1 hentry
    exact ⟨overwritten.2, rfl⟩
  · rw [hstore, Dict.contains, Store.text?_values, Store.get?_values, Store.text?, Option.isSome_map,
      Option.isSome_map]
  · rw [hstore, Store.toProperties_values, Store.entries_toProperties, List.map_map]
    show _ = (store.entries.map ValueStore.ofLeaf).map (·.1)
    rw [List.map_map]
    rfl
  · rw [hstore, Store.toProperties_values, Store.get?_toProperties, Store.text?_values]

end Session

end TagTemplate
