import TagTemplate.Engine.Process
import TagTemplate.Proofs.Undo

/-!
# What runs may do to the state

A `Run` is any function of the state. The runs of the resolution are of a special shape: all they do
to the store is to write properties and to take them back, they set the latch only if their context
allows uncacheable tags, and apart from that they read the store and the latch. `Run.Scoped` is that
shape, as an inductive predicate; what holds of all scoped runs is shown once, by induction on it,
and not again for every function of the engine.

The predicate has two parameters. `latching` says whether the run may set the latch, and `allowed`
which errors it may end in.
-/

namespace TagTemplate.Run

variable {α β : Type}

/-! ### Runs as functions of the state -/

@[simp] theorem pure_apply (a : α) (s : State) : (pure a : Run α) s = (.ok a, s) := rfl

@[simp] theorem throw_apply (err : TagError) (s : State) :
    (throw err : Run α) s = (.error err, s) := rfl

/-- A run that goes on does so in the state that it left, unless it failed. -/
theorem bind_apply (run : Run α) (k : α → Run β) (s : State) :
    (run >>= k) s = match run s with
      | (.ok a, s') => k a s'
      | (.error err, s') => (.error err, s') := by
  change StateT.bind run (ExceptT.bindCont k) s = _
  rcases h : run s with ⟨err | a, s'⟩
  · simp [StateT.bind, h, ExceptT.bindCont]
    rfl
  · simp [StateT.bind, h, ExceptT.bindCont]
    rfl

theorem map_apply (f : α → β) (run : Run α) (s : State) :
    (f <$> run) s = ((run s).1.map f, (run s).2) := by
  rw [← bind_pure_comp, bind_apply]
  rcases run s with ⟨a | a, s'⟩ <;> rfl

/-- What the announcement of a context does to the state. -/
theorem announce_apply (ctx : Context) (s : State) :
    ctx.announce s =
      (.ok (),
        { s with uncacheableStarted := s.uncacheableStarted || ctx.processUncacheable }) := by
  cases h : ctx.processUncacheable with
  | false => simp [Context.announce, h]
  | true =>
    simp [Context.announce, h]
    rfl

theorem exposing_of_placeholder {tag : Tag} (h : tag.kind = .placeholder) (run : Run α) :
    tag.exposing run = run := by
  rw [Tag.exposing, h]

/-- The properties of a chunk are written before the run and taken back behind it, whether it fails
or not. -/
theorem exposing_apply_of_chunk {tag : Tag} (h : tag.kind = .chunk) (run : Run α) (s : State) :
    tag.exposing run s =
      let written := s.store.writeProperties tag.properties
      let after := run { s with store := written.1 }
      (after.1, { after.2 with store := after.2.store.restore written.2 }) := by
  rw [Tag.exposing, h]
  rfl

/-! ### Scoped runs -/

/-- A run that writes to the store only in scopes that it closes again, that sets the latch only if
it is `latching`, and that ends in `allowed` errors only. -/
inductive Scoped (latching : Bool) (allowed : TagError → Prop) : {α : Type} → Run α → Prop
  | pure {α : Type} (a : α) : Scoped latching allowed (Pure.pure a : Run α)
  | throw {α : Type} {err : TagError} (h : allowed err) :
    Scoped latching allowed (MonadExcept.throw err : Run α)
  | bind {α β : Type} {run : Run α} {k : α → Run β} (h : Scoped latching allowed run)
    (hk : ∀ a, Scoped latching allowed (k a)) : Scoped latching allowed (run >>= k)
  /-- The rest of the run may depend on the latch. -/
  | readLatch {α : Type} {k : Bool → Run α} (hk : ∀ started, Scoped latching allowed (k started)) :
    Scoped latching allowed fun s ↦ k s.uncacheableStarted s
  /-- The rest of the run may depend on the store. -/
  | readStore {α : Type} {k : Store → Run α} (hk : ∀ store, Scoped latching allowed (k store)) :
    Scoped latching allowed fun s ↦ k s.store s
  /-- The flag is set before the rest of the run. -/
  | mark {α : Type} {run : Run α} (h : Scoped latching allowed run) :
    Scoped latching allowed fun s ↦ run { s with processingElement := true }
  | announce {ctx : Context} (h : ctx.processUncacheable = true → latching = true) :
    Scoped latching allowed ctx.announce
  | exposing {α : Type} (tag : Tag) {run : Run α} (h : Scoped latching allowed run) :
    Scoped latching allowed (tag.exposing run)

namespace Scoped

variable {latching : Bool} {allowed : TagError → Prop}

theorem map {f : α → β} {run : Run α} (h : Scoped latching allowed run) :
    Scoped latching allowed (f <$> run) := by
  rw [← bind_pure_comp]
  exact h.bind fun a ↦ .pure (f a)

/-- What may latch less is scoped where what may latch more is. -/
theorem weaken {latching' : Bool} {run : Run α} (h : Scoped latching allowed run)
    (hl : latching = true → latching' = true) : Scoped latching' allowed run := by
  induction h with
  | pure a => exact .pure a
  | throw h => exact .throw h
  | bind _ _ ih ihk => exact .bind ih ihk
  | readLatch _ ihk => exact .readLatch ihk
  | readStore _ ihk => exact .readStore ihk
  | mark _ ih => exact .mark ih
  | announce h => exact .announce fun hc ↦ hl (h hc)
  | exposing tag _ ih => exact .exposing tag ih

/-- **A scoped run leaves the store as it was**, also when it fails. -/
theorem store_eq {run : Run α} (h : Scoped latching allowed run) (s : State) :
    (run s).2.store = s.store := by
  induction h generalizing s with
  | pure => rfl
  | throw => rfl
  | bind _ _ ih ihk =>
    rename_i run k _ _
    rw [bind_apply]
    have hrun := ih s
    rcases h : run s with ⟨err | a, s'⟩
    · rw [h] at hrun; exact hrun
    · rw [h] at hrun; exact (ihk a s').trans hrun
  | readLatch _ ihk => exact ihk _ s
  | readStore _ ihk => exact ihk _ s
  | mark _ ih => exact ih _
  | announce => rw [announce_apply]
  | exposing tag _ ih =>
    cases hkind : tag.kind with
    | placeholder => rw [exposing_of_placeholder hkind]; exact ih s
    | chunk =>
      -- The content leaves the store as it was after the write, so the write is taken back.
      rw [exposing_apply_of_chunk hkind]
      dsimp only
      rw [ih]
      exact Store.restore_writeProperties _ _

/-- A scoped run ends in allowed errors only. -/
theorem allowed_of_error {run : Run α} (h : Scoped latching allowed run) {s : State}
    {err : TagError} (herr : (run s).1 = .error err) : allowed err := by
  induction h generalizing s with
  | pure => cases herr
  | throw h => cases herr; exact h
  | bind _ _ ih ihk =>
    rename_i run k _ _
    rw [bind_apply] at herr
    rcases h : run s with ⟨err' | a, s'⟩ <;> rw [h] at herr
    · cases herr
      exact ih (s := s) (by rw [h])
    · exact ihk a herr
  | readLatch _ ihk => exact ihk _ herr
  | readStore _ ihk => exact ihk _ herr
  | mark _ ih => exact ih herr
  | announce => rw [announce_apply] at herr; cases herr
  | exposing tag _ ih =>
    cases hkind : tag.kind with
    | placeholder => rw [exposing_of_placeholder hkind] at herr; exact ih herr
    | chunk => rw [exposing_apply_of_chunk hkind] at herr; exact ih herr

end Scoped

end TagTemplate.Run
