import Mathlib.Tactic.Choose
import TagTemplate.Proofs.Resolution

/-!
# Resolution leaves no trace

From a state in which the latch is set already, if it is going to be set at all, a scoped run is
*quiet*: what it answers depends on the store and the latch alone, it leaves both as they were, and
the flag is all that it may change (`Run.Scoped.quiet`). So the order in which tags are resolved
does not matter, and a run that is repeated answers again what it answered and changes nothing more
(`Run.Quiet.again`).
-/

namespace TagTemplate

/-- The latch is set if it may be. -/
def State.Latched (latching : Bool) (s : State) : Prop :=
  latching = true → s.uncacheableStarted = true

/-- Nothing but the flag sets the states apart. -/
def State.Similar (s s' : State) : Prop :=
  s'.store = s.store ∧ s'.uncacheableStarted = s.uncacheableStarted

theorem State.Similar.trans {s s' s'' : State} (h : s.Similar s') (h' : s'.Similar s'') :
    s.Similar s'' := ⟨h'.1.trans h.1, h'.2.trans h.2⟩

theorem State.Similar.latched {latching : Bool} {s s' : State} (h : s.Similar s')
    (hs : s.Latched latching) : s'.Latched latching := fun hl ↦ h.2.trans (hs hl)

namespace Run

variable {α β : Type} {latching : Bool} {allowed : TagError → Prop}

/-- A run that is described by what it answers and whether it sets the flag, where both depend on
the store and the latch alone. -/
def Quiet (latching : Bool) (run : Run α) : Prop :=
  ∃ (answer : Store → Bool → Except TagError α) (marks : Store → Bool → Bool),
    ∀ s : State, s.Latched latching → run s =
      (answer s.store s.uncacheableStarted,
        { s with
          processingElement := s.processingElement || marks s.store s.uncacheableStarted })

/-- **A scoped run is quiet.** -/
theorem Scoped.quiet {run : Run α} (h : Scoped latching allowed run) : Quiet latching run := by
  induction h with
  | pure a => exact ⟨fun _ _ ↦ .ok a, fun _ _ ↦ false, fun s _ ↦ by simp⟩
  | @throw _ err _ => exact ⟨fun _ _ ↦ .error err, fun _ _ ↦ false, fun s _ ↦ by simp⟩
  | bind _ _ ih ihk =>
    obtain ⟨answer, marks, hrun⟩ := ih
    choose answer' marks' hk using ihk
    refine ⟨fun store started ↦ (answer store started).bind fun a ↦ answer' a store started,
      fun store started ↦ marks store started || match answer store started with
        | .ok a => marks' a store started
        | .error _ => false, fun s hs ↦ ?_⟩
    rw [bind_apply, hrun s hs]
    cases hanswer : answer s.store s.uncacheableStarted with
    | error err => simp [Except.bind, hanswer]
    | ok a =>
      -- The rest starts in a state that differs from `s` in the flag alone.
      dsimp only
      rw [hk a { s with
        processingElement := s.processingElement || marks s.store s.uncacheableStarted } hs]
      simp [Except.bind, hanswer, Bool.or_assoc]
  | readLatch _ ihk =>
    choose answer marks hk using ihk
    exact ⟨fun store started ↦ answer started store started,
      fun store started ↦ marks started store started, fun s hs ↦ hk _ s hs⟩
  | readStore _ ihk =>
    choose answer marks hk using ihk
    exact ⟨fun store started ↦ answer store store started,
      fun store started ↦ marks store store started, fun s hs ↦ hk _ s hs⟩
  | mark _ ih =>
    obtain ⟨answer, _, hrun⟩ := ih
    refine ⟨answer, fun _ _ ↦ true, fun s hs ↦ ?_⟩
    refine (hrun { s with processingElement := true } hs).trans ?_
    simp
  | announce hctx =>
    refine ⟨fun _ _ ↦ .ok (), fun _ _ ↦ false, fun s hs ↦ ?_⟩
    rw [announce_apply]
    cases hlatch : Context.processUncacheable _ with
    | false => simp
    | true => simp [hs (hctx hlatch)]
  | exposing tag _ ih =>
    cases hkind : tag.kind with
    | placeholder => rw [exposing_of_placeholder hkind]; exact ih
    | chunk =>
      obtain ⟨answer, marks, hrun⟩ := ih
      refine ⟨fun store started ↦ answer (store.writeProperties tag.properties).1 started,
        fun store started ↦ marks (store.writeProperties tag.properties).1 started, fun s hs ↦ ?_⟩
      rw [exposing_apply_of_chunk hkind]
      dsimp only
      rw [hrun { s with store := (s.store.writeProperties tag.properties).1 } hs]
      simp [Store.restore_writeProperties]

namespace Quiet

variable {run : Run α}

/-- A quiet run changes the flag only. -/
theorem similar (h : Quiet latching run) {s : State} (hs : s.Latched latching) :
    s.Similar (run s).2 := by
  obtain ⟨_, _, hrun⟩ := h
  rw [hrun s hs]
  exact ⟨rfl, rfl⟩

/-- A quiet run leaves the latch set. -/
theorem latched (h : Quiet latching run) {s s' : State} {result : Except TagError α}
    (hs : s.Latched latching) (hrun : run s = (result, s')) : s'.Latched latching := by
  have hsim := h.similar hs
  rw [hrun] at hsim
  exact hsim.latched hs

/-- What a quiet run answers is the same in similar states. -/
theorem answer_eq (h : Quiet latching run) {s s' : State} (hs : s.Latched latching)
    (hsim : s.Similar s') : (run s').1 = (run s).1 := by
  obtain ⟨_, _, hrun⟩ := h
  rw [hrun s hs, hrun s' (hsim.latched hs), hsim.1, hsim.2]

/-- **A quiet run can be repeated**: it answers the same again, and the state stays. -/
theorem again (h : Quiet latching run) {s : State} (hs : s.Latched latching) :
    run (run s).2 = run s := by
  have hs' := (h.similar hs).latched hs
  obtain ⟨_, _, hrun⟩ := h
  rw [hrun _ hs', hrun s hs]
  simp

end Quiet

end Run

/-- A context has its latch set once it was announced. -/
theorem Context.latched_announce (ctx : Context) (s : State) :
    (ctx.announce s).2.Latched ctx.processUncacheable := by
  intro h
  rw [Run.announce_apply]
  simp [h]

/-- In a state in which the latch is set, the announcement of a context changes nothing. -/
theorem Context.announce_of_latched {ctx : Context} {s : State}
    (h : s.Latched ctx.processUncacheable) : ctx.announce s = (.ok (), s) := by
  rw [Run.announce_apply]
  cases hctx : ctx.processUncacheable with
  | false => simp
  | true => rw [Bool.or_true, ← h hctx]

end TagTemplate
