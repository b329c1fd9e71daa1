import TagTemplate.Proofs.PassBudget

/-!
# The latch

The latch of a state tells whether any resolution so far allowed uncacheable tags; where it is not
set, tags that have to wait may be removed. Every nested resolution derives for itself whether
uncacheable tags are allowed, and every one of them may set the latch. What is shown here is that
none of them allows what its caller does not: a scoped run keeps the latch, and sets it only if it
is latching (`Run.Scoped.latchStep`), and resolution is latching only where its context allows
uncacheable tags (`Engine.scoped_resolve`).

A host may do many things with one engine, one after the other (`Engine.Operation`). Each of them is
such a step, and so the latch is set after all of them exactly if it was set before or one of them
set it that allows uncacheable tags (`Engine.latch_exact`).
-/

namespace TagTemplate

/-- On the way from one state to the other, the latch was not reset, and it was not set unless that
is allowed. -/
structure State.LatchStep (latching : Bool) (s s' : State) : Prop where
  kept : s.uncacheableStarted = true → s'.uncacheableStarted = true
  allowed : s'.uncacheableStarted = true → s.uncacheableStarted = true ∨ latching = true

namespace State.LatchStep

variable {latching : Bool} {s s' s'' : State}

theorem of_eq (h : s'.uncacheableStarted = s.uncacheableStarted) : LatchStep latching s s' :=
  ⟨fun hs ↦ h.trans hs, fun hs' ↦ .inl (h.symm.trans hs')⟩

/-- Two steps of the latch are one. -/
theorem trans (h : LatchStep latching s s') (h' : LatchStep latching s' s'') :
    LatchStep latching s s'' where
  kept hs := h'.kept (h.kept hs)
  allowed hs'' := (h'.allowed hs'').elim h.allowed .inr

/-- Where it must not be set, the latch stays as it was. -/
theorem eq_of_not (h : LatchStep latching s s') (hlatching : latching = false) :
    s'.uncacheableStarted = s.uncacheableStarted := by
  rw [Bool.eq_iff_iff]
  exact ⟨fun hs' ↦ (h.allowed hs').resolve_right (by simp [hlatching]), h.kept⟩

end State.LatchStep

namespace Run

variable {α : Type} {latching : Bool} {allowed : TagError → Prop}

/-- **A scoped run keeps the latch**, and sets it only if it is latching. -/
theorem Scoped.latchStep {run : Run α} (h : Scoped latching allowed run) (s : State) :
    s.LatchStep latching (run s).2 := by
  induction h generalizing s with
  | pure => exact .of_eq rfl
  | throw => exact .of_eq rfl
  | bind _ _ ih ihk =>
    rename_i run k _ _
    rw [bind_apply]
    have hrun := ih s
    rcases h : run s with ⟨err | a, s'⟩ <;> rw [h] at hrun
    · exact hrun
    · exact hrun.trans (ihk a s')
  | readLatch _ ihk => exact ihk _ s
  | readStore _ ihk => exact ihk _ s
  | mark _ ih =>
    have hrun := ih { s with processingElement := true }
    exact ⟨hrun.kept, hrun.allowed⟩
  | announce hctx =>
    rw [announce_apply]
    refine ⟨fun hs ↦ ?_, fun hs' ↦ ?_⟩
    · rw [hs, Bool.true_or]
    · rw [Bool.or_eq_true] at hs'
      exact hs'.imp_right hctx
  | exposing tag _ ih =>
    cases hkind : tag.kind with
    | placeholder => rw [exposing_of_placeholder hkind]; exact ih s
    | chunk =>
      -- The scope is opened and closed in the store, and the latch is apart from it.
      rw [exposing_apply_of_chunk hkind]
      have hrun := ih { s with store := (s.store.writeProperties tag.properties).1 }
      exact ⟨hrun.kept, hrun.allowed⟩

end Run

open Run

namespace Engine

variable {e : Engine}

/-- **What a call on given terms does to the latch**: it is set afterwards exactly if it was set
before or the terms allow uncacheable tags, whatever the call answers. -/
theorem uncacheableStarted_processTags (e : Engine) (request : Request) (content : Text)
    (s : State) :
    (e.processTags request content s).2.uncacheableStarted =
      (s.uncacheableStarted || request.processUncacheable) := by
  have hstep := (scoped_processTags e.raisesOnly_true request content).latchStep s
  rw [Bool.eq_iff_iff, Bool.or_eq_true]
  refine ⟨hstep.allowed, fun hset ↦ ?_⟩
  -- The context is announced before anything else, and what follows keeps the latch.
  let ctx := e.contextOf request
  have hresolve (inner : Text) : Scoped request.processUncacheable (fun _ ↦ True)
      (e.resolveInner (e.search request).delimiters ctx inner) :=
    scoped_resolve e.raisesOnly_true _ ctx _ inner
  have hpasses : Scoped request.processUncacheable (fun _ ↦ True) ((e.search request).passes ctx
      (e.resolveInner (e.search request).delimiters ctx) (request.maxDepth - 1) content) :=
    Search.scoped_passes hresolve _ content
  have hannounced : (ctx.announce s).2.uncacheableStarted = true := by
    rw [announce_apply]
    exact Bool.or_eq_true_iff.2 hset
  have hrun := processTags_apply e request request.maxDepth content s
  rw [show e.processTags request content s = _ from hrun]
  exact (hpasses.latchStep _).kept hannounced

/-! ### Everything that a host does -/

/-- What a host does with an engine: it asks for something to be resolved, or it changes the store
or the flag itself. -/
inductive Operation
  | process (content : Text)
  | processTags (request : Request) (content : Text)
  | processTag (ctx : Context) (outer inner : Text)
  | chunk (name : Text) (properties : Properties)
  | attempt (tag : Tag) (ctx : Context) (explicit : Properties)
  | write (store : Store)
  | mark (processingElement : Bool)

namespace Operation

/-- Whether uncacheable tags may be resolved. -/
def allowsUncacheable : Operation → Bool
  | .process _ => true
  | .processTags request _ => request.processUncacheable
  | .processTag ctx _ _ => ctx.processUncacheable
  | .chunk _ _ => true
  | .attempt _ ctx _ => ctx.processUncacheable
  | .write _ => false
  | .mark _ => false

/-- The state that the operation leaves behind, whether it succeeds or fails. -/
def after (e : Engine) (s : State) : Operation → State
  | .process content => (e.process content s).2
  | .processTags request content => (e.processTags request content s).2
  | .processTag ctx outer inner => (e.processTag ctx outer inner s).2
  | .chunk name properties => (e.chunk name properties s).2
  | .attempt tag ctx explicit => (tag.process e ctx explicit s).2.2
  | .write store => { s with store }
  | .mark processingElement => { s with processingElement }

/-- **One operation** keeps the latch, and sets it only if it allows uncacheable tags. -/
theorem latchStep (e : Engine) (s : State) (operation : Operation) :
    s.LatchStep operation.allowsUncacheable (operation.after e s) := by
  have he := e.raisesOnly_true
  cases operation with
  | process content => exact (scoped_process he content).latchStep s
  | processTags request content => exact (scoped_processTags he request content).latchStep s
  | processTag ctx outer inner =>
    exact (scoped_resolve he e.options.delimiters ctx outer inner).latchStep s
  | chunk name properties => exact (scoped_chunk he name properties).latchStep s
  | attempt tag ctx explicit =>
    have hsame := congrArg Prod.snd (tag.process_eq_outputOf e ctx explicit s)
    have hrun := (scoped_outputOf_resolveWithin he tag ctx explicit).latchStep s
    rw [← hsame] at hrun
    exact hrun
  | write => exact .of_eq rfl
  | mark => exact .of_eq rfl

end Operation

/-- The state after operations, one after the other. -/
def afterAll (e : Engine) (operations : List Operation) (s : State) : State :=
  operations.foldl (Operation.after e) s

theorem afterAll_append (e : Engine) (operations operations' : List Operation) (s : State) :
    e.afterAll (operations ++ operations') s = e.afterAll operations' (e.afterAll operations s) :=
  List.foldl_append

/-- Once it is set, the latch stays set. -/
theorem started_afterAll (operations : List Operation) {s : State}
    (h : s.uncacheableStarted = true) : (e.afterAll operations s).uncacheableStarted = true := by
  induction operations generalizing s with
  | nil => exact h
  | cons operation operations ih => exact ih ((operation.latchStep e s).kept h)

/-- **All operations**: the latch is set in the end exactly if it was set in the beginning, or an
operation that allows uncacheable tags has left it set. -/
theorem started_afterAll_iff (e : Engine) (operations : List Operation) (s : State) :
    (e.afterAll operations s).uncacheableStarted = true ↔ s.uncacheableStarted = true ∨
      ∃ earlier operation later, operations = earlier ++ operation :: later ∧
        operation.allowsUncacheable = true ∧
        (e.afterAll (earlier ++ [operation]) s).uncacheableStarted = true := by
  constructor
  · intro hset
    induction operations generalizing s with
    | nil => exact .inl hset
    | cons operation operations ih =>
      obtain hfirst | ⟨earlier, other, later, hoperations, hallows, hleft⟩ :=
        ih (operation.after e s) hset
      · exact ((operation.latchStep e s).allowed hfirst).imp_right fun hallows ↦
          ⟨[], operation, operations, rfl, hallows, hfirst⟩
      · exact .inr ⟨operation :: earlier, other, later, congrArg (operation :: ·) hoperations,
          hallows, hleft⟩
  · rintro (hs | ⟨earlier, operation, later, rfl, -, hleft⟩)
    · exact started_afterAll operations hs
    · rw [List.append_cons, afterAll_append]
      exact started_afterAll later hleft

/-- **The latch is exact.** A call on given terms leaves it set exactly if it was set before or the
terms allow uncacheable tags. No call whose terms or context do not allow them touches it, whatever
is resolved inside: not on terms, not for one tag, and not for a tag that the host holds on to. And
so over any operations the latch is never reset, and set only by one that allows uncacheable
tags. -/
theorem latch_exact (e : Engine) :
    (∀ (s : State) (request : Request) (content : Text),
      (e.processTags request content s).2.uncacheableStarted =
        (s.uncacheableStarted || request.processUncacheable)) ∧
    (∀ (s : State) (ctx : Context), ctx.processUncacheable = false →
      (∀ outer inner,
        (e.processTag ctx outer inner s).2.uncacheableStarted = s.uncacheableStarted) ∧
      ∀ (tag : Tag) explicit,
        (tag.process e ctx explicit s).2.2.uncacheableStarted = s.uncacheableStarted) ∧
    ∀ (s : State) (operations : List Operation),
      (e.afterAll operations s).uncacheableStarted = true ↔ s.uncacheableStarted = true ∨
        ∃ earlier operation later, operations = earlier ++ operation :: later ∧
          operation.allowsUncacheable = true ∧
          (e.afterAll (earlier ++ [operation]) s).uncacheableStarted = true := by
  refine ⟨fun s request content ↦ e.uncacheableStarted_processTags request content s,
    fun s ctx hctx ↦ ⟨fun outer inner ↦ ?_, fun tag explicit ↦ ?_⟩,
    fun s operations ↦ e.started_afterAll_iff operations s⟩
  · exact ((Operation.processTag ctx outer inner).latchStep e s).eq_of_not hctx
  · exact ((Operation.attempt tag ctx explicit).latchStep e s).eq_of_not hctx

/-- An engine with a chunk that holds an uncacheable call with an uncacheable tag in its
argument. -/
def veiled : Engine where
  options := {}
  chunks name :=
    if name = ['a'] then .ok "[[!$b? &x=`[[!+y]]`]]".toList
    else ChunkSource.missing name

/-- Neither of its tags is seen by the latch, whether the chunk is called by a tag or held on to. -/
theorem veiled_latch :
    let ctx := Context.new false true 10
    ctx.processUncacheable = false ∧
      (veiled.processTag ctx "[[$a? &x=`[[!+y]]`]]".toList "$a? &x=`[[!+y]]`".toList
        { store := .empty }).2.uncacheableStarted = false ∧
      ((Tag.new .chunk ['a']).process veiled ctx .empty
        { store := .empty }).2.2.uncacheableStarted = false := by
  have hlatch := (latch_exact veiled).2.1 { store := .empty } (Context.new false true 10) rfl
  exact ⟨rfl, hlatch.1 _ _, hlatch.2 _ _⟩

end Engine

end TagTemplate
