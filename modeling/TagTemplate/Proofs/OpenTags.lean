import Mathlib.Logic.Relation
import TagTemplate.Proofs.PassBudget

/-!
# The tags being resolved

Errors about nesting name tags: the ones that lead to a cycle, and the one that would be too deep.
Whether they tell the truth depends on the contexts in which tags are resolved, which are derived
from one another all through a run: for the tags in arguments, for a tag that is cacheable, and for
the content of a tag.

What a run does is described as activities that trigger one another: a search asks for the tags that
it finds, a call searches the arguments of its tag and then attempts the tag, and an attempt
searches the content of its tag once it has entered it. `Engine.Triggers` follows the run itself,
through the states and with the answers that it comes to. Each of these steps keeps the tags being
resolved distinct and within the limit (`Triggers.sound`), and so they are in all that is reached
(`Reaches.sound`).

A run that ends in an error has reached an attempt that fails of itself (`raises_call`): because a
chunk cannot be loaded, or because the content cannot be entered. In the latter case the error was
made from the context of that attempt, and that is why it is true. In the former case it is what the
source answered: that no chunk is there, or whatever else the source itself came to.
-/

namespace TagTemplate

open Run

/-! ### Contexts derived from contexts -/

/-- The properties that a tag is given in its source. -/
def TagSource.properties (source : TagSource) : Properties :=
  (source.rawProperties.map Properties.parse).getD .empty

/-- The context in which the tag of a source is attempted: uncacheable tags are resolved below it
only if it is one itself. -/
def Context.forSource (ctx : Context) (source : TagSource) : Context :=
  { ctx with processUncacheable := ctx.processUncacheable && source.uncacheable }

/-- The placeholders while the content of the tag is resolved. -/
def Tag.storeWithin (tag : Tag) (store : Store) : Store :=
  match tag.kind with
  | .placeholder => store
  | .chunk => (store.writeProperties tag.properties).1

namespace Run

variable {α β : Type}

/-- What a run answers with the properties of a tag as placeholders. -/
theorem exposing_answer (tag : Tag) (run : Run α) (s : State) :
    (tag.exposing run s).1 = (run { s with store := tag.storeWithin s.store }).1 := by
  cases hkind : tag.kind with
  | placeholder => rw [exposing_of_placeholder hkind, Tag.storeWithin, hkind]
  | chunk => rw [exposing_apply_of_chunk hkind, Tag.storeWithin, hkind]

/-- An error of what a run answers, changed, is one of the run. -/
theorem error_of_map {f : α → β} {result : Except TagError α} {err : TagError}
    (h : result.map f = .error err) : result = .error err := by
  cases result with
  | error err' => cases h; rfl
  | ok a => cases h

theorem error_of_bind_pure {f : α → β} {run : Run α} {s : State} {err : TagError}
    (h : ((run >>= fun a ↦ pure (f a)) s).1 = .error err) : (run s).1 = .error err := by
  rw [bind_pure_comp, map_apply] at h
  exact error_of_map h

end Run

/-! ### Entering a content -/

namespace Engine

/-- **What entering the content of a tag comes to**: an error that says why it must not be entered,
or the context below the tag. -/
theorem enterContent_cases (e : Engine) (ctx : Context) (tag : Text) :
    tag ∈ ctx.resolving ∧ e.enterContent ctx tag = .error (.cyclic tag ctx.resolving) ∨
    (0 < e.nestingLimit ctx ∧ e.nestingLimit ctx ≤ ctx.resolving.length ∧
      e.enterContent ctx tag = .error (.tooDeep tag (e.nestingLimit ctx))) ∨
    (e.nestingLimit ctx = 0 ∧ e.horizon ≤ ctx.resolving.length ∧
      e.enterContent ctx tag = .error (.horizon tag)) ∨
    ∃ below, e.enterContent ctx tag = .ok below ∧ below.resolving = ctx.resolving ++ [tag] ∧
      below.maxNesting = e.nestingLimit ctx ∧
      (0 < e.nestingLimit ctx → ctx.resolving.length < e.nestingLimit ctx) ∧
      below.processUncacheable = ctx.processUncacheable ∧
      below.removeUnprocessed = ctx.removeUnprocessed := by
  rw [enterContent, Context.enter]
  by_cases hmem : tag ∈ ctx.resolving
  · refine .inl ⟨hmem, ?_⟩
    rw [dif_pos hmem]
  · rw [dif_neg hmem]
    by_cases hdeep : 0 < e.nestingLimit ctx ∧ e.nestingLimit ctx ≤ ctx.resolving.length
    · refine .inr (.inl ⟨hdeep.1, hdeep.2, ?_⟩)
      rw [if_pos hdeep]
    · rw [if_neg hdeep]
      dsimp only
      by_cases hhorizon : e.nestingLimit ctx = 0 ∧ e.horizon ≤ ctx.resolving.length
      · refine .inr (.inr (.inl ⟨hhorizon.1, hhorizon.2, ?_⟩))
        rw [if_pos hhorizon]
      · rw [if_neg hhorizon]
        exact .inr (.inr (.inr ⟨_, rfl, rfl, rfl, fun hpos ↦ by omega, rfl, rfl⟩))

/-- A tag that is not being resolved is entered where there is room, and takes one level of it. -/
theorem enterContent_of_room {e : Engine} {ctx : Context} {tag : Text} (hnew : tag ∉ ctx.resolving)
    (hroom : 0 < e.room ctx) :
    ∃ below, e.enterContent ctx tag = .ok below ∧ below.resolving = ctx.resolving ++ [tag] ∧
      e.room below + 1 = e.room ctx ∧ below.processUncacheable = ctx.processUncacheable ∧
      below.removeUnprocessed = ctx.removeUnprocessed := by
  have hlevels : ctx.resolving.length <
      if e.nestingLimit ctx = 0 then e.horizon else e.nestingLimit ctx := by
    rw [room] at hroom
    omega
  obtain ⟨hmem, -⟩ | ⟨hpos, hdeep, -⟩ | ⟨hzero, hdeep, -⟩ | ⟨below, hok, hresolving, hnesting, -,
    hcacheable, hremove⟩ := e.enterContent_cases ctx tag
  · exact absurd hmem hnew
  · rw [if_neg (by omega)] at hlevels
    omega
  · rw [if_pos hzero] at hlevels
    omega
  · refine ⟨below, hok, hresolving, ?_, hcacheable, hremove⟩
    have hlimit : e.nestingLimit below = e.nestingLimit ctx := by
      rw [nestingLimit, hnesting]
      simp only [nestingLimit]
      split <;> simp
    rw [room, room, hlimit, hresolving, List.length_append, List.length_singleton]
    omega

end Engine

/-! ### What a search asks for -/

namespace Search

variable {search : Search} {ctx : Context} {resolve : Text → Run (Option Text)}

/-- Deciding about the tags one after the other comes to resolve a tag, in the state it is then
in. -/
inductive JudgeAsks (search : Search) (ctx : Context) (resolve : Text → Run (Option Text)) :
    List Text → State → Text → State → Prop
  | here {inner : Text} {inners : List Text} {s : State}
    (h : search.triage ctx s.uncacheableStarted inner = .resolve) :
    JudgeAsks search ctx resolve (inner :: inners) s inner s
  | there {inner other : Text} {inners : List Text} {tally tally' : Tally} {s s' s'' : State}
    (h : search.judge ctx inner (resolve inner) tally s = (.ok tally', s'))
    (hlater : JudgeAsks search ctx resolve inners s' other s'') :
    JudgeAsks search ctx resolve (inner :: inners) s other s''

/-- One of the passes over the content comes to resolve a tag. -/
inductive Asks (search : Search) (ctx : Context) (resolve : Text → Run (Option Text)) :
    (further : ℕ) → Text → State → Text → State → Prop
  | inFirst {further : ℕ} {content inner : Text} {s s' : State}
    (h : JudgeAsks search ctx resolve (search.delimiters.tags content) s inner s') :
    Asks search ctx resolve further content s inner s'
  | inLater {further : ℕ} {content content' inner : Text} {count : ℕ} {s s' s'' : State}
    (h : search.pass ctx content (fun inner _ ↦ resolve inner) s = (.ok (content', count), s'))
    (hcount : count ≠ 0) (hlater : Asks search ctx resolve further content' s' inner s'') :
    Asks search ctx resolve (further + 1) content s inner s''

theorem JudgeAsks.mem {inners : List Text} {inner : Text} {s s' : State}
    (h : JudgeAsks search ctx resolve inners s inner s') : inner ∈ inners := by
  induction h with
  | here => exact List.mem_cons_self
  | there _ _ ih => exact List.mem_cons_of_mem _ ih

theorem Asks.mem_of_zero {content inner : Text} {s s' : State}
    (h : Asks search ctx resolve 0 content s inner s') : inner ∈ search.delimiters.tags content := by
  cases h with
  | inFirst h => exact h.mem

/-- What fails while tags are decided about is one of the tags that are asked for. -/
theorem exists_asks_of_judgeAll_error {inners : List Text} {tally : Tally} {s s' : State}
    {err : TagError}
    (h : search.judgeAll ctx inners (fun inner _ ↦ resolve inner) tally s = (.error err, s')) :
    ∃ inner s₁, JudgeAsks search ctx resolve inners s inner s₁ ∧
      (resolve inner s₁).1 = .error err := by
  induction inners generalizing tally s with
  | nil => cases h
  | cons inner inners ih =>
    rw [judgeAll, bind_apply] at h
    rcases hjudge : search.judge ctx inner (resolve inner) tally s with ⟨err' | tally', s₁⟩ <;>
      rw [hjudge] at h
    · cases h
      rw [judge_apply] at hjudge
      cases htriage : search.triage ctx s.uncacheableStarted inner with
      | drop => rw [htriage, carryOut] at hjudge; cases hjudge
      | leave => rw [htriage, carryOut] at hjudge; cases hjudge
      | resolve =>
        rw [htriage, carryOut, map_apply] at hjudge
        refine ⟨inner, s, .here htriage, ?_⟩
        rcases hrun : resolve inner s with ⟨err'' | output, s₂⟩ <;> rw [hrun] at hjudge <;>
          cases hjudge
        rfl
    · obtain ⟨other, s₂, hasks, herror⟩ := ih h
      exact ⟨other, s₂, .there hjudge hasks, herror⟩

/-- A pass that fails has asked for a tag that fails, in the state in which it is asked for. -/
theorem exists_asks_of_pass_error {content : Text} {s : State} {err : TagError}
    (h : (search.pass ctx content (fun inner _ ↦ resolve inner) s).1 = .error err) :
    ∃ inner s₁, JudgeAsks search ctx resolve (search.delimiters.tags content) s inner s₁ ∧
      (resolve inner s₁).1 = .error err := by
  rw [pass, bind_apply] at h
  rcases hall : search.judgeAll ctx (search.delimiters.tags content)
    (fun inner _ ↦ resolve inner) .empty s with ⟨err' | tally, s₁⟩ <;> rw [hall] at h <;> cases h
  exact exists_asks_of_judgeAll_error hall

/-- What fails in a search is one of the tags that it asks for. -/
theorem exists_asks_of_passes_error {further : ℕ} {content : Text} {s : State} {err : TagError}
    (h : (search.passes ctx resolve further content s).1 = .error err) :
    ∃ inner s₁, Asks search ctx resolve further content s inner s₁ ∧
      (resolve inner s₁).1 = .error err := by
  induction further generalizing content s with
  | zero =>
    obtain ⟨inner, s₁, hasks, herror⟩ := exists_asks_of_pass_error h
    exact ⟨inner, s₁, .inFirst hasks, herror⟩
  | succ further ih =>
    rw [passes, bind_apply] at h
    rcases hpass : search.pass ctx content (fun inner _ ↦ resolve inner) s with
      ⟨err' | ⟨content', count⟩, s'⟩ <;> rw [hpass] at h
    · cases h
      obtain ⟨inner, s₁, hasks, herror⟩ :=
        exists_asks_of_pass_error (congrArg Prod.fst hpass)
      exact ⟨inner, s₁, .inFirst hasks, herror⟩
    · dsimp only at h
      by_cases hcount : count = 0
      · rw [if_pos hcount] at h
        cases h
      · rw [if_neg hcount, bind_apply] at h
        rcases hlater : search.passes ctx resolve further content' s' with
          ⟨err' | result, s''⟩ <;> rw [hlater] at h <;> cases h
        obtain ⟨inner, s₁, hasks, herror⟩ := ih (congrArg Prod.fst hlater)
        exact ⟨inner, s₁, .inLater hpass hcount hasks, herror⟩

end Search

/-! ### What triggers what -/

namespace Engine

/-- What an engine is doing at some point of a run. -/
inductive Activity
  /-- It resolves the tags of a content, in one pass and up to `further` more. -/
  | search (search : Search) (ctx : Context) (further : ℕ) (content : Text)
  /-- It resolves a tag, given as it stands and by its inner text. -/
  | call (d : Delimiters) (ctx : Context) (outer inner : Text)
  /-- It attempts a tag with the given properties. -/
  | attempt (tag : Tag) (ctx : Context) (explicit : Properties)

/-- The context of an activity. -/
def Activity.context : Activity → Context
  | search _ ctx _ _ => ctx
  | call _ ctx _ _ => ctx
  | attempt _ ctx _ => ctx

variable {e : Engine}

/-- The content of a tag is loaded and entered: it is not empty, the tag is not done, and the
context below the tag is the given one. -/
structure Enters (e : Engine) (tag : Tag) (ctx : Context) (explicit : Properties) (s : State)
    (content : Text) (below : Context) : Prop where
  not_done : (tag.prepared e s.store explicit).processed = false
  loaded : (tag.prepared e s.store explicit).load e s.store = .ok (some content)
  content_ne_nil : content ≠ []
  entered : e.enterContent ctx tag.text = .ok below

/-- The attempt of a tag ends in an error that no other tag is to blame for: its content cannot be
loaded or cannot be entered. -/
inductive Fails (e : Engine) (tag : Tag) (ctx : Context) : TagError → Prop
  | load {cause : SourceError} (h : e.chunks tag.name = .error cause) :
    Fails e tag ctx cause.val
  | enter {err : TagError} (h : e.enterContent ctx tag.text = .error err) : Fails e tag ctx err

/-- The state in which the content of a tag is resolved: with the properties of a chunk as
placeholders. -/
def stateWithin (e : Engine) (tag : Tag) (explicit : Properties) (s : State) : State :=
  { s with
    store := (tag.prepared e s.store explicit).storeWithin s.store, processingElement := true }

/-- One activity triggers another one, each of them in the state in which it starts. -/
inductive Triggers (e : Engine) : Activity × State → Activity × State → Prop
  | tag {search : Search} {ctx : Context} {further : ℕ} {content inner : Text} {s s' : State}
    (h : search.Asks ctx (e.resolveInner search.delimiters ctx) further content s inner s') :
    Triggers e (.search search ctx further content, s)
      (.call search.delimiters ctx (search.delimiters.wrap inner) inner, s')
  | arguments {d : Delimiters} {ctx : Context} {outer inner : Text} {s : State}
    (h : inner.head? ≠ some '-') :
    Triggers e (.call d ctx outer inner, s)
      (.search ⟨d, outer, []⟩ ctx.forArguments 0 inner, (ctx.announce s).2)
  | attempt {d : Delimiters} {ctx : Context} {outer inner resolved : Text} {count : ℕ}
    {s s' : State} (h : inner.head? ≠ some '-')
    (hargs : (Search.mk d outer []).pass ctx.forArguments inner
      (fun nested _ ↦ e.resolveInner d ctx.forArguments nested) (ctx.announce s).2 =
        (.ok (resolved, count), s'))
    (hallowed : ¬((TagSource.read resolved).uncacheable ∧ ctx.processUncacheable = false)) :
    Triggers e (.call d ctx outer inner, s)
      (.attempt (Tag.ofSource (TagSource.read resolved) (d.wrap resolved))
        (ctx.forSource (TagSource.read resolved)) (TagSource.read resolved).properties, s')
  | content {tag : Tag} {ctx below : Context} {explicit : Properties} {content : Text} {s : State}
    (h : e.Enters tag ctx explicit s content below) :
    Triggers e (.attempt tag ctx explicit, s)
      (.search ⟨e.options.delimiters, tag.text, []⟩ below (below.maxDepth - 1) content,
        (below.announce (e.stateWithin tag explicit s)).2)

/-- What is triggered in the end. -/
abbrev Reaches (e : Engine) : Activity × State → Activity × State → Prop :=
  Relation.ReflTransGen e.Triggers

/-! ### The tags being resolved stay distinct and within the limit -/

/-- The tags are distinct, and no more than the limit allows, if there is one. -/
def WithinLimit (e : Engine) (tags : List Text) : Prop :=
  tags.Nodup ∧ (0 < e.options.maxNesting → tags.length ≤ e.options.maxNesting)

/-- A context that has the limit of the options and keeps to it. -/
structure Sound (e : Engine) (ctx : Context) : Prop where
  maxNesting_eq : ctx.maxNesting = e.options.maxNesting
  withinLimit : e.WithinLimit ctx.resolving

/-- A context that callers start from is sound, for nothing is being resolved. -/
theorem sound_context (e : Engine) (processUncacheable removeUnprocessed : Bool) (maxDepth : ℕ) :
    e.Sound (e.context processUncacheable removeUnprocessed maxDepth) :=
  ⟨rfl, List.nodup_nil, fun _ ↦ Nat.zero_le _⟩

/-- In a sound context the limit is that of the options. -/
theorem Sound.nestingLimit_eq {ctx : Context} (h : e.Sound ctx) :
    e.nestingLimit ctx = e.options.maxNesting := by
  rw [nestingLimit, h.maxNesting_eq, ite_self]

/-- The context below a tag is sound if the one above is. -/
theorem Sound.below {ctx below : Context} {tag : Text} (h : e.Sound ctx)
    (hbelow : e.enterContent ctx tag = .ok below) : e.Sound below := by
  have hlimit := h.nestingLimit_eq
  obtain ⟨-, herr⟩ | ⟨-, -, herr⟩ | ⟨-, -, herr⟩ | ⟨below', hok, hresolving, hnesting, hroom, -⟩ :=
    e.enterContent_cases ctx tag
  · rw [hbelow] at herr; cases herr
  · rw [hbelow] at herr; cases herr
  · rw [hbelow] at herr; cases herr
  · obtain rfl : below = below' := Except.ok.inj (hbelow.symm.trans hok)
    rw [hlimit] at hroom
    refine ⟨hnesting.trans hlimit, below.distinct, fun hpos ↦ ?_⟩
    rw [hresolving, List.length_append, List.length_singleton]
    exact hroom hpos

/-- **One step.** An activity in a sound context triggers activities in sound contexts. -/
theorem Triggers.sound {a b : Activity × State} (h : e.Triggers a b)
    (ha : e.Sound a.1.context) : e.Sound b.1.context := by
  cases h with
  | tag => exact ha
  | arguments => exact ⟨ha.maxNesting_eq, ha.withinLimit⟩
  | attempt => exact ⟨ha.maxNesting_eq, ha.withinLimit⟩
  | content h => exact ha.below h.entered

/-- **The whole run.** All that is reached from an activity in a sound context is in one. -/
theorem Reaches.sound {a b : Activity × State} (h : e.Reaches a b) (ha : e.Sound a.1.context) :
    e.Sound b.1.context := by
  induction h with
  | refl => exact ha
  | tail _ hstep ih => exact hstep.sound ih

/-! ### Where errors come from -/

/-- An attempt that fails of itself is reached. -/
def Raises (e : Engine) (a : Activity × State) (err : TagError) : Prop :=
  ∃ tag ctx explicit s, e.Reaches a (.attempt tag ctx explicit, s) ∧ e.Fails tag ctx err

/-- What is raised further on is raised from here. -/
theorem Raises.of_triggers {a b : Activity × State} {err : TagError} (h : e.Triggers a b)
    (hb : e.Raises b err) : e.Raises a err := by
  obtain ⟨tag, ctx, explicit, s, hreach, hfails⟩ := hb
  exact ⟨tag, ctx, explicit, s, .head h hreach, hfails⟩

/-- A search that fails raises its error in one of its calls. -/
theorem raises_search {search : Search} {ctx : Context} {further : ℕ} {content : Text} {s : State}
    {err : TagError}
    (hcalls : ∀ inner s', search.Asks ctx (e.resolveInner search.delimiters ctx) further content s
        inner s' → (e.resolveInner search.delimiters ctx inner s').1 = .error err →
      e.Raises (.call search.delimiters ctx (search.delimiters.wrap inner) inner, s') err)
    (h : (search.passes ctx (e.resolveInner search.delimiters ctx) further content s).1 =
      .error err) :
    e.Raises (.search search ctx further content, s) err := by
  obtain ⟨inner, s', hasks, herror⟩ := Search.exists_asks_of_passes_error h
  exact .of_triggers (.tag hasks) (hcalls inner s' hasks herror)

/-- The resolution of a content fails in the passes over it. -/
theorem passes_error_of_resolveWithin {selfTag : Text} {ctx : Context}
    {resolve : Text → Run (Option Text)} {content : Text} {s : State} {err : TagError}
    (h : (e.resolveWithin selfTag ctx resolve content s).1 = .error err) :
    ((Search.mk e.options.delimiters selfTag []).passes ctx resolve (ctx.maxDepth - 1) content
      (ctx.announce s).2).1 = .error err := by
  rw [resolveWithin, bind_apply, announce_apply] at h
  rw [announce_apply]
  dsimp only at h
  rw [bind_apply] at h
  rcases hpasses : (Search.mk e.options.delimiters selfTag []).passes ctx resolve (ctx.maxDepth - 1)
    content { s with uncacheableStarted := s.uncacheableStarted || ctx.processUncacheable } with
    ⟨err' | result, s'⟩ <;> rw [hpasses] at h <;> cases h
  rfl

/-- An attempt that fails does so of itself, or in the search of the content that it entered. -/
theorem fails_or_search_error {tag : Tag} {ctx : Context} {explicit : Properties} {s : State}
    {err : TagError}
    (h : (tag.outputOf e ctx explicit (fun below _ ↦ e.resolveWithin tag.text below
      (e.resolveInner e.options.delimiters below)) s).1 = .error err) :
    e.Fails tag ctx err ∨ ∃ content below, e.Enters tag ctx explicit s content below ∧
      ((Search.mk e.options.delimiters tag.text []).passes below
        (e.resolveInner e.options.delimiters below) (below.maxDepth - 1) content
        (below.announce (e.stateWithin tag explicit s)).2).1 = .error err := by
  rw [tag.outputOf_apply e ctx explicit fun below ↦ e.resolveWithin tag.text below
    (e.resolveInner e.options.delimiters below)] at h
  cases hdone : (tag.prepared e s.store explicit).processed with
  | true =>
    rw [Tag.produce.eq_def, hdone] at h
    cases h
  | false =>
    rw [Tag.produce.eq_def, hdone] at h
    cases hload : (tag.prepared e s.store explicit).load e s.store with
    | error err' =>
      -- The content cannot be loaded.
      obtain ⟨cause, hchunk, rfl⟩ := Tag.load_error hload
      rw [hload] at h
      cases h
      exact .inl (.load hchunk)
    | ok loaded =>
      rw [hload] at h
      change (((tag.prepared e s.store explicit).filtered <$> _ : Run _) _).1 = _ at h
      rw [map_apply] at h
      -- No content, or an empty one, is nothing to fail in.
      rcases loaded with - | - | ⟨c, content⟩
      · cases h
      · cases h
      · -- A content is entered or refused.
        cases hentered : e.enterContent ctx tag.text with
        | error err' =>
          rw [hentered] at h
          cases h
          exact .inl (.enter hentered)
        | ok below =>
          refine .inr ⟨c :: content, below, ⟨hdone, hload, List.cons_ne_nil _ _, hentered⟩, ?_⟩
          rw [hentered] at h
          -- Once entered, it is its search that fails.
          refine passes_error_of_resolveWithin ?_
          have hexposed := error_of_map h
          change ((Tag.exposing _ (some <$> _ : Run _)) _).1 = _ at hexposed
          rw [exposing_answer, map_apply] at hexposed
          exact error_of_map hexposed

/-- An attempt that fails raises its error, if the calls for the tags of its content do. -/
theorem raises_attempt {tag : Tag} {ctx : Context} {explicit : Properties} {s : State}
    {err : TagError}
    (hcalls : ∀ below, e.enterContent ctx tag.text = .ok below → ∀ inner s',
      (e.resolveInner e.options.delimiters below inner s').1 = .error err →
        e.Raises (.call e.options.delimiters below (e.options.delimiters.wrap inner) inner, s') err)
    (h : (tag.outputOf e ctx explicit (fun below _ ↦ e.resolveWithin tag.text below
      (e.resolveInner e.options.delimiters below)) s).1 = .error err) :
    e.Raises (.attempt tag ctx explicit, s) err := by
  obtain hfails | ⟨content, below, henters, hsearch⟩ := fails_or_search_error h
  · exact ⟨tag, ctx, explicit, s, .refl, hfails⟩
  · exact .of_triggers (.content henters)
      (raises_search (fun inner s' _ ↦ hcalls below henters.entered inner s') hsearch)

/-- A call that fails does so in the search of the arguments, or in the attempt of the tag. -/
theorem args_error_or_attempt_error {d : Delimiters} {ctx : Context} {outer inner : Text}
    {s : State} {err : TagError} (h : (e.resolve d ctx outer inner s).1 = .error err) :
    let args := (Search.mk d outer []).pass ctx.forArguments inner
      fun nested _ ↦ e.resolveInner d ctx.forArguments nested
    inner.head? ≠ some '-' ∧ ((args (ctx.announce s).2).1 = .error err ∨
      ∃ resolved count s', args (ctx.announce s).2 = (.ok (resolved, count), s') ∧
        ¬((TagSource.read resolved).uncacheable ∧ ctx.processUncacheable = false) ∧
        let tag := Tag.ofSource (TagSource.read resolved) (d.wrap resolved)
        (tag.outputOf e (ctx.forSource (TagSource.read resolved))
          (TagSource.read resolved).properties (fun below _ ↦ e.resolveWithin tag.text below
            (e.resolveInner e.options.delimiters below)) s').1 = .error err) := by
  intro args
  rw [resolve_eq_resolveOnce, resolveOnce] at h
  by_cases hcomment : inner.head? = some '-'
  · rw [if_pos hcomment] at h
    cases h
  · -- The search of the arguments comes first.
    refine ⟨hcomment, ?_⟩
    rw [if_neg hcomment, bind_apply, announce_apply] at h
    change ((args >>= _ : Run _) _).1 = _ at h
    rw [bind_apply] at h
    rw [announce_apply]
    rcases hargs : args { s with
      uncacheableStarted := s.uncacheableStarted || ctx.processUncacheable } with
      ⟨err' | ⟨resolved, count⟩, s'⟩ <;> rw [hargs] at h
    · -- It fails itself.
      cases h
      exact .inl rfl
    · -- It answers, and the attempt fails.
      refine .inr ⟨resolved, count, s', rfl, ?_⟩
      dsimp only at h
      split at h
      · cases h
      · rename_i hallowed
        exact ⟨hallowed, error_of_bind_pure h⟩

/-- **A call that fails has reached an attempt that fails of itself**, by induction on the calls
that it makes. -/
theorem raises_call (d : Delimiters) (ctx : Context) (outer inner : Text) {s : State}
    {err : TagError} (h : (e.resolve d ctx outer inner s).1 = .error err) :
    e.Raises (.call d ctx outer inner, s) err := by
  induction d, ctx, outer, inner using Engine.resolve.induct e generalizing s with
  | case1 d ctx outer inner hcomment => exact absurd hcomment (args_error_or_attempt_error h).1
  | case2 d ctx outer inner hcomment hargs hcontent =>
    obtain ⟨-, herror | ⟨resolved, count, s', hpass, hallowed, herror⟩⟩ :=
      args_error_or_attempt_error h
    · have hcalls (nested : Text) (s' : State)
          (hasks : Search.Asks ⟨d, outer, []⟩ ctx.forArguments
            (e.resolveInner d ctx.forArguments) 0 inner (ctx.announce s).2 nested s')
          (hrun : (e.resolveInner d ctx.forArguments nested s').1 = .error err) :
          e.Raises (.call d ctx.forArguments (d.wrap nested) nested, s') err :=
        hargs nested hasks.mem_of_zero hrun
      exact .of_triggers (.arguments hcomment) (raises_search hcalls herror)
    · refine .of_triggers (.attempt hcomment hpass hallowed) (raises_attempt ?_ herror)
      intro below hbelow nested s'' hrun
      exact hcontent resolved below hbelow nested hrun

end Engine

/-! ### What callers are told -/

/-- What an error says about the tags being resolved is true: a cycle leads back to a tag that is
being resolved, and what is too deep is too deep for the limit of the options. -/
def TagError.Truthful (e : Engine) : TagError → Prop
  | chunk _ => True
  | cyclic tag via => via ≠ [] ∧ tag ∈ via ∧ e.WithinLimit via
  | tooDeep _ limit => limit = e.options.maxNesting ∧ 0 < limit
  | horizon _ => e.options.maxNesting = 0

/-- The error is what the source answers to some name. -/
def ChunkSource.Answers (source : ChunkSource) (err : TagError) : Prop :=
  ∃ name cause, source name = .error cause ∧ cause.val = err

/-- What a source that only fetches texts answers says nothing about tags being resolved. -/
theorem ChunkSource.Answers.truthful {e : Engine} {err : TagError} (h : e.chunks.Answers err)
    (hsource : e.chunks.OnlyFetches) : err.Truthful e := by
  obtain ⟨name, cause, hcause, rfl⟩ := h
  obtain ⟨reason, rfl⟩ := hsource name cause hcause
  trivial

namespace Engine

variable {e : Engine}

/-- An attempt that fails of itself passes on what the source answered, or it tells the truth. -/
theorem Fails.truthful_or_answers {tag : Tag} {ctx : Context} {err : TagError}
    (h : e.Fails tag ctx err) (hctx : e.Sound ctx) : err.Truthful e ∨ e.chunks.Answers err := by
  have hlimit := hctx.nestingLimit_eq
  cases h with
  | load h => exact .inr ⟨_, _, h, rfl⟩
  | enter h =>
    refine .inl ?_
    obtain ⟨hmem, herr⟩ | ⟨hpos, -, herr⟩ | ⟨hzero, -, herr⟩ | ⟨below, hok, -⟩ :=
      e.enterContent_cases ctx tag.text
    · obtain rfl := Except.error.inj (h.symm.trans herr)
      exact ⟨List.ne_nil_of_mem hmem, hmem, hctx.withinLimit⟩
    · obtain rfl := Except.error.inj (h.symm.trans herr)
      exact ⟨hlimit, hpos⟩
    · obtain rfl := Except.error.inj (h.symm.trans herr)
      exact hlimit.symm.trans hzero
    · cases h.symm.trans hok

/-- The activity that resolving the tags of a content starts with. -/
def startTags (e : Engine) (request : Request) (content : Text) (s : State) : Activity × State :=
  (.search (e.search request) (e.contextOf request) (request.maxDepth - 1) content,
    ((e.contextOf request).announce s).2)

/-- The activity that resolving a chunk starts with. -/
def startChunk (e : Engine) (name : Text) (properties : Properties) (s : State) :
    Activity × State :=
  let ctx := e.context true false e.options.maxIterations
  (.attempt (Tag.new .chunk name) ctx properties, (ctx.announce s).2)

/-- A run tells the truth about nesting. What the source answers is passed on as it is; a source
that resolves tags of its own may speak of tags and limits that the engine knows nothing of. -/
structure TellsNesting {α : Type} (e : Engine) (start : Activity × State)
    (result : Except TagError α) : Prop where
  /-- Every error is raised in an attempt that is reached, and it is true unless the source gave it
  as its answer. -/
  error : ∀ err, result = .error err →
    e.Raises start err ∧ (err.Truthful e ∨ e.chunks.Answers err)
  /-- Where the source only fetches texts, every error is true. -/
  truthful : e.chunks.OnlyFetches → ∀ err, result = .error err → err.Truthful e
  /-- Wherever the content of a tag is entered, the tags being resolved are those above it and the
  tag; they are distinct and within the limit. -/
  entered : ∀ tag ctx explicit s content below, e.Reaches start (.attempt tag ctx explicit, s) →
    e.Enters tag ctx explicit s content below →
      below.resolving = ctx.resolving ++ [tag.text] ∧ e.WithinLimit below.resolving

/-- A run that starts in a sound context and raises its errors tells the truth about nesting. -/
theorem tellsNesting_of_raises {α : Type} {start : Activity × State} {result : Except TagError α}
    (hstart : e.Sound start.1.context)
    (h : ∀ err, result = .error err → e.Raises start err) : e.TellsNesting start result := by
  have herror (err : TagError) (herr : result = .error err) :
      err.Truthful e ∨ e.chunks.Answers err := by
    obtain ⟨tag, ctx, explicit, s, hreach, hfails⟩ := h err herr
    have hctx : e.Sound ctx := hreach.sound hstart
    exact hfails.truthful_or_answers hctx
  refine ⟨fun err herr ↦ ⟨h err herr, herror err herr⟩, fun hsource err herr ↦ ?_,
    fun tag ctx explicit s content below hreach henters ↦ ?_⟩
  · exact (herror err herr).elim id (·.truthful hsource)
  · have hctx : e.Sound ctx := hreach.sound hstart
    obtain ⟨-, herr⟩ | ⟨-, -, herr⟩ | ⟨-, -, herr⟩ | ⟨below', hok, hresolving, -⟩ :=
      e.enterContent_cases ctx tag.text
    · cases henters.entered.symm.trans herr
    · cases henters.entered.symm.trans herr
    · cases henters.entered.symm.trans herr
    · obtain rfl : below = below' := Except.ok.inj (henters.entered.symm.trans hok)
      exact ⟨hresolving, (hctx.below henters.entered).withinLimit⟩

/-- What one run tells is told by a run that fails only where that one does. -/
theorem TellsNesting.of_error {α β : Type} {start : Activity × State} {result : Except TagError α}
    {result' : Except TagError β} (h : e.TellsNesting start result)
    (herror : ∀ err, result' = .error err → result = .error err) :
    e.TellsNesting start result' where
  error err herr := h.error err (herror err herr)
  truthful hsource err herr := h.truthful hsource err (herror err herr)
  entered := h.entered

theorem tellsNesting_processTags (e : Engine) (request : Request) (content : Text) (s : State) :
    e.TellsNesting (e.startTags request content s) (e.processTags request content s).1 := by
  refine tellsNesting_of_raises (e.sound_context _ _ _) fun err herr ↦ ?_
  have hsearch := congrArg Prod.fst (processTags_apply e request request.maxDepth content s)
  exact raises_search (fun inner s' _ hrun ↦ raises_call _ _ _ inner hrun)
    (hsearch.symm.trans herr)

theorem tellsNesting_chunk (e : Engine) (name : Text) (properties : Properties) (s : State) :
    e.TellsNesting (e.startChunk name properties s) (e.chunk name properties s).1 := by
  let ctx := e.context true false e.options.maxIterations
  refine tellsNesting_of_raises (e.sound_context _ _ _) fun err herr ↦ ?_
  rw [chunk, bind_apply, announce_apply] at herr
  refine raises_attempt (fun below _ inner s' hrun ↦ raises_call _ _ _ inner hrun) ?_
  rw [announce_apply]
  exact error_of_bind_pure herr

/-- **Errors about nesting tell the truth**, in every run of an engine whose source only fetches
texts; what another source answers is passed on as it is, and all other errors are true for such a
source too. A cycle is reported with the tags being resolved, which are distinct, within the limit
and lead back to the tag in question; what is too deep is too deep for the limit of the options,
which is not zero. And wherever the content of a tag is entered, whatever the source is, the tags
being resolved are distinct and within that limit. -/
theorem nesting_errors_truthful (e : Engine) (s : State) :
    (∀ content, e.TellsNesting
      (e.startTags { processUncacheable := true, maxDepth := e.options.maxIterations } content s)
      (e.process content s).1) ∧
    (∀ request content,
      e.TellsNesting (e.startTags request content s) (e.processTags request content s).1) ∧
    ∀ name properties,
      e.TellsNesting (e.startChunk name properties s) (e.chunk name properties s).1 := by
  refine ⟨fun content ↦ ?_, (e.tellsNesting_processTags · · s), (e.tellsNesting_chunk · · s)⟩
  exact (e.tellsNesting_processTags _ content s).of_error fun err ↦ error_of_bind_pure

/-- An engine with two chunks in memory that call each other. -/
def mirrors : Engine where
  options := { maxNesting := 3 }
  chunks := .ofDict (.ofList [(['a'], "[[$b]]".toList), (['b'], "[[$a]]".toList)])

/-- What such chunks come to is an error that tells the truth. -/
theorem mirrors_truthful :
    let err : TagError := .cyclic "[[$a]]".toList ["[[$a]]".toList, "[[$b]]".toList]
    mirrors.chunks.OnlyFetches ∧
      (mirrors.process "[[$a]]".toList { store := .empty }).1 = .error err ∧
      err.Truthful mirrors := by
  intro err
  have hsource : mirrors.chunks.OnlyFetches := ChunkSource.onlyFetches_ofDict _
  -- Three calls deep, the first tag is met again.
  have hunfold : mirrors.resolve = mirrors.resolveOnce mirrors.resolve := by
    funext d ctx outer inner
    exact mirrors.resolve_eq_resolveOnce d ctx outer inner
  have herror : (mirrors.process "[[$a]]".toList { store := .empty }).1 = .error err := by
    unfold process processTags resolveInner
    rw [hunfold, hunfold, hunfold]
    decide +kernel
  exact ⟨hsource, herror, ((nesting_errors_truthful mirrors _).1 _).truthful hsource err herror⟩

/-- An engine whose source resolves tags of its own, under another limit. -/
def relay : Engine where
  options := { maxNesting := 3 }
  chunks name := .error ⟨.tooDeep name 5, nofun⟩

example : (relay.chunk ['a'] .empty { store := .empty }).1 = .error (.tooDeep ['a'] 5) := rfl

end Engine

end TagTemplate
