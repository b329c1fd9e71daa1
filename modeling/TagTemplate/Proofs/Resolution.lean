import Mathlib.Data.Nat.Notation
import TagTemplate.Proofs.Runs

/-!
# Resolution is scoped

The functions of the engine, one after the other, from the decision about one tag up to what callers
ask for: each of them is a scoped run when the runs it is built from are. `Engine.resolve` calls
itself, so for it this is an induction on its calls (`scoped_resolve`); all that happens in one call
is in `Engine.resolveOnce`, where the calls to itself are a parameter.

Two functions are restated before that. `Search.judge` reads the latch and then does what a triage
says (`judge_apply`); a tag reads the store and then produces its output (`outputOf_apply`).
-/

namespace TagTemplate

/-! ### One decision, one attempt, one call -/

/-- What the tally is after a tag was resolved. -/
def Search.noted (search : Search) (ctx : Context) (inner : Text) (tally : Tally) :
    Option Text → Tally
  | some output => tally.record (search.delimiters.wrap inner) output
  | none => if ctx.removeUnprocessed then tally.record (search.delimiters.wrap inner) [] else tally

/-- Does with a tag what was decided. -/
def Search.carryOut (search : Search) (ctx : Context) (inner : Text) (resolve : Run (Option Text))
    (tally : Tally) : Triage → Run Tally
  | .drop => return tally.record (search.delimiters.wrap inner) []
  | .leave => return tally
  | .resolve => search.noted ctx inner tally <$> resolve

/-- To judge a tag is to carry out what the triage says about it in the state at hand. -/
theorem Search.judge_apply (search : Search) (ctx : Context) (inner : Text)
    (resolve : Run (Option Text)) (tally : Tally) (s : State) :
    search.judge ctx inner resolve tally s =
      search.carryOut ctx inner resolve tally (search.triage ctx s.uncacheableStarted inner) s := by
  rw [judge, Run.bind_apply]
  change (match search.triage ctx s.uncacheableStarted inner with
    | .drop => _
    | .leave => _
    | .resolve => _ : Run Tally) s = _
  cases search.triage ctx s.uncacheableStarted inner with
  | drop => rfl
  | leave => rfl
  | resolve =>
    change (resolve >>= _) s = _
    rw [carryOut, Run.map_apply, Run.bind_apply]
    rcases resolve s with ⟨err | _ | output, s'⟩
    · rfl
    · rfl
    · rfl

/-- What becomes of the content of a tag, where it is known what entering it comes to. -/
def Tag.fill (tag : Tag) (entered : Except TagError Context) (body : Context → Text → Run Text) :
    Option Text → Run (Option Text)
  | none => return none
  | some [] => return some []
  | some (c :: content) =>
    match entered with
    | .error err => throw err
    | .ok below => tag.exposing (some <$> body below (c :: content))

/-- What a tag with its properties in effect resolves to, where its content is loaded. -/
def Tag.produce (tag : Tag) (loaded : Except TagError (Option Text))
    (entered : Except TagError Context) (body : Context → Text → Run Text) : Run (Option Text) :=
  if tag.processed then return tag.output
  else
    match loaded with
    | .error err => throw err
    | .ok content => tag.filtered <$> tag.fill entered body content

/-- The body of a content may as well not look at the proof it is given. -/
theorem Tag.resolveContent_eq_fill (tag : Tag) {e : Engine} {ctx : Context}
    {body : (below : Context) → e.enterContent ctx tag.text = .ok below → Text → Run Text}
    {body' : Context → Text → Run Text} (hbody : ∀ below hbelow, body below hbelow = body' below)
    (content : Option Text) :
    tag.resolveContent e ctx body content =
      tag.fill (e.enterContent ctx tag.text) body' content := by
  rcases content with - | - | ⟨c, content⟩
  · rfl
  · rfl
  · unfold resolveContent fill
    dsimp only
    split
    · rename_i herr
      rw [herr]
    · rename_i below hok
      rw [hbody below hok, hok]

/-- One attempt, told by what is loaded and by how the content is entered. -/
theorem Tag.outputOf_apply_of_eq (tag : Tag) {e : Engine} {ctx : Context} (explicit : Properties)
    {body : (below : Context) → e.enterContent ctx tag.text = .ok below → Text → Run Text}
    {body' : Context → Text → Run Text} (hbody : ∀ below hbelow, body below hbelow = body' below)
    (s : State) :
    tag.outputOf e ctx explicit body s =
      (tag.prepared e s.store explicit).produce ((tag.prepared e s.store explicit).load e s.store)
        (e.enterContent ctx tag.text) body' { s with processingElement := true } := by
  simp only [outputOf, attempt, produce]
  split
  · rfl
  · cases (tag.prepared e s.store explicit).load e s.store with
    | error err => rfl
    | ok content =>
      have hfill : ({ tag.prepared e s.store explicit with content } : Tag).resolveContent e ctx
          body content =
          (tag.prepared e s.store explicit).fill (e.enterContent ctx tag.text) body' content :=
        resolveContent_eq_fill { tag.prepared e s.store explicit with content } hbody content
      dsimp only
      rw [Run.map_apply, hfill]
      rcases (tag.prepared e s.store explicit).fill (e.enterContent ctx tag.text) body' content
        { s with processingElement := true } with ⟨err | resolved, s'⟩ <;> rfl

/-- One attempt with a resolution of its content that needs no proof of the entry. -/
theorem Tag.outputOf_apply (tag : Tag) (e : Engine) (ctx : Context) (explicit : Properties)
    (body : Context → Text → Run Text) (s : State) :
    tag.outputOf e ctx explicit (fun below _ ↦ body below) s =
      (tag.prepared e s.store explicit).produce ((tag.prepared e s.store explicit).load e s.store)
        (e.enterContent ctx tag.text) body { s with processingElement := true } := by
  have hbody : ∀ below, e.enterContent ctx tag.text = .ok below → body below = body below :=
    fun _ _ ↦ rfl
  exact tag.outputOf_apply_of_eq explicit hbody s

/-- An attempt depends on the engine for options and chunks, and beyond that, as on the context,
only for what entering the content of the tag comes to. -/
theorem Tag.outputOf_congr {tag : Tag} {e e' : Engine} {ctx ctx' : Context} (explicit : Properties)
    (body : Context → Text → Run Text) (hoptions : e.options = e'.options)
    (hchunks : e.chunks = e'.chunks)
    (h : e.enterContent ctx tag.text = e'.enterContent ctx' tag.text) :
    tag.outputOf e ctx explicit (fun below _ ↦ body below) =
      tag.outputOf e' ctx' explicit (fun below _ ↦ body below) := by
  funext s
  have hprepared : tag.prepared e s.store explicit = tag.prepared e' s.store explicit := by
    rw [prepared, prepared, hoptions]
  have hload : (tag.prepared e' s.store explicit).load e s.store =
      (tag.prepared e' s.store explicit).load e' s.store := by
    rw [load, load, hchunks, Engine.lookup, Engine.lookup, hoptions]
  rw [outputOf_apply, outputOf_apply, hprepared, hload, h]

namespace Engine

/-- What resolves a tag: the delimiters it was found with, the context, the tag as it stands and its
inner text. -/
abbrev Resolver := Delimiters → Context → (outer inner : Text) → Run (Option Text)

/-- One call of the resolution, with `self` in the place of the calls it makes: for the tags in the
arguments of the tag and for the tags in its content. -/
def resolveOnce (e : Engine) (self : Resolver) : Resolver := fun d ctx outer inner ↦
  if inner.head? = some '-' then return some []
  else do
    ctx.announce
    let search : Search := ⟨d, outer, []⟩
    let (resolved, _) ← search.pass ctx.forArguments inner fun nested _ ↦
      self d ctx.forArguments (d.wrap nested) nested
    let rebuilt := d.wrap resolved
    let source := TagSource.read resolved
    if source.uncacheable ∧ ctx.processUncacheable = false then return some rebuilt
    else
      let explicit := (source.rawProperties.map Properties.parse).getD .empty
      let below := { ctx with processUncacheable := ctx.processUncacheable && source.uncacheable }
      let output ← (Tag.ofSource source rebuilt).outputOf e below explicit fun below _ ↦
        e.resolveWithin rebuilt below fun nested ↦
          self e.options.delimiters below (e.options.delimiters.wrap nested) nested
      return if output.isNone ∧ rebuilt ≠ outer then some rebuilt else output

/-- **The recursion equation of the resolution.** -/
theorem resolve_eq_resolveOnce (e : Engine) (d : Delimiters) (ctx : Context) (outer inner : Text) :
    e.resolve d ctx outer inner = e.resolveOnce e.resolve d ctx outer inner := by
  rw [resolve]
  rfl

/-- To enter a content is to enter its tag, below the horizon, with the pass budget of the
options. -/
theorem enterContent_eq (e : Engine) (ctx : Context) (tag : Text) :
    e.enterContent ctx tag =
      (Context.enter { ctx with maxNesting := e.nestingLimit ctx } tag).bind fun below ↦
        if e.nestingLimit ctx = 0 ∧ e.horizon ≤ ctx.resolving.length then .error (.horizon tag)
        else .ok { below with maxDepth := e.options.maxIterations } := by
  rw [enterContent]
  cases Context.enter { ctx with maxNesting := e.nestingLimit ctx } tag <;> rfl

/-- Entering a content does not change whether uncacheable tags are resolved. -/
theorem processUncacheable_enterContent {e : Engine} {ctx below : Context} {tag : Text}
    (h : e.enterContent ctx tag = .ok below) :
    below.processUncacheable = ctx.processUncacheable := by
  rw [enterContent, Context.enter] at h
  split at h
  · cases h
  · rename_i hinner
    split at hinner
    · cases hinner
    · split at hinner
      · cases hinner
      · cases hinner
        split at h
        · cases h
        · cases h
          rfl

/-- The errors that the engine raises of itself are among the allowed ones. -/
structure RaisesOnly (e : Engine) (allowed : TagError → Prop) : Prop where
  /-- Chunks that cannot be loaded. -/
  chunk : ∀ {name : Text} {cause : SourceError},
    e.chunks name = .error cause → allowed cause.val
  /-- Contents that cannot be entered. -/
  content : ∀ {ctx : Context} {tag : Text} {err : TagError},
    e.enterContent ctx tag = .error err → allowed err

/-- Every engine raises errors of some kind. -/
theorem raisesOnly_true (e : Engine) : e.RaisesOnly fun _ ↦ True :=
  ⟨fun _ ↦ trivial, fun _ ↦ trivial⟩

end Engine

/-! ### Step by step -/

section Scoped

open Run

variable {latching : Bool} {allowed : TagError → Prop} {search : Search} {ctx : Context}

/-- To judge a tag keeps to the scope of its resolution. -/
theorem Search.scoped_judge {inner : Text} {resolve : Run (Option Text)}
    (h : Scoped latching allowed resolve) (tally : Tally) :
    Scoped latching allowed (search.judge ctx inner resolve tally) := by
  have heq : search.judge ctx inner resolve tally = fun s ↦
      search.carryOut ctx inner resolve tally (search.triage ctx s.uncacheableStarted inner) s :=
    funext fun s ↦ search.judge_apply ctx inner resolve tally s
  rw [heq]
  refine .readLatch (k := fun started ↦
    search.carryOut ctx inner resolve tally (search.triage ctx started inner)) fun started ↦ ?_
  cases search.triage ctx started inner with
  | drop => exact .pure _
  | leave => exact .pure _
  | resolve => exact h.map

/-- To judge tags keeps to the scope of their resolutions, by induction on the tags. -/
theorem Search.scoped_judgeAll {inners : List Text}
    {resolve : (inner : Text) → inner ∈ inners → Run (Option Text)}
    (h : ∀ inner hinner, Scoped latching allowed (resolve inner hinner)) (tally : Tally) :
    Scoped latching allowed (search.judgeAll ctx inners resolve tally) := by
  induction inners generalizing tally with
  | nil => exact .pure tally
  | cons inner inners ih =>
    exact (scoped_judge (h inner _) tally).bind fun tally ↦ ih (fun inner _ ↦ h inner _) tally

theorem Search.scoped_pass {content : Text}
    {resolve : (inner : Text) → inner ∈ search.delimiters.tags content → Run (Option Text)}
    (h : ∀ inner hinner, Scoped latching allowed (resolve inner hinner)) :
    Scoped latching allowed (search.pass ctx content resolve) :=
  (scoped_judgeAll h _).bind fun _ ↦ .pure _

/-- Passes keep to the scope of the resolutions, by induction on their number. -/
theorem Search.scoped_passes {resolve : Text → Run (Option Text)}
    (h : ∀ inner, Scoped latching allowed (resolve inner)) (further : ℕ) (content : Text) :
    Scoped latching allowed (search.passes ctx resolve further content) := by
  induction further generalizing content with
  | zero => exact scoped_pass fun inner _ ↦ h inner
  | succ further ih =>
    refine (scoped_pass fun inner _ ↦ h inner).bind fun result ↦ ?_
    obtain ⟨content, count⟩ := result
    dsimp only
    split
    · exact .pure _
    · exact (ih content).bind fun _ ↦ .pure _

variable {e : Engine}

/-- The content of a tag is resolved within the scope of the tags in it. -/
theorem Engine.scoped_resolveWithin {selfTag : Text} {resolve : Text → Run (Option Text)}
    (hctx : ctx.processUncacheable = true → latching = true)
    (h : ∀ inner, Scoped latching allowed (resolve inner)) (content : Text) :
    Scoped latching allowed (e.resolveWithin selfTag ctx resolve content) :=
  (Scoped.announce hctx).bind fun _ ↦ (Search.scoped_passes h _ content).bind fun _ ↦ .pure _

/-- What becomes of a content keeps to the scope: its errors are those of the entry and of the
content. -/
theorem Tag.scoped_fill (tag : Tag) {entered : Except TagError Context}
    {body : Context → Text → Run Text} (herror : ∀ err, entered = .error err → allowed err)
    (h : ∀ below, entered = .ok below → ∀ content, Scoped latching allowed (body below content))
    (content : Option Text) : Scoped latching allowed (tag.fill entered body content) := by
  rcases content with - | - | ⟨c, content⟩
  · exact .pure _
  · exact .pure _
  · cases entered with
    | error err => exact .throw (herror err rfl)
    | ok below => exact .exposing tag (h below rfl _).map

/-- Only the source of chunks keeps a content from being loaded. -/
theorem Tag.load_error {tag : Tag} {store : Store} {err : TagError}
    (h : tag.load e store = .error err) : ∃ cause, e.chunks tag.name = .error cause ∧
      err = cause.val := by
  rw [load] at h
  split at h
  · cases hchunk : e.chunks tag.name with
    | error cause =>
      rw [hchunk] at h
      cases h
      exact ⟨cause, rfl, rfl⟩
    | ok text => rw [hchunk] at h; cases h
  · cases h

/-- An attempt keeps to the scope of the resolution of its content. -/
theorem Tag.scoped_outputOf (he : e.RaisesOnly allowed) (tag : Tag) {explicit : Properties}
    {body : Context → Text → Run Text}
    (h : ∀ below, e.enterContent ctx tag.text = .ok below →
      ∀ content, Scoped latching allowed (body below content)) :
    Scoped latching allowed (tag.outputOf e ctx explicit fun below _ ↦ body below) := by
  let produced (store : Store) : Run (Option Text) :=
    (tag.prepared e store explicit).produce ((tag.prepared e store explicit).load e store)
      (e.enterContent ctx tag.text) body
  have heq : tag.outputOf e ctx explicit (fun below _ ↦ body below) = fun s ↦
      produced s.store { s with processingElement := true } :=
    funext fun s ↦ tag.outputOf_apply e ctx explicit body s
  rw [heq]
  refine .readStore (k := fun store s ↦ produced store { s with processingElement := true })
    fun store ↦ .mark ?_
  simp only [produced, produce]
  split
  · exact .pure _
  · split
    · rename_i hload
      obtain ⟨cause, hchunk, rfl⟩ := load_error hload
      exact .throw (he.chunk hchunk)
    · exact (scoped_fill _ (fun _ ↦ he.content) h _).map

/-! ### The whole run -/

/-- **Resolution is scoped**, and it may latch exactly where its context allows uncacheable tags. -/
theorem Engine.scoped_resolve (he : e.RaisesOnly allowed) (d : Delimiters) (ctx : Context)
    (outer inner : Text) :
    Scoped ctx.processUncacheable allowed (e.resolve d ctx outer inner) := by
  induction d, ctx, outer, inner using Engine.resolve.induct e with
  | case1 d ctx outer inner hcomment =>
    rw [resolve, if_pos hcomment]
    exact .pure _
  | case2 d ctx outer inner hcomment hargs hcontent =>
    rw [resolve, if_neg hcomment]
    refine (Scoped.announce id).bind fun _ ↦ (Search.scoped_pass hargs).bind fun result ↦ ?_
    obtain ⟨resolved, _⟩ := result
    dsimp only
    split
    · exact .pure _
    · refine (Tag.scoped_outputOf he _ fun below hbelow content ↦ ?_).bind fun _ ↦ .pure _
      -- The content resolves uncacheable tags only if this call does.
      have hlatch : below.processUncacheable = true → ctx.processUncacheable = true := by
        rw [processUncacheable_enterContent hbelow]
        simp +contextual
      exact scoped_resolveWithin hlatch
        (fun nested ↦ (hcontent resolved below hbelow nested).weaken hlatch) content

/-! ### What callers ask for -/

namespace Engine

theorem scoped_processTags (he : e.RaisesOnly allowed) (request : Request) (content : Text) :
    Scoped request.processUncacheable allowed (e.processTags request content) := by
  let ctx := e.context request.processUncacheable request.removeUnprocessed request.maxDepth
  have hresolve : ∀ inner, Scoped request.processUncacheable allowed
      (e.resolveInner (e.search request).delimiters ctx inner) :=
    fun inner ↦ scoped_resolve he _ ctx _ inner
  have hannounce : Scoped request.processUncacheable allowed ctx.announce := .announce id
  exact hannounce.bind fun _ ↦ Search.scoped_passes hresolve _ content

theorem scoped_process (he : e.RaisesOnly allowed) (content : Text) :
    Scoped true allowed (e.process content) := by
  let request : Request := { processUncacheable := true, maxDepth := e.options.maxIterations }
  have htags : Scoped true allowed (e.processTags request content) :=
    scoped_processTags he request content
  exact htags.bind fun _ ↦ .pure _

/-- The attempt of a tag that callers hold on to is scoped as well. -/
theorem scoped_outputOf_resolveWithin (he : e.RaisesOnly allowed) (tag : Tag) (ctx : Context)
    (explicit : Properties) :
    Scoped ctx.processUncacheable allowed (tag.outputOf e ctx explicit fun below _ ↦
      e.resolveWithin tag.text below (e.resolveInner e.options.delimiters below)) := by
  refine Tag.scoped_outputOf he tag fun below hbelow content ↦ ?_
  have hlatch : below.processUncacheable = true → ctx.processUncacheable = true := by
    rw [processUncacheable_enterContent hbelow]
    exact id
  exact scoped_resolveWithin hlatch
    (fun inner ↦ (scoped_resolve he _ _ _ inner).weaken hlatch) content

theorem scoped_chunk (he : e.RaisesOnly allowed) (name : Text) (properties : Properties) :
    Scoped true allowed (e.chunk name properties) := by
  let ctx := e.context true false e.options.maxIterations
  have hannounce : Scoped true allowed ctx.announce := .announce fun _ ↦ rfl
  have htag := scoped_outputOf_resolveWithin he (Tag.new .chunk name) ctx properties
  exact hannounce.bind fun _ ↦ htag.bind fun _ ↦ .pure _

end Engine

/-- A tag that callers hold on to answers what a tag met once answers, and leaves the same state. -/
theorem Tag.process_eq_outputOf (tag : Tag) (e : Engine) (ctx : Context) (explicit : Properties)
    (s : State) :
    ((tag.process e ctx explicit s).1, (tag.process e ctx explicit s).2.2) =
      tag.outputOf e ctx explicit (fun below _ ↦
        e.resolveWithin tag.text below (e.resolveInner e.options.delimiters below)) s := rfl

end Scoped

end TagTemplate
