import TagTemplate.Proofs.Resolution

/-!
# Resolution ends where nesting is limited

The resolution of a tag calls itself for the tags in its arguments and for the tags in its content.
Neither kind of call is bounded by the other: contents may grow from pass to pass and from level to
level, and the tags in arguments are not counted as levels. That every call ends all the same is
said here without any bound that would be fixed beforehand.

`Engine.resolveUpTo` is the resolution with at most `n` calls inside one another; what would be
nested deeper is left to an arbitrary `beyond`. A call *settles* when from some depth on it no
longer matters what `beyond` answers, that is, when its calls are nested to a finite depth
(`Run.Settles`). Since the calls that one call makes itself are finitely many, each in a loop over
a list or a pass budget, settling is what ending means.

The horizon of the engine is a step count, and it is there for engines without a limit only. Where
there is a limit the calls settle at the same depth for every horizon, and no call ever fails for
the horizon (`raisesOnly_of_limit`).
-/

namespace TagTemplate

/-! ### Settling -/

/-- From some depth on, which depends on the state, the approximations do what the run does. The
second argument of the approximations is whatever they may vary in beyond the depth. -/
def Run.Settles {ι α : Type} (approx : ℕ → ι → Run α) (run : Run α) : Prop :=
  ∀ s, ∃ depth, ∀ n, depth ≤ n → ∀ i, approx n i s = run s

namespace Run.Settles

variable {ι α β : Type} {approx : ℕ → ι → Run α} {run : Run α}

theorem const (run : Run α) : Settles (fun _ (_ : ι) ↦ run) run :=
  fun _ ↦ ⟨0, fun _ _ _ ↦ rfl⟩

/-- Whether the depth is counted from zero or from one makes no difference. -/
theorem of_succ (h : Settles (fun n ↦ approx (n + 1)) run) : Settles approx run := by
  intro s
  obtain ⟨depth, hdepth⟩ := h s
  refine ⟨depth + 1, fun n hn i ↦ ?_⟩
  obtain ⟨m, rfl⟩ := Nat.exists_eq_add_of_le' (show 1 ≤ n by omega)
  exact hdepth m (by omega) i

/-- A run that goes on settles if it does so and what follows does, at the greater of the two
depths. -/
theorem bind {approxNext : α → ℕ → ι → Run β} {k : α → Run β} (h : Settles approx run)
    (hk : ∀ a, Settles (approxNext a) (k a)) :
    Settles (fun n i ↦ approx n i >>= fun a ↦ approxNext a n i) (run >>= k) := by
  intro s
  obtain ⟨depth, hdepth⟩ := h s
  rcases hrun : run s with ⟨err | a, s'⟩
  · refine ⟨depth, fun n hn i ↦ ?_⟩
    dsimp only
    rw [bind_apply, bind_apply, hdepth n hn i, hrun]
  · -- The depth of the rest depends on the state that the first run ends in, and on nothing else.
    obtain ⟨depth', hdepth'⟩ := hk a s'
    refine ⟨max depth depth', fun n hn i ↦ ?_⟩
    dsimp only
    rw [bind_apply, bind_apply, hdepth n (by omega) i, hrun]
    exact hdepth' n (by omega) i

theorem map {f : α → β} (h : Settles approx run) :
    Settles (fun n i ↦ f <$> approx n i) (f <$> run) := by
  simp only [← bind_pure_comp]
  exact h.bind fun a ↦ const (Pure.pure (f a))

/-- Properties that are exposed settle with the run that they are exposed to. -/
theorem exposing (tag : Tag) (h : Settles approx run) :
    Settles (fun n i ↦ tag.exposing (approx n i)) (tag.exposing run) := by
  cases hkind : tag.kind with
  | placeholder => simpa only [exposing_of_placeholder hkind] using h
  | chunk =>
    intro s
    obtain ⟨depth, hdepth⟩ := h { s with store := (s.store.writeProperties tag.properties).1 }
    refine ⟨depth, fun n hn i ↦ ?_⟩
    dsimp only
    rw [exposing_apply_of_chunk hkind, exposing_apply_of_chunk hkind]
    dsimp only
    rw [hdepth n hn i]

end Run.Settles

/-! ### One call -/

section Step

open Run

variable {ι : Type} {search : Search} {ctx : Context}

/-- To judge a tag settles with its resolution. -/
theorem Search.settles_judge {inner : Text} {approx : ℕ → ι → Run (Option Text)}
    {resolve : Run (Option Text)} (h : Settles approx resolve) (tally : Tally) :
    Settles (fun n i ↦ search.judge ctx inner (approx n i) tally)
      (search.judge ctx inner resolve tally) := by
  intro s
  simp only [judge_apply]
  cases search.triage ctx s.uncacheableStarted inner with
  | drop => exact Settles.const (return tally.record _ []) s
  | leave => exact Settles.const (return tally) s
  | resolve => exact h.map s

/-- To judge tags settles with their resolutions, by induction on the tags. -/
theorem Search.settles_judgeAll {inners : List Text}
    {approx : ℕ → ι → (inner : Text) → inner ∈ inners → Run (Option Text)}
    {resolve : (inner : Text) → inner ∈ inners → Run (Option Text)}
    (h : ∀ inner hinner, Settles (fun n i ↦ approx n i inner hinner) (resolve inner hinner))
    (tally : Tally) :
    Settles (fun n i ↦ search.judgeAll ctx inners (approx n i) tally)
      (search.judgeAll ctx inners resolve tally) := by
  induction inners generalizing tally with
  | nil => exact Settles.const _
  | cons inner inners ih =>
    exact (settles_judge (h inner _) tally).bind fun tally ↦ ih (fun inner _ ↦ h inner _) tally

theorem Search.settles_pass {content : Text}
    {approx : ℕ → ι → (inner : Text) → inner ∈ search.delimiters.tags content → Run (Option Text)}
    {resolve : (inner : Text) → inner ∈ search.delimiters.tags content → Run (Option Text)}
    (h : ∀ inner hinner, Settles (fun n i ↦ approx n i inner hinner) (resolve inner hinner)) :
    Settles (fun n i ↦ search.pass ctx content (approx n i)) (search.pass ctx content resolve) :=
  (settles_judgeAll h _).bind fun _ ↦ Settles.const _

/-- Passes settle with the resolutions, by induction on their number. -/
theorem Search.settles_passes {approx : ℕ → ι → Text → Run (Option Text)}
    {resolve : Text → Run (Option Text)}
    (h : ∀ inner, Settles (fun n i ↦ approx n i inner) (resolve inner)) (further : ℕ)
    (content : Text) :
    Settles (fun n i ↦ search.passes ctx (approx n i) further content)
      (search.passes ctx resolve further content) := by
  induction further generalizing content with
  | zero => exact settles_pass fun inner _ ↦ h inner
  | succ further ih =>
    refine (settles_pass fun inner _ ↦ h inner).bind fun result ↦ ?_
    obtain ⟨content, count⟩ := result
    dsimp only
    split
    · exact Settles.const _
    · exact (ih content).bind fun _ ↦ Settles.const _

variable {e : Engine}

/-- The content of a tag settles with the resolutions of the tags in it. -/
theorem Engine.settles_resolveWithin {selfTag : Text} {approx : ℕ → ι → Text → Run (Option Text)}
    {resolve : Text → Run (Option Text)}
    (h : ∀ inner, Settles (fun n i ↦ approx n i inner) (resolve inner)) (content : Text) :
    Settles (fun n i ↦ e.resolveWithin selfTag ctx (approx n i) content)
      (e.resolveWithin selfTag ctx resolve content) :=
  (Settles.const _).bind fun _ ↦ (Search.settles_passes h _ content).bind fun _ ↦ Settles.const _

/-- What becomes of a content settles with its resolution one level deeper. -/
theorem Tag.settles_fill (tag : Tag) {entered : Except TagError Context}
    {approx : ℕ → ι → Context → Text → Run Text} {body : Context → Text → Run Text}
    (h : ∀ below, entered = .ok below →
      ∀ content, Settles (fun n i ↦ approx n i below content) (body below content))
    (content : Option Text) :
    Settles (fun n i ↦ tag.fill entered (approx n i) content) (tag.fill entered body content) := by
  rcases content with - | - | ⟨c, content⟩
  · exact Settles.const _
  · exact Settles.const _
  · cases entered with
    | error err => exact Settles.const _
    | ok below => exact (h below rfl _).map.exposing tag

theorem Tag.settles_produce (tag : Tag) {loaded : Except TagError (Option Text)}
    {entered : Except TagError Context} {approx : ℕ → ι → Context → Text → Run Text}
    {body : Context → Text → Run Text}
    (h : ∀ below, entered = .ok below →
      ∀ content, Settles (fun n i ↦ approx n i below content) (body below content)) :
    Settles (fun n i ↦ tag.produce loaded entered (approx n i))
      (tag.produce loaded entered body) := by
  unfold produce
  cases tag.processed with
  | true => exact Settles.const _
  | false =>
    cases loaded with
    | error err => exact Settles.const _
    | ok content => exact (settles_fill tag h content).map

/-- An attempt settles with the resolution of its content. -/
theorem Tag.settles_outputOf (tag : Tag) {explicit : Properties}
    {approx : ℕ → ι → Context → Text → Run Text} {body : Context → Text → Run Text}
    (h : ∀ below, e.enterContent ctx tag.text = .ok below →
      ∀ content, Settles (fun n i ↦ approx n i below content) (body below content)) :
    Settles (fun n i ↦ tag.outputOf e ctx explicit fun below _ ↦ approx n i below)
      (tag.outputOf e ctx explicit fun below _ ↦ body below) := by
  intro s
  simp only [outputOf_apply]
  exact settles_produce (tag.prepared e s.store explicit) h _

namespace Engine

/-- One call settles when the calls it makes do. -/
theorem settles_resolveOnce {approx : ℕ → ι → Resolver} {self : Resolver} {d : Delimiters}
    {outer inner : Text}
    (hargs : ∀ nested ∈ d.tags inner, Settles
      (fun n i ↦ approx n i d ctx.forArguments (d.wrap nested) nested)
      (self d ctx.forArguments (d.wrap nested) nested))
    (hcontent : ∀ latching tag below,
      e.enterContent { ctx with processUncacheable := latching } tag = .ok below → ∀ nested, Settles
        (fun n i ↦
          approx n i e.options.delimiters below (e.options.delimiters.wrap nested) nested)
        (self e.options.delimiters below (e.options.delimiters.wrap nested) nested)) :
    Settles (fun n i ↦ e.resolveOnce (approx n i) d ctx outer inner)
      (e.resolveOnce self d ctx outer inner) := by
  unfold resolveOnce
  split
  · exact Settles.const _
  · refine (Settles.const _).bind fun _ ↦ (Search.settles_pass hargs).bind fun result ↦ ?_
    obtain ⟨resolved, _⟩ := result
    dsimp only
    split
    · exact Settles.const _
    · refine (Tag.settles_outputOf _ fun below hbelow content ↦ ?_).bind fun _ ↦ Settles.const _
      exact settles_resolveWithin (fun nested ↦ hcontent _ _ below hbelow nested) content

end Engine

end Step

/-! ### All calls -/

namespace Engine

/-- Resolution with at most `n` calls inside one another; calls nested deeper are `beyond`. -/
def resolveUpTo (e : Engine) (beyond : Resolver) : ℕ → Resolver
  | 0 => beyond
  | n + 1 => e.resolveOnce (e.resolveUpTo beyond n)

/-- **Every call settles.** The induction is on the levels that are left and, within a level, on the
length of the tag. -/
theorem settles_resolve (e : Engine) (d : Delimiters) (ctx : Context) (outer inner : Text) :
    Run.Settles (fun n beyond ↦ e.resolveUpTo beyond n d ctx outer inner)
      (e.resolve d ctx outer inner) := by
  refine .of_succ ?_
  rw [resolve_eq_resolveOnce]
  refine settles_resolveOnce (fun nested hnested ↦ ?_) fun latching tag below hbelow nested ↦ ?_
  · exact e.settles_resolve d ctx.forArguments (d.wrap nested) nested
  · exact e.settles_resolve _ below _ nested
termination_by (e.room ctx, inner.length)
decreasing_by
  · exact Prod.Lex.right _ (Delimiters.length_lt_of_mem_tags hnested)
  · have hlt := room_lt_of_enterContent hbelow
    exact Prod.Lex.left _ _ hlt

/-! ### The horizon has no part in it -/

variable {e : Engine}

/-- Where the options limit nesting, every context is limited. -/
theorem nestingLimit_ne_zero (h : 0 < e.options.maxNesting) (ctx : Context) :
    e.nestingLimit ctx ≠ 0 := by
  rw [nestingLimit]
  split <;> omega

/-- Where nesting is limited, entering a content is a matter of the limit alone. -/
theorem enterContent_of_limit (h : 0 < e.options.maxNesting) (ctx : Context) (tag : Text) :
    e.enterContent ctx tag =
      (Context.enter { ctx with maxNesting := e.nestingLimit ctx } tag).map fun inner : Context ↦
        { inner with maxDepth := e.options.maxIterations } := by
  rw [enterContent_eq]
  cases Context.enter { ctx with maxNesting := e.nestingLimit ctx } tag with
  | error err => rfl
  | ok inner => exact if_neg fun hzero ↦ nestingLimit_ne_zero h ctx hzero.1

/-- Where nesting is limited, the horizon plays no part in an attempt. -/
theorem outputOf_horizon (h : 0 < e.options.maxNesting) (horizon : ℕ) (tag : Tag) (ctx : Context)
    (explicit : Properties) (body : Context → Text → Run Text) :
    tag.outputOf { e with horizon } ctx explicit (fun below _ ↦ body below) =
      tag.outputOf e ctx explicit (fun below _ ↦ body below) := by
  refine Tag.outputOf_congr explicit body rfl rfl ?_
  calc ({ e with horizon } : Engine).enterContent ctx tag.text
      = (Context.enter { ctx with maxNesting := e.nestingLimit ctx } tag.text).map
          fun inner : Context ↦ { inner with maxDepth := e.options.maxIterations } :=
        enterContent_of_limit (e := { e with horizon }) h ctx tag.text
    _ = e.enterContent ctx tag.text := (enterContent_of_limit h ctx tag.text).symm

/-- Nor does it in one resolution, given how the nested ones go. -/
theorem resolveOnce_horizon (h : 0 < e.options.maxNesting) (horizon : ℕ) (self : Resolver) :
    ({ e with horizon } : Engine).resolveOnce self = e.resolveOnce self := by
  funext d ctx outer inner
  unfold resolveOnce
  simp only [outputOf_horizon h]
  rfl

/-- Nor does it in resolutions that are nested to a given depth. -/
theorem resolveUpTo_horizon (h : 0 < e.options.maxNesting) (horizon : ℕ) (beyond : Resolver)
    (n : ℕ) : ({ e with horizon } : Engine).resolveUpTo beyond n = e.resolveUpTo beyond n := by
  induction n with
  | zero => rfl
  | succ n ih => rw [resolveUpTo, ih, resolveOnce_horizon h, resolveUpTo]

/-- Where nesting is limited, no error is about the horizon. -/
theorem raisesOnly_of_limit (h : 0 < e.options.maxNesting) :
    e.RaisesOnly fun err ↦ ∀ tag, err ≠ .horizon tag where
  chunk {name cause} _ := cause.property
  content {ctx tag err} herr tag' := by
    rintro rfl
    rw [enterContent_of_limit h, Context.enter] at herr
    split at herr
    · cases herr
    · split at herr
      · cases herr
      · cases herr

/-! ### What callers ask for -/

/-- `Engine.processTags` with `self` in the place of the resolution. -/
def processTagsBy (e : Engine) (self : Resolver) (request : Request) (content : Text) :
    Run (Text × ℕ) := do
  let search := e.search request
  let ctx := e.context request.processUncacheable request.removeUnprocessed request.maxDepth
  ctx.announce
  search.passes ctx (fun inner ↦ self search.delimiters ctx (search.delimiters.wrap inner) inner)
    (ctx.maxDepth - 1) content

/-- `Engine.process` with `self` in the place of the resolution. -/
def processBy (e : Engine) (self : Resolver) (content : Text) : Run Text := do
  let (content, _) ← e.processTagsBy self
    { processUncacheable := true, maxDepth := e.options.maxIterations } content
  return content

/-- `Engine.chunk` with `self` in the place of the resolution. -/
def chunkBy (e : Engine) (self : Resolver) (name : Text) (properties : Properties) : Run Text := do
  let ctx := e.context true false e.options.maxIterations
  ctx.announce
  let output ← (Tag.new .chunk name).outputOf e ctx properties fun below _ ↦
    e.resolveWithin (Tag.new .chunk name).text below fun inner ↦
      self e.options.delimiters below (e.options.delimiters.wrap inner) inner
  return output.getD []

/-- What is asked of the engine, stated for any engine and any resolution, ends with the given run:
its calls are nested to a finite depth from every state, under every horizon alike, and the horizon
is never what it fails for. -/
def Ends {α : Type} (e : Engine) (ask : Engine → Resolver → Run α) (run : Run α) : Prop :=
  Run.Settles (fun n (x : ℕ × Resolver) ↦
    ask { e with horizon := x.1 } (({ e with horizon := x.1 } : Engine).resolveUpTo x.2 n)) run ∧
  ∀ s tag, (run s).1 ≠ .error (.horizon tag)

/-- It is enough to settle under the horizon of the engine. -/
theorem Ends.of_settles {α : Type} (h : 0 < e.options.maxNesting)
    {ask : Engine → Resolver → Run α} {run : Run α}
    (hask : ∀ horizon self, ask { e with horizon } self = ask e self)
    (hsettles : Run.Settles (fun n beyond ↦ ask e (e.resolveUpTo beyond n)) run) {latching : Bool}
    (hscoped : Run.Scoped latching (fun err ↦ ∀ tag, err ≠ .horizon tag) run) : e.Ends ask run := by
  refine ⟨fun s ↦ ?_, fun s tag herr ↦ hscoped.allowed_of_error herr tag rfl⟩
  obtain ⟨depth, hdepth⟩ := hsettles s
  refine ⟨depth, fun n hn x ↦ ?_⟩
  dsimp only
  rw [hask, resolveUpTo_horizon h]
  exact hdepth n hn x.2

/-- **Where nesting is limited, whatever callers ask of an engine ends**, for every chunk source,
from every state and for every content. -/
theorem resolution_terminates (e : Engine) (h : 0 < e.options.maxNesting) :
    (∀ content, e.Ends (fun e self ↦ e.processBy self content) (e.process content)) ∧
    (∀ request content,
      e.Ends (fun e self ↦ e.processTagsBy self request content) (e.processTags request content)) ∧
    (∀ ctx outer inner,
      e.Ends (fun e self ↦ self e.options.delimiters ctx outer inner)
        (e.processTag ctx outer inner)) ∧
    (∀ name properties,
      e.Ends (fun e self ↦ e.chunkBy self name properties) (e.chunk name properties)) := by
  have hraises := raisesOnly_of_limit h
  -- A search settles because each call in it does, and no error is about the horizon.
  have htags : ∀ request content, Run.Settles
      (fun n beyond ↦ e.processTagsBy (e.resolveUpTo beyond n) request content)
      (e.processTags request content) := fun request content ↦
    (Run.Settles.const _).bind fun _ ↦
      Search.settles_passes (fun inner ↦ e.settles_resolve _ _ _ inner) _ content
  refine ⟨fun content ↦ ?_, fun request content ↦ ?_, fun ctx outer inner ↦ ?_,
    fun name properties ↦ ?_⟩
  · exact .of_settles h (fun _ _ ↦ rfl) ((htags _ content).bind fun _ ↦ Run.Settles.const _)
      (scoped_process hraises content)
  · exact .of_settles h (fun _ _ ↦ rfl) (htags request content)
      (scoped_processTags hraises request content)
  · exact .of_settles h (fun _ _ ↦ rfl) (e.settles_resolve e.options.delimiters ctx outer inner)
      (scoped_resolve hraises _ ctx outer inner)
  · refine .of_settles h (fun horizon self ↦ ?_) ?_ (scoped_chunk hraises name properties)
    · unfold chunkBy
      simp only [outputOf_horizon h]
      rfl
    · refine (Run.Settles.const _).bind fun _ ↦
        (Tag.settles_outputOf _ fun below _ content ↦ ?_).bind fun _ ↦ Run.Settles.const _
      exact settles_resolveWithin (fun inner ↦ e.settles_resolve _ below _ inner) content

/-- An engine with a chunk that includes itself with a property that grows from level to level. -/
def growing : Engine where
  options := { maxNesting := 8, precedence := .explicitWins }
  chunks name :=
    if name = ['a'] then .ok "[[$a? &d=`[[+d]]x`]]".toList
    else ChunkSource.missing name

/-- The growing chunk ends at its limit. -/
theorem growing_terminates :
    0 < growing.options.maxNesting ∧
      growing.Ends (fun e self ↦ e.processBy self "[[$a? &d=`1`]]".toList)
        (growing.process "[[$a? &d=`1`]]".toList) :=
  ⟨by decide, (resolution_terminates growing (by decide)).1 _⟩

end Engine

end TagTemplate
