import TagTemplate.Chunk.Source
import TagTemplate.Engine.Options
import TagTemplate.Store
import TagTemplate.Tag.Basic
import TagTemplate.Tag.Context

/-!
# Engines and their state

An engine is what stays the same while tags are resolved: options and a chunk source. What changes
is the `State`: the placeholder store, a latch that is set once uncacheable tags are allowed, and a
flag that is set when a tag is processed. A `Run` is a computation on states that can fail; it
leaves a state behind also when it fails.

Tags nest in two ways. A tag in the argument of a tag is shorter than it. A tag in the content of a
tag is resolved one level deeper, and the levels are limited: by the context, by the options, or by
the `horizon` of the engine where neither of them sets a limit. How many levels are left is the
`room` of a context, and it is what makes resolution end.
-/

namespace TagTemplate

/-- What stays the same while tags are resolved. -/
structure Engine where
  options : Options
  chunks : ChunkSource
  /-- The number of levels after which resolution gives up where no limit is set. -/
  horizon : Nat := 4096

/-- What changes while tags are resolved. -/
structure State where
  store : Store
  /-- Whether any resolution so far allowed uncacheable tags. -/
  uncacheableStarted : Bool := false
  /-- Whether a tag was processed since the flag was last cleared. -/
  processingElement : Bool := false

/-- A computation on states that can fail and leaves a state behind in any case. -/
abbrev Run := ExceptT TagError (StateM State)

namespace Engine

/-- The text of a placeholder: stored under the name, or under the site prefix and the name. -/
def lookup (e : Engine) (store : Store) (name : Text) : Option Text :=
  match Store.text? store name with
  | some text => some text
  | none =>
    if e.options.sitePrefix.isEmpty then none
    else Store.text? store (e.options.sitePrefix ++ name)

/-- The limit on nesting in the context, which the options supply if the context has none. -/
def nestingLimit (e : Engine) (ctx : Context) : Nat :=
  if ctx.maxNesting = 0 then e.options.maxNesting else ctx.maxNesting

/-- The number of levels that are left below the context. -/
def room (e : Engine) (ctx : Context) : Nat :=
  (if e.nestingLimit ctx = 0 then e.horizon else e.nestingLimit ctx) - ctx.resolving.length

/-- The context for the content of a tag: one level deeper, with the pass budget of the options. -/
def enterContent (e : Engine) (ctx : Context) (tag : Text) : Except TagError Context :=
  match { ctx with maxNesting := e.nestingLimit ctx }.enter tag with
  | .error err => .error err
  | .ok inner =>
    if e.nestingLimit ctx = 0 ∧ e.horizon ≤ ctx.resolving.length then .error (.horizon tag)
    else .ok { inner with maxDepth := e.options.maxIterations }

/-- One level deeper there is less room. -/
theorem room_lt_of_enterContent {e : Engine} {ctx inner : Context} {tag : Text}
    (h : e.enterContent ctx tag = .ok inner) : e.room inner < e.room ctx := by
  rw [enterContent] at h
  split at h
  · cases h
  · rename_i inner' hinner
    obtain ⟨hresolving, hnesting, hlimit⟩ := Context.resolving_enter hinner
    split at h
    · cases h
    · rename_i hhorizon
      cases h
      have hsame : e.nestingLimit { inner' with maxDepth := e.options.maxIterations } =
          e.nestingLimit ctx := by
        rw [nestingLimit, hnesting]
        simp only [nestingLimit]
        split <;> simp
      rw [room, room, hsame]
      simp only [hresolving, List.length_append, List.length_singleton] at hlimit ⊢
      split <;> omega

end Engine

end TagTemplate
