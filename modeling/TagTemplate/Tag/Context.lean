import TagTemplate.Tag.Error

/-!
# Contexts

A context says how the tags of one content are resolved: which of them, in how many passes, and
below which tags. Contexts are values; resolving the content of a tag happens in a context derived
by `Context.enter`, which refuses a tag that is being resolved already, and one for which the limit
leaves no level.

The tags being resolved are therefore distinct, and a context carries the proof of it.
-/

namespace TagTemplate

/-- How tags are resolved. -/
structure Context where
  /-- Whether uncacheable tags are resolved. -/
  processUncacheable : Bool
  /-- Whether tags that stay unresolved are removed. -/
  removeUnprocessed : Bool
  /-- The greatest number of passes; zero counts as one. -/
  maxDepth : Nat
  /-- The greatest number of tags resolved inside one another; zero is no limit. -/
  maxNesting : Nat
  /-- The tags whose content is being resolved, outermost first. -/
  resolving : List Text
  distinct : resolving.Nodup

namespace Context

/-- A context below no tag, without a limit on nesting. -/
def new (processUncacheable removeUnprocessed : Bool) (maxDepth : Nat) : Context :=
  ⟨processUncacheable, removeUnprocessed, maxDepth, 0, [], List.nodup_nil⟩

/-- The context below one more tag. -/
def enter (ctx : Context) (tag : Text) : Except TagError Context :=
  if h : tag ∈ ctx.resolving then .error (.cyclic tag ctx.resolving)
  else if 0 < ctx.maxNesting ∧ ctx.maxNesting ≤ ctx.resolving.length then
    .error (.tooDeep tag ctx.maxNesting)
  else .ok { ctx with
    resolving := ctx.resolving ++ [tag]
    distinct := List.nodup_append.2 ⟨ctx.distinct, by simp, fun a ha b hb ↦ by
      rw [List.mem_singleton.1 hb]
      exact fun hab ↦ h (hab ▸ ha)⟩ }

/-- The context for the tags in the arguments of a tag: one pass, and what stays unresolved stays in
place. -/
def forArguments (ctx : Context) : Context :=
  { ctx with removeUnprocessed := false, maxDepth := 0 }

theorem resolving_enter {ctx inner : Context} {tag : Text} (h : ctx.enter tag = .ok inner) :
    inner.resolving = ctx.resolving ++ [tag] ∧ inner.maxNesting = ctx.maxNesting ∧
      (ctx.maxNesting = 0 ∨ ctx.resolving.length < ctx.maxNesting) := by
  rw [enter] at h
  split at h
  · cases h
  · split at h
    · cases h
    · cases h
      exact ⟨rfl, rfl, by omega⟩

end Context

end TagTemplate
