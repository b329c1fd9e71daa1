import TagTemplate.Proofs.Resolution

/-!
# Resolution and the placeholder store

The store is shared by everything that is resolved in one engine, and the properties of every chunk
are written into it. Still no resolution is seen in the store afterwards: each write is taken back
where it was made (`Store.restore_writeProperties`), in the success of the content as in its
failure, so that an error that escapes through many chunks finds every scope closed.
-/

namespace TagTemplate.Engine

/-- **Whatever callers ask of an engine, the store stays as it was**: to resolve a content fully or
on any terms, to resolve one tag, to resolve a chunk, or to process a tag that they hold on to; in
any context, from any state, and whether it succeeds or fails. -/
theorem store_unchanged (e : Engine) (s : State) :
    (∀ content, (e.process content s).2.store = s.store) ∧
    (∀ request content, (e.processTags request content s).2.store = s.store) ∧
    (∀ ctx outer inner, (e.processTag ctx outer inner s).2.store = s.store) ∧
    (∀ name properties, (e.chunk name properties s).2.store = s.store) ∧
    (∀ (tag : Tag) ctx explicit, (tag.process e ctx explicit s).2.2.store = s.store) := by
  have he := e.raisesOnly_true
  refine ⟨fun content ↦ ?_, fun request content ↦ ?_, fun ctx outer inner ↦ ?_,
    fun name properties ↦ ?_, fun tag ctx explicit ↦ ?_⟩
  · exact (scoped_process he content).store_eq s
  · exact (scoped_processTags he request content).store_eq s
  · exact (scoped_resolve he e.options.delimiters ctx outer inner).store_eq s
  · exact (scoped_chunk he name properties).store_eq s
  · have hsame := congrArg (·.2.store) (tag.process_eq_outputOf e ctx explicit s)
    exact hsame.trans ((scoped_outputOf_resolveWithin he tag ctx explicit).store_eq s)

end TagTemplate.Engine
