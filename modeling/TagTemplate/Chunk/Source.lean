import TagTemplate.Dict
import TagTemplate.Tag.Error

/-!
# Chunks

A chunk is a named fragment of template text. Where the texts come from is left open: a
`ChunkSource` answers a name with a text, or says why it has none. It may say so with any error of
resolution, for a source can resolve tags of its own before it answers; a source that only fetches
texts says nothing but that a chunk is missing or unreadable. A source in memory is a dictionary of
texts; `Chunk.Folder` reads files.
-/

namespace TagTemplate

/-- What a source can answer in the place of a text: any error but the one that speaks of the
horizon of an engine. -/
abbrev SourceError := { err : TagError // ∀ tag, err ≠ .horizon tag }

/-- The answer that a chunk has no text. -/
def SourceError.chunk (cause : ChunkError) : SourceError := ⟨.chunk cause, TagError.chunk_ne_horizon cause⟩

/-- What answers the names of chunks. -/
abbrev ChunkSource := Text → Except SourceError Text

namespace ChunkSource

/-- The source only fetches texts: when it has none, it is for a reason that chunks have. -/
def OnlyFetches (source : ChunkSource) : Prop :=
  ∀ name err, source name = .error err → ∃ cause, err = .chunk cause

/-- Where a chunk in memory is said to be. -/
def memoryPath (name : Text) : Text := "<memory>/".toList ++ name

/-- The answer to a name that there is no chunk in memory for. -/
def missing (name : Text) : Except SourceError Text :=
  .error (.chunk (.notFound name (memoryPath name)))

/-- The source of the chunks in a dictionary. -/
def ofDict (chunks : Dict Text) : ChunkSource := fun name ↦
  match chunks.get? name with
  | some text => .ok text
  | none => missing name

theorem onlyFetches_ofDict (chunks : Dict Text) : (ofDict chunks).OnlyFetches := by
  intro name err h
  rw [ofDict] at h
  split at h
  · cases h
  · cases h
    exact ⟨_, rfl⟩

end ChunkSource

end TagTemplate
