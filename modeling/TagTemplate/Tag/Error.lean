import TagTemplate.Text.Basic

/-!
# Errors of resolution

Few things stop the resolution of a tag; whatever is merely malformed degrades quietly instead. A
chunk may be missing or unreadable, a tag may be reached again while its own content is being
resolved, and tags may nest too deeply.
-/

namespace TagTemplate

/-- Why a chunk has no text. -/
inductive ChunkError
  /-- There is no chunk of the name; the path is where it was looked for. -/
  | notFound (name path : Text)
  /-- The chunk at the path cannot be read as text. -/
  | unreadable (path : Text)
deriving DecidableEq, Repr

/-- The text of a chunk error. -/
def ChunkError.message : ChunkError → Text
  | notFound name path =>
    "chunk not found: ".toList ++ name ++ " (looked for ".toList ++ path ++ [')']
  | unreadable path => "failed to read chunk ".toList ++ path

/-- Why tags cannot be resolved. -/
inductive TagError
  /-- A chunk has no text. -/
  | chunk (cause : ChunkError)
  /-- The tag is being resolved already; `via` are the tags being resolved, outermost first. -/
  | cyclic (tag : Text) (via : List Text)
  /-- The tag would be the first one below the limit. -/
  | tooDeep (tag : Text) (limit : Nat)
  /-- There is no limit, and the tag would be the first one below the horizon of the engine. -/
  | horizon (tag : Text)
deriving DecidableEq, Repr

theorem TagError.chunk_ne_horizon (cause : ChunkError) (tag : Text) :
    chunk cause ≠ horizon tag := nofun

/-- The tags that led to a cycle, as messages list them. -/
def TagError.chain (via : List Text) : Text := Text.join " -> ".toList via

/-- The text of a resolution error. -/
def TagError.message : TagError → Text
  | chunk cause => cause.message
  | cyclic tag via =>
    "cyclic tag reference: ".toList ++ tag ++ " (via ".toList ++ chain via ++ [')']
  | tooDeep tag limit =>
    "tag nesting exceeds ".toList ++ Text.ofNat limit ++ " levels at ".toList ++ tag
  | horizon tag => "tag nesting has no limit and no end in sight at ".toList ++ tag

end TagTemplate
