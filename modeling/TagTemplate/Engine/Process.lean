import TagTemplate.Engine.Resolve

/-!
# Processing content

What callers ask of an engine: to resolve the tags in a content on terms given by a `Request`, to
resolve it fully (`Engine.process`), to resolve one tag, to resolve a chunk by name, or to process a
`Tag` that they hold on to.
-/

namespace TagTemplate

/-- The terms on which the tags in a content are resolved. -/
structure Request where
  /-- A tag that is dropped where it occurs. -/
  selfTag : Text := []
  processUncacheable : Bool := false
  removeUnprocessed : Bool := false
  /-- The opening delimiter, if not that of the engine. -/
  opening : Option Text := none
  /-- The closing delimiter, if not that of the engine. -/
  closing : Option Text := none
  /-- The tokens of the tags to be resolved; all, if there is none. -/
  tokens : List Char := []
  /-- The greatest number of passes; zero counts as one. -/
  maxDepth : Nat := 10
deriving DecidableEq, Repr

namespace Engine

/-- The context of a resolution that is below no tag, with the limit of the options. -/
def context (e : Engine) (processUncacheable removeUnprocessed : Bool) (maxDepth : Nat) : Context :=
  { Context.new processUncacheable removeUnprocessed maxDepth with
    maxNesting := e.options.maxNesting }

/-- What a request looks for. -/
def search (e : Engine) (request : Request) : Search :=
  ⟨⟨request.opening.getD e.options.delimiters.opening,
    request.closing.getD e.options.delimiters.closing⟩, request.selfTag, request.tokens⟩

/-- Resolves a tag of the content below the context, given by its inner text. -/
def resolveInner (e : Engine) (d : Delimiters) (ctx : Context) (inner : Text) : Run (Option Text) :=
  e.resolve d ctx (d.wrap inner) inner

/-- Resolves the tags in the content. Answers the new content and the number of tags whose output
differed from their text, over all passes. -/
def processTags (e : Engine) (request : Request) (content : Text) : Run (Text × Nat) := do
  let search := e.search request
  let ctx := e.context request.processUncacheable request.removeUnprocessed request.maxDepth
  ctx.announce
  search.passes ctx (e.resolveInner search.delimiters ctx) (ctx.maxDepth - 1) content

/-- Resolves the content fully: uncacheable tags as well, and what stays unresolved stays in
place. -/
def process (e : Engine) (content : Text) : Run Text := do
  let (content, _) ← e.processTags
    { processUncacheable := true, maxDepth := e.options.maxIterations } content
  return content

/-- Resolves one tag, given as it stands and by its inner text. -/
def processTag (e : Engine) (ctx : Context) (outer inner : Text) : Run (Option Text) :=
  e.resolve e.options.delimiters ctx outer inner

end Engine

/-- One attempt to resolve a tag. Answers its output, the tag after the attempt and the state. -/
def Tag.process (tag : Tag) (e : Engine) (ctx : Context) (explicit : Properties) (s : State) :
    Except TagError (Option Text) × Tag × State :=
  let body (below : Context) := e.resolveWithin tag.text below
    (e.resolveInner e.options.delimiters below)
  tag.attempt e ctx explicit (fun below _ ↦ body below) s

/-- Resolves a chunk by name, with the given properties as placeholders. -/
def Engine.chunk (e : Engine) (name : Text) (properties : Properties) : Run Text := do
  let ctx := e.context true false e.options.maxIterations
  ctx.announce
  let output ← (Tag.new .chunk name).outputOf e ctx properties fun below _ ↦
    e.resolveWithin (Tag.new .chunk name).text below (e.resolveInner e.options.delimiters below)
  return output.getD []

end TagTemplate
