import TagTemplate.Engine.Pass

/-!
# Resolution

To resolve a tag is to resolve the tags in its arguments, to read what has become of it, and to
process the tag that it is: to load its content, to resolve the tags in that, and to run the filters
of its name. The properties of a chunk are placeholders while its content is resolved, and only
then: they are taken back whether that succeeds or fails.

`Engine.resolve` calls itself for the tags in arguments, which are shorter than the tag, and for the
tags in contents, for which there is less room. So it ends for every engine and every content, and
no step count is needed to say so.
-/

namespace TagTemplate

namespace Tag

/-- The tag at the start of an attempt: the properties in effect are known, and its text is
fixed. -/
def prepared (tag : Tag) (e : Engine) (store : Store) (explicit : Properties) : Tag :=
  let stored (key : Text) : Option Text :=
    match e.options.precedence with
    | .storeWins => Store.text? store key
    | .explicitWins => none
  { tag with
    properties := .ofList ((tag.defaults.merge explicit).entries.map fun (key, value) ↦
      (key, (stored key).getD value))
    written := some tag.text }

/-- The content of the tag, if it has any. -/
def load (tag : Tag) (e : Engine) (store : Store) : Except TagError (Option Text) :=
  match tag.kind with
  | .chunk => (e.chunks tag.name).map some |>.mapError (·.val)
  | .placeholder => .ok (e.lookup store tag.name)

/-- The tag at the end of an attempt. It is done when it has an output, or when it had its chance to
get one. -/
def finished (tag : Tag) (output : Option Text) (started : Bool) : Tag :=
  { tag with output, processed := tag.processed || output.isSome || started }

/-- Runs with the properties of the tag as placeholders, if it is a chunk, and takes them back. -/
def exposing {α : Type} (tag : Tag) (run : Run α) : Run α :=
  match tag.kind with
  | .placeholder => run
  | .chunk => fun s ↦
    let (store, scope) := s.store.writeProperties tag.properties
    let (result, s') := run { s with store }
    (result, { s' with store := s'.store.restore scope })

/-- What becomes of the content of the tag; an empty content stays empty. The parameter resolves the
tags in a content, one level deeper. -/
def resolveContent (tag : Tag) (e : Engine) (ctx : Context)
    (body : (inner : Context) → e.enterContent ctx tag.text = .ok inner → Text → Run Text) :
    Option Text → Run (Option Text)
  | none => return none
  | some [] => return some []
  | some content =>
    match h : e.enterContent ctx tag.text with
    | .error err => throw err
    | .ok inner => tag.exposing (some <$> body inner h content)

/-- One attempt to resolve the tag with the given properties. It answers the output and the tag
after the attempt; a tag that is done answers its output again. -/
def attempt (tag : Tag) (e : Engine) (ctx : Context) (explicit : Properties)
    (body : (inner : Context) → e.enterContent ctx tag.text = .ok inner → Text → Run Text)
    (s : State) : Except TagError (Option Text) × Tag × State :=
  let s := { s with processingElement := true }
  let tag' := tag.prepared e s.store explicit
  if tag'.processed then (.ok tag'.output, tag', s)
  else
    match tag'.load e s.store with
    | .error err => (.error err, tag', s)
    | .ok content =>
      let tag' := { tag' with content }
      match tag'.resolveContent e ctx body content s with
      | (.error err, s) => (.error err, tag', s)
      | (.ok resolved, s) =>
        let output := tag'.filtered resolved
        (.ok output, tag'.finished output s.uncacheableStarted, s)

/-- The output of one attempt, for a tag that is met once and then dropped. -/
def outputOf (tag : Tag) (e : Engine) (ctx : Context) (explicit : Properties)
    (body : (inner : Context) → e.enterContent ctx tag.text = .ok inner → Text → Run Text) :
    Run (Option Text) := fun s ↦
  let (result, _, s) := tag.attempt e ctx explicit body s
  (result, s)

end Tag

namespace Engine

/-- Resolves the tags in the content of a tag, in as many passes as the context allows. -/
def resolveWithin (e : Engine) (selfTag : Text) (ctx : Context)
    (resolve : Text → Run (Option Text)) (content : Text) : Run Text := do
  ctx.announce
  let search : Search := ⟨e.options.delimiters, selfTag, []⟩
  let (content, _) ← search.passes ctx resolve (ctx.maxDepth - 1) content
  return content

/-- Resolves one tag, given as it stands and by its inner text, with the delimiters it was found
with. There is no answer when a placeholder has no value and no filter supplies one. -/
def resolve (e : Engine) (d : Delimiters) (ctx : Context) (outer inner : Text) :
    Run (Option Text) :=
  if inner.head? = some '-' then return some []
  else do
    ctx.announce
    let search : Search := ⟨d, outer, []⟩
    let (resolved, _) ← search.pass ctx.forArguments inner fun nested _inside ↦
      e.resolve d ctx.forArguments (d.wrap nested) nested
    let rebuilt := d.wrap resolved
    let source := TagSource.read resolved
    if source.uncacheable ∧ ctx.processUncacheable = false then return some rebuilt
    else
      let explicit := (source.rawProperties.map Properties.parse).getD .empty
      -- What a cacheable tag holds must not depend on uncacheable tags.
      let below := { ctx with processUncacheable := ctx.processUncacheable && source.uncacheable }
      let output ← (Tag.ofSource source rebuilt).outputOf e below explicit fun below _entered ↦
        e.resolveWithin rebuilt below fun nested ↦
          e.resolve e.options.delimiters below (e.options.delimiters.wrap nested) nested
      return if output.isNone ∧ rebuilt ≠ outer then some rebuilt else output
termination_by (e.room ctx, inner.length)
decreasing_by
  · exact Prod.Lex.right _ (Delimiters.length_lt_of_mem_tags _inside)
  · have hlt := room_lt_of_enterContent _entered
    exact Prod.Lex.left _ _ hlt

end Engine

end TagTemplate
