import TagTemplate.Engine.Basic
import TagTemplate.Markup.Scan
import TagTemplate.Text.Replacement

/-!
# Passes

Content is resolved in passes. A pass finds the outermost tags of the content, decides what becomes
of each of them, and then puts all results in place at once. What a tag resolves to may hold tags
again; those wait for the next pass, as long as something changed and the budget allows one.

How a tag is resolved is a parameter here: a `resolve` is asked for every tag that is neither
dropped nor left alone. It is asked for tags of the content only, and is told so by a proof; this is
what a resolution that calls itself on the inner texts of tags rests its termination on.
-/

namespace TagTemplate

/-- What a pass looks for. -/
structure Search where
  delimiters : Delimiters
  /-- The tag whose content is searched; it is dropped where it occurs. -/
  selfTag : Text
  /-- The tokens of the tags to be resolved; all, if there is none. -/
  tokens : List Char

/-- What is to be done with a tag. -/
inductive Triage
  /-- It is replaced by nothing. -/
  | drop
  /-- It stays as it is. -/
  | leave
  /-- It is resolved. -/
  | resolve
deriving DecidableEq, Repr

/-- What is to be done with a tag, by its inner text. Comments are dropped. Uncacheable tags that
are not to be resolved stay, unless unresolved tags are removed and no uncacheable tag was ever
allowed. -/
def Search.triage (search : Search) (ctx : Context) (started : Bool) (inner : Text) : Triage :=
  let marked := inner.head? = some TagSource.uncacheableMark
  let token := (if marked then inner.tail else inner).head?
  if inner.head? = some '-' then .drop
  else if marked ∧ ctx.processUncacheable = false then
    if ctx.removeUnprocessed ∧ started = false then .drop else .leave
  else if search.tokens ≠ [] ∧ token.all (· ∉ search.tokens) then .leave
  else if search.delimiters.wrap inner = search.selfTag then .drop
  else .resolve

/-- What a pass has found so far: the tags with their outputs, each tag once, and how many tags have
an output other than their own text. -/
structure Tally where
  outputs : Properties
  count : Nat

namespace Tally

/-- Nothing found. -/
def empty : Tally := ⟨.empty, 0⟩

/-- Records the output of a tag. -/
def record (tally : Tally) (outer output : Text) : Tally :=
  ⟨tally.outputs.insert outer output, if output = outer then tally.count else tally.count + 1⟩

end Tally

namespace Search

/-- Decides about one tag and records its output, if it has one. -/
def judge (search : Search) (ctx : Context) (inner : Text) (resolve : Run (Option Text))
    (tally : Tally) : Run Tally := do
  let outer := search.delimiters.wrap inner
  match search.triage ctx (← get).uncacheableStarted inner with
  | .drop => return tally.record outer []
  | .leave => return tally
  | .resolve =>
    match ← resolve with
    | some output => return tally.record outer output
    | none => return if ctx.removeUnprocessed then tally.record outer [] else tally

/-- Decides about tags one after the other. -/
def judgeAll (search : Search) (ctx : Context) :
    (inners : List Text) → ((inner : Text) → inner ∈ inners → Run (Option Text)) → Tally → Run Tally
  | [], _, tally => return tally
  | inner :: inners, resolve, tally => do
    let tally ← search.judge ctx inner (resolve inner List.mem_cons_self) tally
    judgeAll search ctx inners (fun inner h ↦ resolve inner (List.mem_cons_of_mem _ h)) tally

/-- One pass: the content with the outputs of its tags in place, and the number of tags that
changed. -/
def pass (search : Search) (ctx : Context) (content : Text)
    (resolve : (inner : Text) → inner ∈ search.delimiters.tags content → Run (Option Text)) :
    Run (Text × Nat) := do
  let tally ← search.judgeAll ctx (search.delimiters.tags content) resolve .empty
  return (content.replaceAll tally.outputs.entries, tally.count)

/-- One pass and up to `further` more, while tags change. -/
def passes (search : Search) (ctx : Context) (resolve : Text → Run (Option Text)) :
    (further : Nat) → Text → Run (Text × Nat)
  | 0, content => search.pass ctx content fun inner _ ↦ resolve inner
  | further + 1, content => do
    let (content, count) ← search.pass ctx content fun inner _ ↦ resolve inner
    if count = 0 then return (content, 0)
    else
      let (content, more) ← passes search ctx resolve further content
      return (content, count + more)

end Search

/-- Sets the latch if the context allows uncacheable tags. -/
def Context.announce (ctx : Context) : Run Unit :=
  if ctx.processUncacheable then modify fun s ↦ { s with uncacheableStarted := true } else pure ()

end TagTemplate
