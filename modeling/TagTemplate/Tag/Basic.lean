import TagTemplate.Filter.Run
import TagTemplate.Markup.Basic
import TagTemplate.Properties.Definition

/-!
# Tags

A tag has a kind, chosen by its first character, a name, filters written behind the name, and
properties. A chunk tag stands for a fragment of template text, a placeholder tag for a value of the
store.

`TagSource.read` takes the inner text of a tag apart; `Tag` is a tag on its way through resolution,
which records what it was given and what came of it. `Tag.text` is the text by which a tag is
recognised when it comes up again inside its own content.
-/

namespace TagTemplate

/-- What a tag stands for. -/
inductive TagKind
  | chunk | placeholder
deriving DecidableEq, Repr

namespace TagKind

/-- The kind that a token selects; a placeholder, unless it is the token of chunks. -/
def ofToken (token : Option Char) : TagKind := if token = some '$' then chunk else placeholder

/-- The token of the kind. -/
def token : TagKind → Char
  | chunk => '$'
  | placeholder => '+'

/-- Whether tags of the kind may keep an output for later: none may, every tag is resolved
afresh. -/
def isCacheable : TagKind → Bool
  | chunk => false
  | placeholder => false

end TagKind

/-- The parts of the inner text of a tag. -/
structure TagSource where
  /-- Whether the tag is marked uncacheable. -/
  uncacheable : Bool
  kind : TagKind
  /-- The name with its filters, as written behind the token. -/
  rawName : Text
  /-- The property string, if there is one. -/
  rawProperties : Option Text
deriving DecidableEq, Repr

namespace TagSource

/-- The character that marks a tag uncacheable. -/
def uncacheableMark : Char := '!'

/-- Takes an inner text apart: the name up to a question mark outside of quotations, and the
property string up to the next one. -/
def read (inner : Text) : TagSource :=
  let parts := inner.splitQuoted '?' Text.quoteMark 2
  let written := parts.headD []
  let uncacheable := written.head? = some uncacheableMark
  let name := if uncacheable then written.tail else written
  ⟨uncacheable, .ofToken name.head?, name.tail, parts[1]?⟩

end TagSource

/-- A tag and what is known about it. -/
structure Tag where
  kind : TagKind
  /-- The name with its filters, as written behind the token. -/
  rawName : Text
  /-- Properties that the tag has of itself. -/
  defaults : Properties
  /-- The property string that came with the tag. -/
  rawProperties : Option Text
  /-- The properties in effect in the last attempt to resolve the tag. -/
  properties : Properties
  /-- The content loaded in the last attempt. -/
  content : Option Text
  /-- What the tag resolved to. -/
  output : Option Text
  /-- Whether the tag is done; a tag that is done answers its output again. -/
  processed : Bool
  /-- The text of the tag, once it is fixed. -/
  written : Option Text
deriving DecidableEq, Repr

namespace Tag

/-- A tag with the given name as written behind the token. -/
def new (kind : TagKind) (rawName : Text) : Tag :=
  ⟨kind, rawName, .empty, none, .empty, none, none, false, none⟩

/-- The tag that an inner text reads as, with its text fixed. -/
def ofSource (source : TagSource) (written : Text) : Tag :=
  { new source.kind source.rawName with
    rawProperties := source.rawProperties, written := some written }

/-- The name without filters. -/
def name (tag : Tag) : Text := (FilterChain.splitName tag.rawName).1

/-- The filters behind the name. -/
def filters (tag : Tag) : FilterChain := (FilterChain.splitName tag.rawName).2

/-- The text of a tag made from its parts. -/
def canonicalText (tag : Tag) : Text :=
  let arguments := if tag.defaults.isEmpty then [] else '?' :: tag.defaults.toPropertyString
  Delimiters.brackets.wrap (tag.kind.token :: tag.rawName ++ arguments)

/-- The text of the tag: the one fixed for it, or else the one made from its parts. -/
def text (tag : Tag) : Text := tag.written.getD tag.canonicalText

/-- Sets the properties that the tag has of itself, over those it has or in their place. -/
def setDefaults (tag : Tag) (properties : Properties) (merge : Bool) : Tag :=
  { tag with defaults := if merge then tag.defaults.merge properties else properties }

/-- Records the property string that came with the tag. -/
def setRawProperties (tag : Tag) (raw : Text) : Tag := { tag with rawProperties := some raw }

/-- Fixes the text of the tag. -/
def setText (tag : Tag) (text : Text) : Tag := { tag with written := some text }

/-- What the filters make of what the content resolved to. A tag without content and without filters
has no output. -/
def filtered (tag : Tag) (resolved : Option Text) : Option Text :=
  if tag.filters.isEmpty then resolved else some (tag.filters.apply (resolved.getD []))

end Tag

end TagTemplate
