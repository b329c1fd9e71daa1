import TagTemplate.Text.Digit
import TagTemplate.Yaml.Character

/-!
# YAML tags and directives

A tag says what kind of thing a part of a document is. It is written behind `!`, either in full
between angle brackets or shortened by a handle, which stands for the beginning of tags; directives
in front of a document say for which one. Two handles need no directive: `!` stands for itself, and
`!!` for the tags of the kinds that every document knows (`coreTag`).

Tags are texts of octets. An octet can be written by its code behind `%`, and the octets of one
character have to be written together.
-/

namespace TagTemplate.Yaml

/-! ### Tags -/

/-- A tag as it is written: a handle, or none, and what stands behind it. -/
structure TagName where
  handle : Text
  rest : Text

/-- Whether the character may occur in a tag. -/
def isTagChar (c : Char) : Bool :=
  isNameChar c || c ∈ [';', '/', '?', ':', '@', '&', '=', '+', '$', '.', '%', '!', '~', '*', '\'',
    '(', ')']

/-- Whether the character may occur in a tag between angle brackets. -/
def isVerbatimChar (c : Char) : Bool := isTagChar c || c ∈ [',', '[', ']']

/-- The number of octets of a character that begins with the octet. -/
def octets? (first : Nat) : Option Nat :=
  if first < 0x80 then some 1
  else if first < 0xC0 then none
  else if first < 0xE0 then some 2
  else if first < 0xF0 then some 3
  else if first < 0xF8 then some 4
  else none

/-- The octets that the text writes, when some octets of a character begun by `%` are still left. -/
def octetsOf? (left : Nat) : Text → Option Text
  | [] => if left = 0 then some [] else none
  | '%' :: a :: b :: t => do
    let n ← Text.number? 16 [a, b]
    let left ←
      if left = 0 then (octets? n).map (· - 1)
      else if 0x80 ≤ n ∧ n < 0xC0 then some (left - 1)
      else none
    return Char.ofNat n :: (← octetsOf? left t)
  | c :: t => do if c ≠ '%' ∧ left = 0 then return c :: (← octetsOf? 0 t) else none

/-- Reads what follows the `!` of a tag: the tag, and the number of the characters behind the
`!`. -/
def TagName.read? (t : Text) : Option (TagName × Nat) := do
  match t with
  | '<' :: t =>
    let inside := t.takeWhile isVerbatimChar
    if inside.isEmpty ∨ (t.drop inside.length).head? ≠ some '>' then none
    return (⟨[], ← octetsOf? 0 inside⟩, inside.length + 2)
  | _ =>
    let written := t.takeWhile isTagChar
    let name := written.takeWhile isNameChar
    match written.drop name.length with
    | '!' :: rest =>
      if rest.isEmpty then none
      return (⟨'!' :: name ++ ['!'], ← octetsOf? 0 rest⟩, written.length)
    | _ =>
      -- The bare `!` is a tag in full.
      if written.isEmpty then return (⟨[], ['!']⟩, 0)
      return (⟨['!'], ← octetsOf? 0 written⟩, written.length)

/-- What each handle stands for; the first entry of a handle counts. -/
abbrev Handles := List (Text × Text)

/-- The tag of a kind that every document knows. -/
def coreTag (kind : String) : Text := ("tag:yaml.org,2002:" ++ kind).toList

/-- The handles that need no directive. -/
def standardHandles : Handles := [(['!'], ['!']), (['!', '!'], coreTag "")]

/-- The tag in full. -/
def TagName.full? (handles : Handles) (n : TagName) : Option Text :=
  if n.handle.isEmpty then some n.rest else (handles.lookup n.handle).map (· ++ n.rest)

/-- Whether the tag is one of the document's own. -/
def isOwnTag (tag : Text) : Bool :=
  tag.head? = some '!' &&
    (String.fromUTF8? ⟨(tag.map fun c ↦ c.toNat.toUInt8).toArray⟩).isSome

/-! ### Directives -/

/-- A directive. -/
inductive Directive
  | version (major minor : Nat)
  | handle (name start : Text)

namespace Directive

/-- Reads a number of a version, which has at most nine digits, and what follows it. -/
def number? (t : Text) : Option (Nat × Text) :=
  let (digits, rest) := Text.takeDigits 10 t
  if digits.isEmpty ∨ 9 < digits.length then none else some (Text.ofDigits 10 digits, rest)

/-- Reads a version. -/
def version? (t : Text) : Option Directive := do
  let (major, t) ← number? t
  match t with
  | '.' :: t =>
    let (minor, t) ← number? t
    if lineEnds t then some (.version major minor) else none
  | _ => none

/-- Reads a handle and what it stands for. -/
def handle? (t : Text) : Option Directive := do
  match t with
  | '!' :: t =>
    let name := t.takeWhile isNameChar
    let (written, t) ← match t.drop name.length with
      | '!' :: t => some ('!' :: name ++ ['!'], t)
      | t => if name.isEmpty then some (['!'], t) else none
    let start := (t.dropWhile isWhite).takeWhile isVerbatimChar
    let t' := (t.dropWhile isWhite).drop start.length
    if t.head?.any isWhite ∧ !start.isEmpty ∧ t'.head?.all isWhite ∧ lineEnds t' then
      return .handle written (← octetsOf? 0 start)
    else none
  | _ => none

/-- Reads the line behind the `%` of a directive. -/
def read? (line : Text) : Option Directive :=
  let name := line.takeWhile isNameChar
  let t := line.drop name.length
  if t.head?.all isWhite then
    if name = "YAML".toList then version? (t.dropWhile isWhite)
    else if name = "TAG".toList then handle? (t.dropWhile isWhite)
    else none
  else none

end Directive

end TagTemplate.Yaml
