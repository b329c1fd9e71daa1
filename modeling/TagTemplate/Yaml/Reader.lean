import TagTemplate.Dict
import TagTemplate.Yaml.Basic
import TagTemplate.Yaml.Scan

/-!
# Reading YAML text

The tokens of a text are read from left to right with a stack of the collections that are still
open, as the tokens of JSON text are. Three things are particular to YAML. A part may be left out:
it is absent when the next token cannot begin one. The items of a list that belongs to a key may
stand at the column of the key, so that no token marks the end of the list; it ends with the first
token that is no dash. And an item of a flow list may be a pair, which is a mapping without
brackets.

A text holds at most one document; a text without any holds the document in which everything is
absent.
-/

namespace TagTemplate.Yaml

/-! ### Names -/

/-- What has been named so far. -/
structure Names where
  handles : Handles := []
  /-- The number of each anchor: how many names were known in front of it. -/
  numbers : Dict Nat := .empty
  /-- The numbers of the anchors with their ranks, the last one first. -/
  ranks : List (Nat × Nat) := []
  /-- The finished parts with anchors, by their ranks. -/
  parts : List (Nat × Yaml) := []
  /-- The size of what is finished. -/
  size : Nat := 0

/-- Reading that may name things, and may fail. -/
abbrev Naming := StateT Names Option

/-- The tag of a part and the rank of its anchor. -/
structure Labels where
  tag : Option Text := none
  rank : Option Nat := none

/-- The rank of a new anchor. -/
def rankOf (name : Text) : Naming Nat :=
  modifyGet fun n ↦
    (n.ranks.length, { n with
      numbers := n.numbers.insert name n.numbers.size
      ranks := (n.numbers.size, n.ranks.length) :: n.ranks })

/-- Finishes a part of the given size. -/
def finish (labels : Labels) (size : Nat) (part : Yaml) : Naming Yaml :=
  modifyGet fun n ↦
    (part, { n with
      size := n.size + size
      parts := match labels.rank with
        | some rank => (rank, part) :: n.parts
        | none => n.parts })

/-- Finishes a part that is left out. -/
def finishAbsent (labels : Labels) : Naming Yaml := finish labels 1 (.text labels.tag [] true)

/-- Finishes a list, of which the last item is given first. -/
def finishList (labels : Labels) (items : List Yaml) : Naming Yaml :=
  finish labels 2 (.list labels.tag items.reverse)

/-- Finishes a mapping, of which the last field is given first. -/
def finishMapping (labels : Labels) (fields : List (Yaml × Yaml)) : Naming Yaml :=
  finish labels 2 (.mapping labels.tag fields.reverse)

/-! ### Open collections -/

/-- A collection still open: what it holds so far, the last one first. -/
inductive Frame
  | items (items : List Yaml)
  /-- A list whose items stand at the column of the key that it belongs to. -/
  | besideKey (items : List Yaml)
  /-- A mapping of which a key is read, or the value of one. -/
  | key (fields : List (Yaml × Yaml)) | field (fields : List (Yaml × Yaml)) (key : Yaml)
  | flowItems (items : List Yaml)
  /-- A flow mapping of which a key without a value is read, a key, or the value of one. -/
  | flowName (fields : List (Yaml × Yaml))
  | flowKey (fields : List (Yaml × Yaml)) | flowField (fields : List (Yaml × Yaml)) (key : Yaml)
  /-- A pair of which the key is read, or the value. -/
  | pairKey | pair (key : Yaml)

/-- The open collections, the innermost first. -/
abbrev Frames := List (Labels × Frame)

/-- Whether blocks may begin inside the innermost collection. -/
def Frames.inBlock (frames : Frames) : Bool :=
  match frames with
  | [] | (_, .items _) :: _ | (_, .besideKey _) :: _ | (_, .key _) :: _ | (_, .field ..) :: _ => true
  | _ => false

/-- Whether a list may begin beside the key that it belongs to. -/
def Frames.besideKey (frames : Frames) : Bool :=
  match frames with
  | (_, .key _) :: _ | (_, .field ..) :: _ => true
  | _ => false

/-- What may come next. -/
inductive Want
  /-- The document or a directive, or only its mark or a directive; whether a version was given. -/
  | document (directed : Bool) (versioned : Bool)
  /-- A part with labels, which may be left out. -/
  | part (labels : Labels)
  /-- The first dash of a block of items, and the first key of a block of fields. -/
  | firstItem | firstKey
  /-- An item of a flow list or its end, and a field of a flow mapping or its end. -/
  | flowItem | flowField
  /-- The key of a pair. -/
  | pairKey
  /-- What follows a finished part. -/
  | after (part : Yaml)
  /-- Nothing but marks that end the document. -/
  | nothing (root : Yaml)

/-- Where the reading is. -/
abbrev Progress := Frames × Want

/-- What the token of a part leads to: its beginning or a label. -/
def beginPart (frames : Frames) (labels : Labels) (token : Token) : Naming Progress :=
  match token with
  | .text content plain => do
    return (frames, .after (← finish labels 1 (.text labels.tag content plain)))
  | .aliasOf name => do
    if labels.tag.isSome ∨ labels.rank.isSome then failure
    let number ← (← get).numbers.get? name
    return (frames, .after (← finish {} 1 (.aliasOf number)))
  | .anchor name => do
    if labels.rank.isSome then failure
    return (frames, .part { labels with rank := ← rankOf name })
  | .tag name => do
    if labels.tag.isSome then failure
    return (frames, .part { labels with tag := ← name.full? (← get).handles })
  | .openItems =>
    if frames.inBlock then return ((labels, .items []) :: frames, .firstItem) else failure
  | .openFields =>
    if frames.inBlock then return ((labels, .key []) :: frames, .firstKey) else failure
  | .item =>
    if frames.besideKey then return ((labels, .besideKey []) :: frames, .part {}) else failure
  | .openList => return ((labels, .flowItems []) :: frames, .flowItem)
  | .openMapping => return ((labels, .flowName []) :: frames, .flowField)
  | _ => failure

/-- What a token behind a field leads to. -/
def afterField (labels : Labels) (fields : List (Yaml × Yaml)) (token : Token) (frames : Frames) :
    Naming Progress :=
  match token with
  | .key => return ((labels, .key fields) :: frames, .part {})
  | .closeBlock => return (frames, .after (← finishMapping labels fields))
  | _ => failure

/-- What a token behind a field in flow style leads to. -/
def afterFlowField (labels : Labels) (fields : List (Yaml × Yaml)) (token : Token)
    (frames : Frames) : Naming Progress :=
  match token with
  | .comma => return ((labels, .flowName fields) :: frames, .flowField)
  | .closeMapping => return (frames, .after (← finishMapping labels fields))
  | _ => failure

/-- What a token behind a finished part leads to. -/
def afterPart (part : Yaml) (token : Token) : Frames → Naming Progress
  | [] => if token matches .stop then return ([], .nothing part) else failure
  | (labels, .items items) :: frames =>
    match token with
    | .item => return ((labels, .items (part :: items)) :: frames, .part {})
    | .closeBlock => return (frames, .after (← finishList labels (part :: items)))
    | _ => failure
  | (labels, .besideKey items) :: frames => do
    if token matches .item then
      return ((labels, .besideKey (part :: items)) :: frames, .part {})
    afterPart (← finishList labels (part :: items)) token frames
  | (labels, .key fields) :: frames => do
    if token matches .value then return ((labels, .field fields part) :: frames, .part {})
    afterField labels ((part, ← finishAbsent {}) :: fields) token frames
  | (labels, .field fields key) :: frames => afterField labels ((key, part) :: fields) token frames
  | (labels, .flowItems items) :: frames =>
    match token with
    | .comma => return ((labels, .flowItems (part :: items)) :: frames, .flowItem)
    | .closeList => return (frames, .after (← finishList labels (part :: items)))
    | _ => failure
  | (labels, .flowName fields) :: frames => do
    afterFlowField labels ((part, ← finishAbsent {}) :: fields) token frames
  | (labels, .flowKey fields) :: frames => do
    if token matches .value then return ((labels, .flowField fields part) :: frames, .part {})
    afterFlowField labels ((part, ← finishAbsent {}) :: fields) token frames
  | (labels, .flowField fields key) :: frames =>
    afterFlowField labels ((key, part) :: fields) token frames
  | (labels, .pairKey) :: frames => do
    if token matches .value then return ((labels, .pair part) :: frames, .part {})
    afterPart (← finishMapping labels [(part, ← finishAbsent {})]) token frames
  | (labels, .pair key) :: frames => do
    afterPart (← finishMapping labels [(key, part)]) token frames

/-- What a token leads to in front of the document. -/
def beforeDocument (directed versioned : Bool) (token : Token) : Naming Progress := do
  let names ← get
  match token with
  | .directive (.version major minor) =>
    if versioned ∨ major ≠ 1 ∨ (minor ≠ 1 ∧ minor ≠ 2) then failure
    return ([], .document true true)
  | .directive (.handle name start) =>
    if (names.handles.lookup name).isSome then failure
    set { names with handles := names.handles ++ [(name, start)] }
    return ([], .document true versioned)
  | _ =>
    set { names with handles := names.handles ++ standardHandles }
    if token matches .start then return ([], .part {})
    if directed then failure
    beginPart [] {} token

/-- What one token leads to. -/
def advance (progress : Progress) (token : Token) : Naming Progress :=
  match progress, token with
  | (_, .document directed versioned), _ => beforeDocument directed versioned token
  | (frames, .part labels), _ =>
    beginPart frames labels token <|> do afterPart (← finishAbsent labels) token frames
  | (frames, .firstItem), .item => return (frames, .part {})
  | (frames, .firstKey), .key => return (frames, .part {})
  | ((labels, .flowItems items) :: frames, .flowItem), .closeList =>
    return (frames, .after (← finishList labels items))
  | (frames, .flowItem), .key => return (({}, .pairKey) :: frames, .pairKey)
  | (frames, .flowItem), _ => beginPart frames {} token
  | ((labels, .flowName fields) :: frames, .flowField), .closeMapping =>
    return (frames, .after (← finishMapping labels fields))
  | ((labels, .flowName fields) :: frames, .flowField), .key =>
    return ((labels, .flowKey fields) :: frames, .part {})
  | (frames, .flowField), _ => beginPart frames {} token
  -- A mark or a bracket right behind the question mark of a pair is taken along with it.
  | (frames, .pairKey), .value | (frames, .pairKey), .comma | (frames, .pairKey), .closeList =>
    return (frames, .after (← finishAbsent {}))
  | (frames, .pairKey), _ => beginPart frames {} token
  | (frames, .after part), _ => afterPart part token frames
  | (frames, .nothing root), .stop => return (frames, .nothing root)
  | _, _ => failure

/-! ### Documents -/

/-- Reads the tokens as one document. -/
def ofTokens : Progress → List Token → Naming Yaml
  | ([], .after root), [] | ([], .nothing root), [] => return root
  | ([], .document false _), [] => finishAbsent {}
  | ([], .part labels), [] => finishAbsent labels
  | _, [] => failure
  | progress, token :: tokens => do ofTokens (← advance progress token) tokens

/-- The document that the text holds. -/
def read? (t : Text) : Option Document := do
  let (root, names) ← (ofTokens ([], .document false false) (← tokens? t)).run {}
  return { root, ranks := names.ranks, parts := names.parts, size := names.size }

end TagTemplate.Yaml
