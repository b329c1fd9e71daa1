import TagTemplate.Json.Token

/-!
# Reading JSON text

The tokens of a text are read from left to right with a stack of the lists and objects that are
still open. What may come next is a `Want`; every token either fits it and moves on, or the text is
not JSON. Nesting is limited: a text that opens more than `deepest` lists and objects inside one
another is refused.
-/

namespace TagTemplate.Json

/-- The greatest number of lists and objects that may be open at once. -/
def deepest : Nat := 127

/-- A list or an object still open: what it holds so far, the last one first, and for an object the
key whose value is being read. -/
inductive Frame
  | list (items : List Json)
  | object (fields : List (Text × Json)) (key : Text)

/-- What may come next. -/
inductive Want
  /-- A value. -/
  | value
  /-- A value, or the end of a list without items. -/
  | valueOrEnd
  /-- A key of the innermost object, whose fields so far are given. -/
  | key (fields : List (Text × Json))
  /-- A key of a new object, or its end. -/
  | keyOrEnd
  /-- The colon behind a key. -/
  | colon (fields : List (Text × Json)) (key : Text)
  /-- What follows a finished value. -/
  | after (value : Json)

/-- Opens one more list or object, unless too many are open. -/
def nest? (frames : List Frame) (want : Want) : Option (List Frame × Want) :=
  if frames.length < deepest then some (frames, want) else none

/-- What the start of a value leads to. -/
def begin? (frames : List Frame) (token : Token) : Option (List Frame × Want) :=
  match token with
  | .null => some (frames, .after .null)
  | .scalar value => some (frames, .after (.scalar value))
  | .openList => nest? frames .valueOrEnd
  | .openObject => nest? frames .keyOrEnd
  | _ => none

/-- What one token leads to. The innermost list or object is on the stack only while one of its
values is being read. -/
def step? (frames : List Frame) (want : Want) (token : Token) : Option (List Frame × Want) :=
  match want, token with
  | .value, _ => begin? frames token
  | .valueOrEnd, .closeList => some (frames, .after (.list []))
  | .valueOrEnd, _ => begin? (.list [] :: frames) token
  | .key fields, .scalar (.str key) => some (frames, .colon fields key)
  | .keyOrEnd, .closeObject => some (frames, .after (.object []))
  | .keyOrEnd, .scalar (.str key) => some (frames, .colon [] key)
  | .colon fields key, .colon => some (.object fields key :: frames, .value)
  | .after value, .comma =>
    match frames with
    | .list items :: frames => some (.list (value :: items) :: frames, .value)
    | .object fields key :: frames => some (frames, .key ((key, value) :: fields))
    | [] => none
  | .after value, .closeList =>
    match frames with
    | .list items :: frames => some (frames, .after (.list (value :: items).reverse))
    | _ => none
  | .after value, .closeObject =>
    match frames with
    | .object fields key :: frames =>
      some (frames, .after (ofFields ((key, value) :: fields).reverse))
    | _ => none
  | _, _ => none

/-- Reads the tokens as one value. -/
def ofTokens? (frames : List Frame) (want : Want) : List Token → Option Json
  | [] =>
    match frames, want with
    | [], .after value => some value
    | _, _ => none
  | token :: tokens =>
    match step? frames want token with
    | some (frames, want) => ofTokens? frames want tokens
    | none => none

/-- The value that the text spells. -/
def read? (t : Text) : Option Json := do
  ofTokens? [] .value (← tokens? (.outside []) t)

end TagTemplate.Json
