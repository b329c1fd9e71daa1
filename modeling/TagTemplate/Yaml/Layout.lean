import TagTemplate.Yaml.Token

/-!
# The layout of YAML text

While YAML text is cut into tokens, its indentation is turned into brackets: the layout remembers
the columns of the blocks that are open, opens a block where a key or a dash stands further right
than the innermost of them, and closes blocks where something stands further left.

A key need not be marked as one in advance. What makes it a key is the colon behind it, so whatever
may be a key is remembered as a `Candidate`, and the tokens that begin the key are put in front of
it when the colon is met. A key written this way ends on the line it begins on, and is no longer
than `longestKey`. One candidate is remembered for each open flow collection and one for the block
around them. Where a key is needed and no colon comes, the text is malformed.
-/

namespace TagTemplate.Yaml

/-- A place in a text. -/
structure Place where
  line : Nat := 0
  column : Nat := 0
  /-- The number of bytes in front of it. -/
  offset : Nat := 0

/-- Something that is a key if a colon follows. -/
structure Candidate where
  /-- Where it begins. -/
  place : Place
  /-- The number of tokens in front of it. -/
  index : Nat
  /-- Whether nothing but a key can stand there. -/
  needed : Bool

/-- The greatest number of bytes of a key that is not marked as one. -/
def longestKey : Nat := 1024

/-- Whether the candidate can no longer be a key of which the colon stands `here`. -/
def Candidate.isStale (k : Candidate) (here : Place) : Bool :=
  k.place.line < here.line || k.place.offset + longestKey < here.offset

/-- What is known of the layout at a place of the text. -/
structure Layout where
  place : Place := {}
  /-- The columns of the open blocks, the innermost first. -/
  blocks : List Nat := []
  /-- What may be a key in the innermost flow collection, or in the block if none is open. -/
  candidate : Option Candidate := none
  /-- Likewise in the flow collections further out, and in the block. -/
  outer : List (Option Candidate) := []
  /-- Whether a key or an item may begin here. -/
  fresh : Bool := true
  /-- The tokens so far, the last one first, and their number. -/
  placed : List Token := []
  count : Nat := 0

namespace Layout

/-! ### Places -/

/-- Behind the character, on the same line. -/
def forward (l : Layout) (c : Char) : Layout :=
  { l with place := { l.place with
      column := l.place.column + 1
      offset := l.place.offset + c.utf8Size } }

/-- Behind a break, on the next line. -/
def nextLine (l : Layout) (c : Char) : Layout :=
  { l with place := ⟨l.place.line + 1, 0, l.place.offset + c.utf8Size⟩ }

/-- Whether a flow collection is open. -/
def inFlow (l : Layout) : Bool := !l.outer.isEmpty

/-- Behind a break between tokens: in block style a key or an item may begin on the next line. -/
def newline (l : Layout) (c : Char) : Layout :=
  { l.nextLine c with fresh := l.fresh || !l.inFlow }

/-- The column that the lines of a text in the innermost block have to reach. -/
def margin (l : Layout) : Nat := (l.blocks.head?.map (· + 1)).getD 0

/-! ### Tokens -/

/-- Places a token. -/
def push (l : Layout) (token : Token) : Layout :=
  { l with placed := token :: l.placed, count := l.count + 1 }

/-- Closes the blocks further right than the place. -/
def settle (l : Layout) : Layout :=
  if l.inFlow then l
  else
    let (closed, blocks) := l.blocks.span (l.place.column < ·)
    closed.foldl (fun l _ ↦ l.push .closeBlock) { l with blocks }

/-- Closes all blocks. -/
def settleAll (l : Layout) : Layout :=
  if l.inFlow then l else l.blocks.foldl (fun l _ ↦ l.push .closeBlock) { l with blocks := [] }

/-- Opens a block at the column, unless the innermost one is there or further right. -/
def openBlock (l : Layout) (column : Nat) (token : Token) : Layout :=
  if !l.inFlow ∧ l.blocks.head?.all (· < column) then
    { l.push token with blocks := column :: l.blocks }
  else l

/-- Opens a block for the dash, the question mark or the bare colon that stands at the place. It has
to be one that may begin there. -/
def openHere? (l : Layout) (token : Token) : Option Layout :=
  if l.inFlow then some l
  else if l.fresh then some (l.openBlock l.place.column token)
  else none

/-! ### Candidates -/

/-- Forgets the candidate, unless a key is needed. -/
def drop? (l : Layout) : Option Layout :=
  if l.candidate.any (·.needed) then none else some { l with candidate := none }

/-- Forgets the candidate if it has become stale, unless a key is needed. Those further out are
looked at when the flow collections inside them have ended; what is stale stays stale. -/
def refresh? (l : Layout) : Option Layout :=
  if l.candidate.any (·.isStale l.place) then l.drop? else some l

/-- Remembers what begins at the place as a candidate, if a key may begin there. -/
def mark? (l : Layout) : Option Layout :=
  if l.fresh then do
    let candidate : Candidate :=
      { place := l.place, index := l.count
        needed := !l.inFlow && l.blocks.head? = some l.place.column }
    return { ← l.drop? with candidate := some candidate }
  else some l

/-- Makes a key of the candidate: the tokens that begin a key come in front of it. -/
def makeKey (l : Layout) (k : Candidate) : Layout :=
  let (behind, before) := l.placed.splitAt (l.count - k.index)
  let l := ({ l with placed := before }.openBlock k.place.column .openFields).push .key
  { l with placed := behind ++ l.placed, candidate := none, fresh := false }

end Layout

end TagTemplate.Yaml
