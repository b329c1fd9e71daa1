import TagTemplate.Text.Basic

/-!
# Marked-up content

Content is plain text with tags in it. A tag is an inner text between an opening and a closing
delimiter; which texts delimit is chosen by `Delimiters`. Cut at its outermost tags, content is a
list of `Piece`s, and putting the pieces back together gives the content again.

Tags inside a tag belong to its inner text. They become pieces only when that text is cut in turn.
-/

namespace TagTemplate

/-- The texts that open and close a tag. -/
structure Delimiters where
  opening : Text
  closing : Text
deriving DecidableEq, Repr

/-- Two square brackets on each side. -/
def Delimiters.brackets : Delimiters := ⟨"[[".toList, "]]".toList⟩

/-- The inner text as a tag: between its delimiters. -/
def Delimiters.wrap (d : Delimiters) (inner : Text) : Text := d.opening ++ inner ++ d.closing

/-- Whether tags can be recognised at all: an empty delimiter delimits nothing. -/
def Delimiters.usable (d : Delimiters) : Bool := !d.opening.isEmpty && !d.closing.isEmpty

/-- A part of content: text outside of tags, or one outermost tag. -/
inductive Piece
  | plain (text : Text)
  | tag (inner : Text)
deriving DecidableEq, Repr

namespace Piece

/-- The part as it stands in the content. -/
def written (d : Delimiters) : Piece → Text
  | plain t => t
  | tag inner => d.wrap inner

/-- The inner text of a tag. -/
def inner? : Piece → Option Text
  | plain _ => none
  | tag inner => some inner

end Piece

/-- The content that the pieces were cut from. -/
def Piece.unite (d : Delimiters) (pieces : List Piece) : Text := pieces.flatMap (Piece.written d)

/-- Where a tag stands in content, in bytes. -/
structure Span where
  inner : Text
  start : Nat
  stop : Nat
deriving DecidableEq, Repr

/-- The spans of the tags among the pieces of a content, the first of which stands at `start`. -/
def Piece.spans (d : Delimiters) (start : Nat) : List Piece → List Span
  | [] => []
  | piece :: pieces =>
    let stop := start + (piece.written d).size
    match piece with
    | .plain _ => spans d stop pieces
    | .tag inner => ⟨inner, start, stop⟩ :: spans d stop pieces

end TagTemplate
