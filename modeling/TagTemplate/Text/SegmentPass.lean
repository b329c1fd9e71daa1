import TagTemplate.Text.Split

/-!
# Segments in one pass

The segments of a text can be found without cutting it into pieces first. A pass reads the text
once. It keeps the offset at which the segment begins that is being read, whether what comes next is
quoted, and the segments that are finished; a segment is sliced out of the text when the delimiter
behind it is read, and the pass ends as soon as it has as many segments as the limit allows. What
stands behind the last delimiter is sliced out at the end of the text.

Offsets are counted in bytes, so that a slice could be asked for that begins or ends inside of a
character. There is no such slice (`Text.slice?`), and a pass that asked for one would have no
answer.
-/

namespace TagTemplate.Text

/-- The text between two offsets in bytes, unless there is no text between them or one of them falls
inside of a character. -/
def slice? (start stop : Nat) (t : Text) : Option Text := do
  let (_, rest) ← t.cutAt? start
  if stop < start then none
  else
    let (slice, _) ← rest.cutAt? (stop - start)
    return slice

/-- A slice is found where the text has it. -/
theorem slice?_append (before slice rest : Text) :
    slice? before.size (before.size + slice.size) (before ++ (slice ++ rest)) = some slice := by
  have hstart : cutAt? before.size (before ++ (slice ++ rest)) = some (before, slice ++ rest) :=
    cutAt?_eq_some_iff.2 ⟨rfl, rfl⟩
  have hstop : cutAt? (before.size + slice.size - before.size) (slice ++ rest) =
      some (slice, rest) :=
    cutAt?_eq_some_iff.2 ⟨rfl, (Nat.add_sub_cancel_left before.size slice.size).symm⟩
  have hle : ¬before.size + slice.size < before.size := Nat.not_lt.2 (Nat.le_add_right _ _)
  simp only [slice?, hstart, hstop, if_neg hle, Option.bind_eq_bind, Option.bind_some,
    Option.pure_def]

/-- How far a pass over a text has come. -/
structure SegmentPass where
  /-- The offset at which the segment begins that is being read. -/
  start : Nat
  /-- Whether what comes next is quoted. -/
  quoted : Bool
  /-- The segments that are finished. -/
  found : List Text

namespace SegmentPass

/-- The pass before the first character. -/
def initial : SegmentPass := ⟨0, false, []⟩

/-- Reads what is left of the text behind the offset, and answers the segments. -/
def run? (delimiter quote : Char) (limit : Nat) (t : Text) :
    (offset : Nat) → (rest : Text) → SegmentPass → Option (List Text)
  | _, [], pass => do
    let piece ← t.slice? pass.start t.size
    if piece.trim = [] then return pass.found else return pass.found ++ [piece.trim]
  | offset, c :: rest, pass =>
    let next := offset + c.utf8Size
    if c = quote then
      run? delimiter quote limit t next rest { pass with quoted := !pass.quoted }
    else if pass.quoted = true ∨ c ≠ delimiter then run? delimiter quote limit t next rest pass
    else do
      let piece ← t.slice? pass.start offset
      if piece.trim = [] then run? delimiter quote limit t next rest { pass with start := next }
      else
        let found := pass.found ++ [piece.trim]
        if 0 < limit ∧ limit ≤ found.length then return found
        else run? delimiter quote limit t next rest { pass with start := next, found := found }

end SegmentPass

/-- The segments of the text in one pass, at most `limit` of them when `limit` is positive. -/
def splitInPass? (delimiter quote : Char) (limit : Nat) (t : Text) : Option (List Text) :=
  if delimiter ∈ t then SegmentPass.run? delimiter quote limit t 0 t .initial
  else some [t.trim]

end TagTemplate.Text
