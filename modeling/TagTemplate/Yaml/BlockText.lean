import TagTemplate.Text.Digit
import TagTemplate.Yaml.Character

/-!
# Block texts

A block text is written on lines of its own behind `|` or `>`. Its lines stand at one column, the
margin, which is where the first line with anything on it begins unless the header gives it. Behind
`|` every break stands for itself. Behind `>` a break between two lines is folded as in other texts,
but only between lines that both begin at the margin with something other than a blank.

What the breaks at the end come to is the header's choice (`Chomping`). A text is gathered line by
line as `BlockText`, which holds back the break of the last line and the empty lines after it.
-/

namespace TagTemplate.Yaml

/-- What becomes of the breaks at the end of a block text. -/
inductive Chomping
  /-- All are dropped. -/
  | strip
  /-- The first is kept. -/
  | clip
  /-- All are kept. -/
  | keep

/-- What the line of the indicator says about a block text. -/
structure BlockHeader where
  chomping : Chomping
  /-- How far the margin is from the column of the block around. -/
  indent : Option Nat

namespace BlockHeader

/-- The choice that a sign stands for. -/
def chomping? : Char → Option Chomping
  | '-' => some .strip
  | '+' => some .keep
  | _ => none

/-- The distance that a digit gives; zero is none. -/
def indent? (c : Char) : Option Nat := (Text.digit? 10 c).filter (0 < ·)

/-- Reads the rest of the line behind the indicator: a sign and a digit in either order, each of
which may be left out. -/
def read? (line : Text) : Option BlockHeader :=
  let header (chomping : Chomping) (indent : Option Nat) (t : Text) : Option BlockHeader :=
    if lineEnds t then some { chomping, indent } else none
  match line with
  | [] => header .clip none []
  | c :: t =>
    match chomping? c, indent? c, t with
    | some chomping, _, [] => header chomping none []
    | some chomping, _, d :: rest =>
      match indent? d with
      | some indent => header chomping (some indent) rest
      | none => header chomping none t
    | none, some indent, [] => header .clip (some indent) []
    | none, some indent, d :: rest =>
      match chomping? d with
      | some chomping => header chomping (some indent) rest
      | none => header .clip (some indent) t
    | none, none, _ => header .clip none line

end BlockHeader

/-- A block text gathered so far, the last character first. -/
structure BlockText where
  /-- Whether breaks are folded. -/
  folds : Bool
  chomping : Chomping
  /-- The margin, once it is known. -/
  margin : Option Nat
  /-- The least margin that a line can give. -/
  least : Nat
  written : Text := []
  /-- The break behind the last line. -/
  ending : Text := []
  /-- The breaks of the empty lines behind it. -/
  empties : Text := []
  /-- Whether the last line began with a blank. -/
  indented : Bool := false

namespace BlockText

/-- Nothing gathered, behind an indicator inside the block at the column, if there is one. -/
def ofHeader (folds : Bool) (h : BlockHeader) (block : Option Nat) : BlockText where
  folds
  chomping := h.chomping
  margin := h.indent.map (block.getD 0 + ·)
  least := (block.map (· + 1)).getD 0

/-- Whether the column is left of the margin, as far as that is known. -/
def isOutside (b : BlockText) (column : Nat) : Bool := b.margin.all (column < ·)

/-- Meets the column where a line ends that has nothing on it. -/
def widen (b : BlockText) (column : Nat) : BlockText := { b with least := max b.least column }

/-- Takes the margin from the first line with anything on it, which begins at the column. -/
def settle (b : BlockText) (column : Nat) : BlockText :=
  { b with margin := b.margin.getD (max 1 (max b.least column)) }

/-- Meets the first character of a line. -/
def startLine (b : BlockText) (c : Char) : BlockText :=
  let indented := isWhite c
  let bridge :=
    if b.folds && b.ending = ['\n'] && !b.indented && !indented then
      if b.empties.isEmpty then [' '] else b.empties
    else b.empties ++ b.ending
  { b with written := c :: bridge ++ b.written, ending := [], empties := [], indented }

/-- Meets a further character of a line. -/
def push (b : BlockText) (c : Char) : BlockText := { b with written := c :: b.written }

/-- Meets the break behind a line. -/
def endLine (b : BlockText) (c : Char) : BlockText := { b with ending := [c] }

/-- Meets the break behind a line that has nothing on it. -/
def emptyLine (b : BlockText) (c : Char) : BlockText := { b with empties := c :: b.empties }

/-- The text. -/
def content (b : BlockText) : Text :=
  let kept := match b.chomping with
    | .strip => []
    | .clip => b.ending
    | .keep => b.empties ++ b.ending
  (kept ++ b.written).reverse

end BlockText

end TagTemplate.Yaml
