import TagTemplate.Text.Basic

/-!
# Characters of YAML text

YAML text is made of lines, and what a character means depends on what stands around it: a dash or a
colon means something only in front of a blank, a tab, a break or the end. Six spellings of a line
break are known. `unifyBreaks` reduces them to three, which are told apart because a line or
paragraph separator keeps its spelling where a break becomes part of a text.
-/

namespace TagTemplate.Yaml

/-- Whether the character may occur in YAML text. -/
def isAllowed (c : Char) : Bool :=
  let n := c.toNat
  c = '\t' || c = '\n' || c = '\r' || (0x20 ≤ n && n ≤ 0x7E) || n = 0x85 ||
    (0xA0 ≤ n && n ≤ 0xFFFD) || 0x10000 ≤ n

/-- The text with the returns, feeds and next-line controls that break lines spelled alike. -/
def unifyBreaks : Text → Text
  | [] => []
  | '\r' :: '\n' :: t => '\n' :: unifyBreaks t
  | c :: t => (if c = '\r' ∨ c = '\u0085' then '\n' else c) :: unifyBreaks t

/-- Whether the character ends a line. -/
def isBreak (c : Char) : Bool := c = '\n' || c = '\u2028' || c = '\u2029'

/-- Whether the character is a blank or a tab. -/
def isWhite (c : Char) : Bool := c = ' ' || c = '\t'

/-- Whether the character separates what stands on both sides of it. -/
def isGap (c : Char) : Bool := isWhite c || isBreak c

/-- Whether nothing or a gap follows. -/
def gapFollows (t : Text) : Bool := t.head?.all isGap

/-- What is left of the line. -/
def restOfLine (t : Text) : Text := t.takeWhile fun c ↦ !isBreak c

/-- Whether a line ends here, after blanks and maybe a comment. -/
def lineEnds (t : Text) : Bool := (t.dropWhile isWhite).head?.all (· = '#')

/-- Whether a document mark of the given character begins here. -/
def isMark (mark : Char) (t : Text) : Bool :=
  t.startsWith [mark, mark, mark] && gapFollows (t.drop 3)

/-- Whether a document mark begins here. -/
def isAnyMark (t : Text) : Bool := isMark '-' t || isMark '.' t

/-- Whether the character may occur in the name of an anchor, a handle or a directive. -/
def isNameChar (c : Char) : Bool := c.isAlphanum || c = '-' || c = '_'

/-- The characters that have a meaning of their own in flow style. -/
def flowMarks : List Char := [',', '[', ']', '\x7b', '\x7d']

end TagTemplate.Yaml
