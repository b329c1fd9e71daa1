import TagTemplate.Text.Digit
import TagTemplate.Yaml.Character

/-!
# Folded text

A YAML text may run over several lines, and means one line then: a line break between two words is a
blank, and only the further ones of several breaks in a row stand for breaks. A line or paragraph
separator always stands for itself. Blanks on both sides of a break are dropped. A text is gathered
character by character as `Folded`, which holds back the blanks and breaks it has met last until it
is known whether something follows.

Between quotes a quote has to be written differently: twice between single quotes, and behind a
backslash between double quotes, where other escapes are possible as well.
-/

namespace TagTemplate.Yaml

/-- A text gathered so far, the last character first. -/
structure Folded where
  written : Text := []
  /-- What the blanks and breaks met last stand for, if something follows. -/
  gap : Text := []
  /-- Whether a break was among them. -/
  broken : Bool := false

namespace Folded

/-- Nothing gathered. -/
def empty : Folded := {}

/-- Meets a character that is neither blank nor break. -/
def push (f : Folded) (c : Char) : Folded := { written := c :: f.gap ++ f.written }

/-- Meets a blank. -/
def blank (f : Folded) (c : Char) : Folded := if f.broken then f else { f with gap := c :: f.gap }

/-- Meets a break, spelled `c`. -/
def newline (f : Folded) (c : Char) : Folded :=
  if f.broken then { f with gap := if f.gap = [' '] then [c] else c :: f.gap }
  else { f with gap := [if c = '\n' then ' ' else c], broken := true }

/-- Meets a break that is escaped, and stands for nothing. -/
def continued (f : Folded) : Folded := { written := f.gap ++ f.written, broken := true }

/-- Meets any character. -/
def feed (f : Folded) (c : Char) : Folded :=
  if isBreak c then f.newline c else if isWhite c then f.blank c else f.push c

/-- The text without what was held back. -/
def trimmed (f : Folded) : Text := f.written.reverse

/-- The text with what was held back. -/
def full (f : Folded) : Text := (f.gap ++ f.written).reverse

end Folded

/-- Reads what stands between single quotes. -/
def single (f : Folded) : Text → Text
  | [] => f.full
  | '\'' :: '\'' :: t => single (f.push '\'') t
  | c :: t => single (f.feed c) t

/-- The character of an escape of one letter. -/
def shortEscape? (c : Char) : Option Char :=
  match c with
  | '0' => some '\x00'
  | 'a' => some '\x07'
  | 'b' => some '\x08'
  | 't' | '\t' => some '\t'
  | 'n' => some '\n'
  | 'v' => some '\x0b'
  | 'f' => some '\x0c'
  | 'r' => some '\r'
  | 'e' => some '\x1b'
  | 'N' => some '\u0085'
  | '_' => some '\u00a0'
  | 'L' => some '\u2028'
  | 'P' => some '\u2029'
  | ' ' | '"' | '/' | '\\' => some c
  | _ => none

/-- The character with the code that the hexadecimal digits write. -/
def ofCode? (digits : Text) : Option Char := do
  let n ← Text.number? 16 digits
  if n.isValidChar then some (Char.ofNat n) else none

/-- Reads what stands between double quotes. -/
def double? (f : Folded) : Text → Option Text
  | [] => some f.full
  | '\\' :: 'x' :: a :: b :: t => do double? (f.push (← ofCode? [a, b])) t
  | '\\' :: 'u' :: a :: b :: c :: d :: t => do double? (f.push (← ofCode? [a, b, c, d])) t
  | '\\' :: 'U' :: a :: b :: c :: d :: e :: g :: h :: i :: t => do
    double? (f.push (← ofCode? [a, b, c, d, e, g, h, i])) t
  | '\\' :: c :: t => do
    if isBreak c then double? f.continued t else double? (f.push (← shortEscape? c)) t
  | c :: t => if c = '\\' then none else double? (f.feed c) t

/-- Reads what stands between two quotes of the given kind. -/
def quoted? (quote : Char) (inside : Text) : Option Text :=
  if quote = '\'' then some (single .empty inside) else double? .empty inside

end TagTemplate.Yaml
