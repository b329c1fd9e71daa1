import TagTemplate.Text.Blank

/-!
# Splitting with a quote

Tag names, property strings and legacy values are split at one delimiter character, except where
the delimiter stands between a pair of quote characters. Every quote toggles whether what follows is
quoted; quotes stay in the pieces, and removing them is the reader's business.

`pieces` cuts and `split` tidies: pieces are trimmed, empty ones are dropped and a limit keeps the
first few of those that are left. A text without the delimiter is one segment, even when trimming
leaves nothing of it.
-/

namespace TagTemplate.Text

/-- The quote character of tag syntax. -/
def quoteMark : Char := '`'

/-- The text cut at the delimiters that are not quoted, where `quoted` says whether the text begins
inside a quotation. A delimiter that is also the quote never cuts. -/
def pieces (delimiter quote : Char) : (quoted : Bool) → Text → List Text
  | _, [] => [[]]
  | quoted, c :: t =>
    if c = quote then (pieces delimiter quote (!quoted) t).modifyHead (c :: ·)
    else if c = delimiter ∧ quoted = false then [] :: pieces delimiter quote false t
    else (pieces delimiter quote quoted t).modifyHead (c :: ·)

/-- The trimmed pieces of which something is left. -/
def segments (delimiter quote : Char) (t : Text) : List Text :=
  ((pieces delimiter quote false t).map trim).filter fun piece ↦ !piece.isEmpty

/-- The segments of the text, at most `limit` of them when `limit` is positive; what follows the
last one taken is discarded. -/
def splitQuoted (delimiter quote : Char) (limit : Nat) (t : Text) : List Text :=
  if delimiter ∈ t then
    if limit = 0 then segments delimiter quote t else (segments delimiter quote t).take limit
  else [trim t]

/-- The segments of the text with backticks as quotes, without a limit. -/
def split (delimiter : Char) (t : Text) : List Text := splitQuoted delimiter quoteMark 0 t

theorem pieces_ne_nil (delimiter quote : Char) (quoted : Bool) (t : Text) :
    pieces delimiter quote quoted t ≠ [] := by
  induction t generalizing quoted with
  | nil => simp [pieces]
  | cons c t ih =>
    rw [pieces]
    split
    · simpa [List.modifyHead_eq_nil_iff] using ih _
    · split
      · simp
      · simpa [List.modifyHead_eq_nil_iff] using ih _

end TagTemplate.Text
