import TagTemplate.Text.Basic

/-!
# Blank characters and trimming

A character is blank when Unicode gives it the property `White_Space`. The property is wider than
the blanks of ASCII: the next-line control, the no-break spaces and the spaces of the general
punctuation block belong to it, the zero-width space and the byte order mark do not.

Trimming removes the longest run of characters of a class from both ends (`trimWhere`); the
characters between the ends stay, of whatever class they are.
-/

namespace TagTemplate.Text

/-- The code points of the property `White_Space`, as closed ranges. -/
def blankRanges : List (Nat × Nat) :=
  [(0x09, 0x0D), (0x20, 0x20), (0x85, 0x85), (0xA0, 0xA0), (0x1680, 0x1680), (0x2000, 0x200A),
    (0x2028, 0x2029), (0x202F, 0x202F), (0x205F, 0x205F), (0x3000, 0x3000)]

/-- Whether the character is blank. -/
def isBlank (c : Char) : Bool := blankRanges.any fun (low, high) ↦ low ≤ c.toNat && c.toNat ≤ high

/-- The text without the characters of the class at its two ends. -/
def trimWhere (class? : Char → Bool) (t : Text) : Text :=
  ((t.dropWhile class?).reverse.dropWhile class?).reverse

/-- The text without the blanks at its two ends. -/
def trim (t : Text) : Text := trimWhere isBlank t

@[simp] theorem trim_nil : trim [] = [] := rfl

/-- A text that neither begins nor ends with a character of the class is left alone. -/
theorem trimWhere_eq_self {class? : Char → Bool} {t : Text} (hd : ∀ c ∈ t.head?, class? c = false)
    (hl : ∀ c ∈ t.getLast?, class? c = false) : trimWhere class? t = t := by
  have key : ∀ s : Text, (∀ c ∈ s.head?, class? c = false) → s.dropWhile class? = s := by
    intro s hs
    cases s with
    | nil => rfl
    | cons c s => rw [List.dropWhile_cons_of_neg (by simp [hs c rfl])]
  rw [trimWhere, key t hd, key t.reverse (by simpa using hl), List.reverse_reverse]

end TagTemplate.Text
