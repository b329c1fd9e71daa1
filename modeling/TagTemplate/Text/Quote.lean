import TagTemplate.Text.Split

/-!
# Quoted texts

A text is quoted by putting it between backticks and writing every backtick in it twice. Reading a
quoted text back removes one pair of backticks from its ends, if there is one, and reads doubled
backticks as single ones; a text without quotes is read in the same way.
-/

namespace TagTemplate.Text

/-- Every backtick written twice. -/
def double (t : Text) : Text := t.flatMap fun c ↦ if c = quoteMark then [c, c] else [c]

/-- Every pair of backticks, from left to right, read as one. -/
def undouble : Text → Text
  | [] => []
  | [c] => [c]
  | c :: d :: t =>
    if c = quoteMark ∧ d = quoteMark then c :: undouble t else c :: undouble (d :: t)

/-- The text between backticks, with the backticks in it doubled. -/
def quote (t : Text) : Text := quoteMark :: double t ++ [quoteMark]

/-- The text without a pair of backticks around it. -/
def unwrapped (t : Text) : Text :=
  if 2 ≤ t.length ∧ t.head? = some quoteMark ∧ t.getLast? = some quoteMark then t.tail.dropLast
  else t

/-- The text that a quotation stands for. -/
def unquote (t : Text) : Text := undouble (unwrapped t)

/-! ### Reading a quotation back -/

theorem undouble_cons_of_ne {c : Char} (h : c ≠ quoteMark) (t : Text) :
    undouble (c :: t) = c :: undouble t := by
  cases t with
  | nil => rfl
  | cons d t => rw [undouble, if_neg fun hpair ↦ h hpair.1]

/-- Doubled backticks are read as single ones, also where several stand in a row. -/
theorem undouble_double (t : Text) : undouble (double t) = t := by
  induction t with
  | nil => rfl
  | cons c t ih =>
    rw [double, List.flatMap_cons, ← double]
    by_cases hmark : c = quoteMark
    · rw [if_pos hmark]
      show undouble (c :: c :: double t) = c :: t
      rw [undouble, if_pos ⟨hmark, hmark⟩, ih]
    · rw [if_neg hmark]
      show undouble (c :: double t) = c :: t
      rw [undouble_cons_of_ne hmark, ih]

@[simp] theorem head?_quote (t : Text) : (quote t).head? = some quoteMark := rfl

@[simp] theorem getLast?_quote (t : Text) : (quote t).getLast? = some quoteMark := by
  rw [quote, List.getLast?_append]
  rfl

theorem unwrapped_quote (t : Text) : unwrapped (quote t) = double t := by
  rw [unwrapped, if_pos ⟨by simp [quote], head?_quote t, getLast?_quote t⟩]
  simp [quote]

/-- A quoted text reads back as the text. -/
theorem unquote_quote (t : Text) : unquote (quote t) = t := by
  rw [unquote, unwrapped_quote, undouble_double]

end TagTemplate.Text
