import TagTemplate.Text.Basic

/-!
# Digits

Numbers are written in digits of a radix up to sixteen. A text of digits is read from the left, as
far as the digits go (`takeDigits`) or as a whole (`digits?`).
-/

namespace TagTemplate.Text

/-- The value of a character as a digit below the radix. -/
def digit? (radix : Nat) (c : Char) : Option Nat :=
  let value :=
    if c.isDigit then some (c.toNat - '0'.toNat)
    else if 'a' ≤ c ∧ c ≤ 'f' then some (c.toNat - 'a'.toNat + 10)
    else if 'A' ≤ c ∧ c ≤ 'F' then some (c.toNat - 'A'.toNat + 10)
    else none
  value.filter (· < radix)

/-- The digits at the start of a text, and the rest. -/
def takeDigits (radix : Nat) : Text → List Nat × Text
  | [] => ([], [])
  | c :: t =>
    match digit? radix c with
    | some d => let (ds, rest) := takeDigits radix t; (d :: ds, rest)
    | none => ([], c :: t)

/-- The digits of a text that consists of digits. -/
def digits? (radix : Nat) (t : Text) : Option (List Nat) := t.mapM (digit? radix)

/-- The number that digits write. -/
def ofDigits (radix : Nat) (digits : List Nat) : Nat := digits.foldl (fun n d ↦ n * radix + d) 0

/-- The number that a text of digits writes, at least one. -/
def number? (radix : Nat) (t : Text) : Option Nat :=
  if t.isEmpty then none else (digits? radix t).map (ofDigits radix)

end TagTemplate.Text
