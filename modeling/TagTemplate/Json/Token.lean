import TagTemplate.Json.Basic
import TagTemplate.Text.Digit

/-!
# JSON tokens

JSON text is read in two steps: the text is cut into tokens, and the tokens are read as a value. The
cut is one walk over the characters. Outside strings, the characters between blanks and marks form a
word, and a word must be one of the three literals or a number; inside strings the characters up to
the closing quote are gathered as written and decoded when the string ends.

The grammar is the strict one: no leading zeros, no raw control characters in strings, no escape of
half a surrogate pair. A number without a fraction and an exponent is an integer when it fits
64 bits, signed or unsigned; every other number is a float, `-0` included.
-/

namespace TagTemplate.Json

/-- A token of JSON text. -/
inductive Token
  | openList | closeList | openObject | closeObject | comma | colon
  | null
  | scalar (value : Scalar)

/-! ### Numbers -/

/-- The greatest number that the digits of a number are gathered into. -/
def greatestDigits : Nat := 0xFFFFFFFFFFFFFFFF

/-- Reads digits into a number as long as it does not outgrow `greatestDigits`; answers the number
and the digits left. -/
def gather (n : Nat) : List Nat → Nat × List Nat
  | [] => (n, [])
  | d :: ds => if n * 10 + d ≤ greatestDigits then gather (n * 10 + d) ds else (n, d :: ds)

/-- The fraction of a number: the digits behind a point, at least one, or none without a point. -/
def fraction? : Text → Option (Option (List Nat) × Text)
  | '.' :: t =>
    let (ds, rest) := Text.takeDigits 10 t
    if ds.isEmpty then none else some (some ds, rest)
  | t => some (none, t)

/-- The exponent that ends a number: digits, at least one, behind `e` and maybe a sign. -/
def exponent? : Text → Option (Option Int)
  | [] => some none
  | e :: t =>
    if e = 'e' ∨ e = 'E' then
      let (negative, t) := match t with
        | '-' :: t => (true, t)
        | '+' :: t => (false, t)
        | t => (false, t)
      let (ds, rest) := Text.takeDigits 10 t
      if ds.isEmpty ∨ !rest.isEmpty then none
      else
        let n : Int := Text.ofDigits 10 ds
        some (some (if negative then -n else n))
    else none

/-- The float of a number from its parts. Digits beyond those that fit are dropped: a digit of the
whole part then still counts as a power of ten, one of the fraction does not count. -/
def floatOf? (negative : Bool) (whole fraction : List Nat) (exponent : Int) : Option Binary64 :=
  let (n, dropped) := gather 0 whole
  let (m, unread) := gather n fraction
  let read : Nat := fraction.length - unread.length
  Binary64.scaled? negative m (exponent + dropped.length - read)

/-- Reads a word as a number. -/
def number? (word : Text) : Option Number :=
  let (negative, t) := match word with
    | '-' :: t => (true, t)
    | t => (false, t)
  let (whole, t) := Text.takeDigits 10 t
  if whole.isEmpty ∨ (whole.head? = some 0 ∧ 1 < whole.length) then none
  else do
    let (fraction, t) ← fraction? t
    let exponent ← exponent? t
    let n := Text.ofDigits 10 whole
    if fraction.isNone ∧ exponent.isNone ∧
        (if negative then 0 < n ∧ n ≤ 0x8000000000000000 else n ≤ greatestDigits) then
      some (.int (if negative then -n else n))
    else
      (floatOf? negative whole (fraction.getD []) (exponent.getD 0)).map .float

/-! ### Strings -/

/-- The number written by four hexadecimal digits. -/
def hex4? (a b c d : Char) : Option Nat := Text.number? 16 [a, b, c, d]

/-- The character of an escape of one letter. -/
def shortEscape? (c : Char) : Option Char :=
  match c with
  | '"' => some '"'
  | '\\' => some '\\'
  | '/' => some '/'
  | 'b' => some '\x08'
  | 'f' => some '\x0c'
  | 'n' => some '\n'
  | 'r' => some '\r'
  | 't' => some '\t'
  | _ => none

/-- The character of a leading and a trailing surrogate. -/
def ofSurrogates? (high low : Nat) : Option Char :=
  if 0xD800 ≤ high ∧ high < 0xDC00 ∧ 0xDC00 ≤ low ∧ low < 0xE000 then
    some (Char.ofNat (0x10000 + (high - 0xD800) * 0x400 + (low - 0xDC00)))
  else none

/-- The character of an escape of four hexadecimal digits, unless it is half a surrogate pair. -/
def ofUnit? (unit : Nat) : Option Char :=
  if 0xD800 ≤ unit ∧ unit < 0xE000 then none else some (Char.ofNat unit)

/-- Decodes the inside of a string. -/
def unescape? : Text → Option Text
  | [] => some []
  | '\\' :: 'u' :: a :: b :: c :: d :: '\\' :: 'u' :: e :: f :: g :: h :: t => do
    let first ← hex4? a b c d
    match ofUnit? first with
    | some char =>
      let rest ← unescape? ('\\' :: 'u' :: e :: f :: g :: h :: t)
      return char :: rest
    | none =>
      let char ← ofSurrogates? first (← hex4? e f g h)
      let rest ← unescape? t
      return char :: rest
  | '\\' :: 'u' :: a :: b :: c :: d :: t => do
    let char ← ofUnit? (← hex4? a b c d)
    let rest ← unescape? t
    return char :: rest
  | '\\' :: c :: t => do
    let char ← shortEscape? c
    let rest ← unescape? t
    return char :: rest
  | c :: t => do
    if c = '\\' ∨ c.toNat < 0x20 then none
    let rest ← unescape? t
    return c :: rest

/-! ### The cut -/

/-- The token of a character that is one. -/
def mark? (c : Char) : Option Token :=
  match c with
  | '[' => some .openList
  | ']' => some .closeList
  | '\x7b' => some .openObject
  | '\x7d' => some .closeObject
  | ',' => some .comma
  | ':' => some .colon
  | _ => none

/-- Whether the character may stand between tokens. -/
def isGap (c : Char) : Bool := c = ' ' || c = '\n' || c = '\r' || c = '\t'

/-- The token of a word. -/
def word? (word : Text) : Option Token :=
  if word = "null".toList then some .null
  else if word = "true".toList then some (.scalar (.bool true))
  else if word = "false".toList then some (.scalar (.bool false))
  else (number? word).map fun n ↦ .scalar (.num n)

/-- Where the walk is: outside strings, behind the given characters of a word (the last one first),
or inside a string, likewise. -/
inductive Place
  | outside (word : Text)
  | inside (written : Text)

/-- The token of the word gathered so far, if there is one. -/
def wordToken (word : Text) : Option (List Token) :=
  if word.isEmpty then some [] else (word? word.reverse).map ([·])

/-- The tokens of the text. -/
def tokens? : Place → Text → Option (List Token)
  | .outside word, [] => wordToken word
  | .inside _, [] => none
  | .inside written, '\\' :: c :: t => tokens? (.inside (c :: '\\' :: written)) t
  | .inside written, c :: t =>
    if c = '"' then do
      let string ← unescape? written.reverse
      let rest ← tokens? (.outside []) t
      return .scalar (.str string) :: rest
    else tokens? (.inside (c :: written)) t
  | .outside word, c :: t =>
    if c = '"' then do
      let before ← wordToken word
      let rest ← tokens? (.inside []) t
      return before ++ rest
    else if isGap c then do
      let before ← wordToken word
      let rest ← tokens? (.outside []) t
      return before ++ rest
    else
      match mark? c with
      | some mark => do
        let before ← wordToken word
        let rest ← tokens? (.outside []) t
        return before ++ mark :: rest
      | none => tokens? (.outside (c :: word)) t

end TagTemplate.Json
