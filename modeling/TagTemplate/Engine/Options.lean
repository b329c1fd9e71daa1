import TagTemplate.Json.Basic
import TagTemplate.Markup.Basic

/-!
# Engine options

The options of an engine hold for all it resolves. They can be read from JSON: an object names the
options that differ from the default, a list gives them by position.
-/

namespace TagTemplate

/-- Which text wins when a tag passes a property that the store has too. -/
inductive Precedence
  | storeWins | explicitWins
deriving DecidableEq, Repr

/-- The options of an engine. -/
structure Options where
  /-- The greatest number of passes over the content of a tag. -/
  maxIterations : Nat := 10
  /-- The greatest number of tags resolved inside one another; zero is no limit. -/
  maxNesting : Nat := 100
  precedence : Precedence := .storeWins
  /-- What a placeholder name is tried with when it is not stored as written. -/
  sitePrefix : Text := ['+']
  delimiters : Delimiters := .brackets
deriving DecidableEq, Repr

namespace Options

/-- The options that nothing was said about. -/
def default : Options := {}

/-- A count: a natural number below `2 ^ 64`. -/
def count? : Json → Option Nat
  | .scalar (.num (.int (.ofNat n))) => if n ≤ 0xFFFFFFFFFFFFFFFF then some n else none
  | _ => none

/-- A text. -/
def text? : Json → Option Text
  | .scalar (.str t) => some t
  | _ => none

/-- The precedence of the given name. -/
def precedenceNamed? (name : Text) : Option Precedence :=
  if name = "store_wins".toList then some .storeWins
  else if name = "explicit_wins".toList then some .explicitWins
  else none

/-- A precedence: its name, or an object whose one key is the name. -/
def precedence? : Json → Option Precedence
  | .scalar (.str name) => precedenceNamed? name
  | .object [(name, .null)] => precedenceNamed? name
  | _ => none

/-- The names of the options, in the order of their positions. -/
def names : List Text :=
  ["max_iterations".toList, "max_nesting".toList, "precedence".toList, "site_prefix".toList,
    "prefix".toList, "suffix".toList]

/-- Reads options from what is said about the option of each name. -/
def ofEntries? (given : Text → Option Json) : Option Options := do
  let read {α : Type} (name : String) (reader : Json → Option α) (default : α) : Option α :=
    match given name.toList with
    | some j => reader j
    | none => some default
  let maxIterations ← read "max_iterations" count? default.maxIterations
  let maxNesting ← read "max_nesting" count? default.maxNesting
  let precedence ← read "precedence" precedence? default.precedence
  let sitePrefix ← read "site_prefix" text? default.sitePrefix
  let opening ← read "prefix" text? default.delimiters.opening
  let closing ← read "suffix" text? default.delimiters.closing
  return { maxIterations, maxNesting, precedence, sitePrefix, delimiters := ⟨opening, closing⟩ }

/-- Reads options from JSON. Unknown names of an object are passed over; a list longer than the
options is refused. -/
def ofJson? : Json → Option Options
  | .object fields => ofEntries? fun name ↦ fields.lookup name
  | .list items =>
    if items.length ≤ names.length then ofEntries? fun name ↦ (names.zip items).lookup name else none
  | _ => none

end Options

end TagTemplate
