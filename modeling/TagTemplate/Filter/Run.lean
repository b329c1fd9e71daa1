import TagTemplate.Filter.Argument
import TagTemplate.Filter.Chain
import TagTemplate.Text.Replacement

/-!
# Running filters

The filters of a tag run from left to right over its output. Beside the text they share a condition
that is unset, true or false: `is` and `isnot` set it, `then` and `else` fire on it and unset it
when they do. Methods that need a value do nothing without one, and unknown methods do nothing at
all.
-/

namespace TagTemplate

/-- What a filter does. -/
inductive FilterMethod
  | is | isNot | thenDo | elseDo | default | notEmpty | trim | replace
deriving DecidableEq, Repr

/-- The method with the given name in tag syntax. -/
def FilterMethod.ofName? (name : Text) : Option FilterMethod :=
  if name = "is".toList then some is
  else if name = "isnot".toList then some isNot
  else if name = "then".toList then some thenDo
  else if name ∈ ["else".toList, "otherwise".toList] then some elseDo
  else if name ∈ ["default".toList, "isempty".toList] then some default
  else if name = "notempty".toList then some notEmpty
  else if name = "trim".toList then some trim
  else if name = "replace".toList then some replace
  else none

/-- The text being filtered and the condition of the filters before. -/
structure Filtering where
  text : Text
  condition : Option Bool
deriving DecidableEq, Repr

namespace Filtering

/-- A text before its first filter. -/
def start (t : Text) : Filtering := ⟨t, none⟩

/-- Replaces the text by the value and unsets the condition, if the condition is the wanted one. -/
def branch (wanted : Bool) (f : Filtering) (value : Text) : Filtering :=
  if f.condition = some wanted then ⟨value, none⟩ else f

/-- What a method does with a value. -/
def applyValue (f : Filtering) (value : Text) : FilterMethod → Filtering
  | .is => { f with condition := some (f.text = value) }
  | .isNot => { f with condition := some (f.text ≠ value) }
  | .thenDo => f.branch true value
  | .elseDo => f.branch false value
  | .default => if f.text.isEmpty then { f with text := value } else f
  | .notEmpty => if f.text.isEmpty then f else { f with text := value }
  | .trim => { f with text := if value.isEmpty then f.text.trim else f.text.trimWhere (· ∈ value) }
  | .replace => f

/-- What a method does with an argument. -/
def apply (f : Filtering) (method : FilterMethod) (argument : FilterArgument) : Filtering :=
  match method, argument.value? with
  | .replace, _ =>
    if argument.isTable then { f with text := f.text.replaceAll argument.entries.entries } else f
  | .trim, none => { f with text := f.text.trim }
  | _, none => f
  | method, some value => f.applyValue value method

/-- Runs one filter. -/
def step (f : Filtering) (filter : FilterStep) : Filtering :=
  match FilterMethod.ofName? filter.method with
  | some method => f.apply method (.parse filter.argument)
  | none => f

end Filtering

/-- The text after all filters. -/
def FilterChain.apply (chain : FilterChain) (t : Text) : Text :=
  (chain.foldl Filtering.step (.start t)).text

end TagTemplate
