import TagTemplate.Text.Basic

/-!
# Simultaneous replacement

A list of rules, each a search text and its replacement, is applied to a text in one pass from left
to right. At every position the longest search text found there wins, and among rules with the same
search text the first one; its replacement is emitted and the pass goes on behind the match. So a
replacement is never searched again, and a text that no rule matches is copied.
-/

namespace TagTemplate.Text

/-- A search text and what to put in its place. -/
abbrev Rule := Text × Text

/-- Of two rules, the one that reads more; the first one if they read equally much. -/
def longer (first second : Option Rule) : Option Rule :=
  match first, second with
  | none, second => second
  | first, none => first
  | some first, some second => if second.1.length > first.1.length then some second else some first

/-- The rule that applies at the start of the text, if any does: of the rules whose search text is
not empty and begins the text, the first among the longest. -/
def ruleAt? (rules : List Rule) (t : Text) : Option Rule :=
  match rules with
  | [] => none
  | rule :: rules =>
    longer (if !rule.1.isEmpty && t.startsWith rule.1 then some rule else none) (ruleAt? rules t)

/-- Replaces in the text behind the first `skip` characters, which a match has already consumed. -/
def replaceFrom (rules : List Rule) : (skip : Nat) → Text → Text
  | _, [] => []
  | skip + 1, _ :: t => replaceFrom rules skip t
  | 0, c :: t =>
    match ruleAt? rules (c :: t) with
    | some (search, replacement) => replacement ++ replaceFrom rules (search.length - 1) t
    | none => c :: replaceFrom rules 0 t

/-- The text with every match replaced. -/
def replaceAll (rules : List Rule) (t : Text) : Text := replaceFrom rules 0 t

/-- Skipping consumes characters and nothing else. -/
theorem replaceFrom_eq_drop (rules : List Rule) (skip : Nat) (t : Text) :
    replaceFrom rules skip t = replaceAll rules (t.drop skip) := by
  induction t generalizing skip with
  | nil => simp [replaceAll, replaceFrom]
  | cons c t ih =>
    cases skip with
    | zero => rfl
    | succ skip => rw [replaceFrom, ih, List.drop_succ_cons]

@[simp] theorem replaceAll_nil (rules : List Rule) : replaceAll rules [] = [] := rfl

end TagTemplate.Text
