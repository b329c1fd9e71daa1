import TagTemplate.Text.Basic

/-!
# YAML documents

A YAML document is made of texts, lists and mappings, each of which may carry a tag, and of aliases,
which stand for other parts of the document. A text remembers whether it was written plainly,
because only a plain text can mean something other than itself. The keys of a mapping are parts of
any kind; they are kept in the order they were written in, repeated ones included.

An alias can stand for a part that contains it, and a few aliases can stand for very much, so a
document is never expanded. What is read from it is read as a `Reading`, which may follow only so
many aliases.
-/

namespace TagTemplate

/-- A part of a YAML document. -/
inductive Yaml
  | text (tag : Option Text) (content : Text) (plain : Bool)
  | list (tag : Option Text) (items : List Yaml)
  | mapping (tag : Option Text) (fields : List (Yaml × Yaml))
  /-- What stands for the part with the anchor of this number. -/
  | aliasOf (anchor : Nat)

namespace Yaml

/-- A document. -/
structure Document where
  root : Yaml
  /-- For the number of an anchor, the rank of the part that it is at; the first entry counts. -/
  ranks : List (Nat × Nat) := []
  /-- The parts with anchors by their ranks. -/
  parts : List (Nat × Yaml) := []
  /-- How many texts, aliases and ends of collections the document is made of. -/
  size : Nat := 1

/-- Reads something from a document; the state is the number of aliases that may still be
followed. -/
abbrev Reading := StateT Nat Option

namespace Document

/-- The number of aliases that may be followed. -/
def patience (d : Document) : Nat := d.size * 100

/-- Reads the whole document. -/
def readWith {α : Type} (d : Document) (reading : Reading α) : Option α :=
  (·.1) <$> reading.run d.patience

/-- The part, or what it stands for if it is an alias. -/
def follow (d : Document) : Yaml → Reading Yaml
  | .aliasOf anchor => do
    let patience ← get
    if patience = 0 then failure
    set (patience - 1)
    let part : Option Yaml := do d.parts.lookup (← d.ranks.lookup anchor)
    part
  | part => pure part

/-- Reads a text as it stands, whatever its tag. -/
def text (d : Document) (part : Yaml) : Reading Text := do
  match ← d.follow part with
  | .text _ content _ => pure content
  | _ => failure

/-- Reads the fields of a mapping, whose keys have to be texts. -/
def fields (d : Document) (part : Yaml) : Reading (List (Text × Yaml)) := do
  match ← d.follow part with
  | .mapping _ fields => fields.mapM fun (key, value) ↦ return (← d.text key, value)
  | _ => failure

end Document

end Yaml

end TagTemplate
