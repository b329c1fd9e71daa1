import TagTemplate.Dict
import TagTemplate.Disk.Path

/-!
# Disks

A disk is a tree of folders and files, held as a dictionary from absolute paths in plain form, which
have names only, to what is there. A path is followed piece by piece (`Disk.walk`): every piece
needs a folder to start from, so `..` behind a file or behind nothing leads nowhere, although a
reading of the bare text would cancel it against the piece before.

Following a path or reading a file fails in two ways that callers tell apart: what was looked for
may be missing, or it may be there and refuse.
-/

namespace TagTemplate

/-- What stands at a place of a disk. -/
inductive Entry
  | folder
  /-- A file; it has a content unless its bytes are no text. -/
  | file (content : Option Text)
deriving DecidableEq, Repr

/-- Why a path does not lead to a text. -/
inductive PathError
  /-- There is nothing at the path. -/
  | missing
  /-- Something stands in the way, or what is there is no text. -/
  | blocked
deriving DecidableEq, Repr

/-- A place on a disk: the names on the way to it, the innermost first. -/
abbrev Location := List Text

/-- The absolute path of a location. -/
def Location.path (location : Location) : Path := location.reverse.flatMap ('/' :: ·)

/-- Folders and files, and the folder that relative paths start from. -/
structure Disk where
  entries : Dict Entry
  working : Location := []

namespace Disk

/-- The greatest number of bytes of a name. -/
def nameLimit : Nat := 255

/-- The number of bytes that a path does not reach. -/
def pathLimit : Nat := 4096

/-- The disk without files. -/
def empty : Disk := ⟨.empty, []⟩

/-- What stands at a location; the root is always a folder. -/
def at? (d : Disk) (location : Location) : Option Entry :=
  if location.isEmpty then some .folder else d.entries.get? location.path

/-- The location that pieces lead to from a location. Only the last of them may name what is not
there. -/
def walk (d : Disk) : Location → List Text → Except PathError Location
  | location, [] => .ok location
  | location, piece :: pieces =>
    match d.at? location with
    | none => .error .missing
    | some (.file _) => .error .blocked
    | some .folder =>
      match Path.component? piece with
      | some .up => walk d location.tail pieces
      | some (.name piece) =>
        if nameLimit < piece.size then .error .blocked else walk d (piece :: location) pieces
      | _ => walk d location pieces

/-- The location that a path leads to. -/
def locate (d : Disk) (p : Path) : Except PathError Location :=
  if '\x00' ∈ p ∨ pathLimit ≤ p.size then .error .blocked
  else if p.isEmpty then .error .missing
  else d.walk (if p.isAbsolute then [] else d.working) (Text.splitAt '/' p)

/-- What stands at the end of a path. -/
def find? (d : Disk) (p : Path) : Option Entry :=
  match d.locate p with
  | .ok location => d.at? location
  | .error _ => none

/-- Whether the path leads to a folder. -/
def isFolder (d : Disk) (p : Path) : Bool :=
  match d.find? p with
  | some .folder => true
  | _ => false

/-- Whether the path leads to a file. -/
def isFile (d : Disk) (p : Path) : Bool :=
  match d.find? p with
  | some (.file _) => true
  | _ => false

/-- The text of the file that the path leads to. -/
def read (d : Disk) (p : Path) : Except PathError Text := do
  match d.at? (← d.locate p) with
  | none => .error .missing
  | some (.file (some text)) => .ok text
  | some _ => .error .blocked

/-- Puts an entry at a location, and folders on the way to it. -/
def put (d : Disk) : Location → Entry → Disk
  | [], _ => d
  | name :: location, entry =>
    let d := match d.at? location with
      | some .folder => d
      | _ => d.put location .folder
    { d with entries := d.entries.insert (Location.path (name :: location)) entry }

/-- Removes what stands at a location. -/
def remove (d : Disk) (location : Location) : Disk :=
  { d with entries := d.entries.erase location.path }

/-- Writes a text to the file at the end of a path, a new one if none is there. The folder that it
stands in is not made. -/
def write? (d : Disk) (p : Path) (text : Text) : Option Disk :=
  match d.locate p with
  | .ok location =>
    if d.at? location = some .folder then none else some (d.put location (.file (some text)))
  | .error _ => none

end Disk

end TagTemplate
