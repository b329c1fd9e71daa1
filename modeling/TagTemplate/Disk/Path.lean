import TagTemplate.Text.Basic

/-!
# Paths

A path is a text with `/` between its pieces. It is kept as it was written, because messages show it
so; what it means is its list of `Component`s, in which empty pieces and pieces `.` have no part,
except for a `.` that begins a relative path.

Joining is concatenation, unless the second path is absolute and replaces the first (`Path.join`). A
path that consists of names only goes down: joined to another path it adds its names to the
components of that path.
-/

namespace TagTemplate

/-- A path as it is written. -/
abbrev Path := Text

/-- A step of a path. -/
inductive Component
  /-- The start of an absolute path. -/
  | root
  /-- The `.` that begins a relative path. -/
  | here
  /-- A piece `..`. -/
  | up
  /-- A piece that names a file or a folder. -/
  | name (piece : Text)
deriving DecidableEq, Repr

/-- Whether the component is the name of a file or a folder. -/
def Component.isName : Component → Bool
  | .name _ => true
  | _ => false

namespace Path

/-- The component of a piece inside a path; empty pieces and `.` have none. -/
def component? (piece : Text) : Option Component :=
  if piece = [] ∨ piece = ['.'] then none
  else if piece = ['.', '.'] then some .up
  else some (.name piece)

/-- What begins the path, and the pieces behind it. -/
def pieces (p : Path) : Option Component × List Text :=
  match p with
  | '/' :: t => (some .root, Text.splitAt '/' t)
  | t =>
    match Text.splitAt '/' t with
    | ['.'] :: pieces => (some .here, pieces)
    | pieces => (none, pieces)

/-- The steps of the path. -/
def components (p : Path) : List Component :=
  let (start, pieces) := p.pieces
  start.toList ++ pieces.filterMap component?

/-- Whether the path starts at the root. -/
def isAbsolute (p : Path) : Bool := p.head? = some '/'

/-- The second path taken from the first one; an absolute path stands for itself. -/
def join (base child : Path) : Path :=
  if child.isAbsolute then child
  else if base = [] ∨ base.getLast? = some '/' then base ++ child
  else base ++ '/' :: child

/-- The pieces without those at the end that have no component. -/
def settled (pieces : List Text) : List Text :=
  (pieces.reverse.dropWhile fun piece ↦ component? piece = none).reverse

/-- The path without its last component; a path that is empty or the root has none. -/
def parent? (p : Path) : Option Path :=
  let (start, pieces) := p.pieces
  let above := Text.join ['/'] (settled (settled pieces).dropLast)
  match start, settled pieces with
  | none, [] | some .root, [] => none
  | none, _ => some above
  | some .here, [] => some []
  | some .here, _ => some (if above = [] then ['.'] else '.' :: '/' :: above)
  | some _, _ => some ('/' :: above)

/-- The name that the path ends with. -/
def fileName? (p : Path) : Option Text :=
  match p.components.getLast? with
  | some (.name piece) => some piece
  | _ => none

/-- What follows the last dot of the name that the path ends with. A dot that begins the name does
not count. -/
def extension? (p : Path) : Option Text := do
  match (Text.splitAt '.' (← p.fileName?)).reverse with
  | [] | [_] | [_, []] => none
  | ending :: _ => some ending

end Path

end TagTemplate
