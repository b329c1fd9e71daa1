import TagTemplate.Disk.Path
import TagTemplate.Tag.Error

/-!
# Errors of sites

A site may be set up badly, its files may be missing or unreadable, the data of a rendering may be
of the wrong kind, and the tags of a template may not resolve. Whoever asked for a rendering gets
either the whole output or one of these errors.
-/

namespace TagTemplate

/-- A folder that a site needs. -/
inductive SiteFolder
  | templates | chunks
deriving DecidableEq, Repr

/-- The name that settings and messages have for the folder. -/
def SiteFolder.name : SiteFolder → Text
  | templates => "template_path".toList
  | chunks => "chunk_path".toList

/-- Values that a site needs as a mapping. -/
inductive SiteValues
  | attributes | renderData
deriving DecidableEq, Repr

/-- The name that messages have for the values. -/
def SiteValues.name : SiteValues → Text
  | attributes => "site attributes".toList
  | renderData => "render data".toList

/-- Why there is no site or no rendering. -/
inductive SiteError
  /-- There is no folder at the path. -/
  | noFolder (folder : SiteFolder) (path : Path)
  /-- The values are of another kind than a mapping. -/
  | noMapping (values : SiteValues) (kind : Text)
  /-- There is no template of the name; the path is where it was looked for. -/
  | noTemplate (name : Text) (path : Path)
  /-- The data uses a key that belongs to the site. -/
  | reservedKey (key : Text)
  /-- The tags of the template do not resolve. -/
  | resolution (cause : TagError)
  /-- The file at the path cannot be read as text. -/
  | unreadable (path : Path)
  /-- The output is refused. -/
  | unwritable (cause : Text)
  /-- The file at the path holds no settings. -/
  | noSettings (path : Path)
deriving DecidableEq, Repr

namespace SiteError

/-- The text of a bad setup. -/
def setup (fault : Text) : Text := "Invalid renderer configuration: ".toList ++ fault

/-- The text of a missing file of the given kind. -/
def notFound (kind name : Text) (path : Path) : Text :=
  "The ".toList ++ kind ++ " \x60".toList ++ name ++ "\x60 does not exist (looked for ".toList ++
    path ++ [')']

/-- The text of an unreadable file. -/
def failedToRead (path : Path) : Text := "Failed to read ".toList ++ path

/-- The text of a site error. -/
def message : SiteError → Text
  | noFolder folder path =>
    setup (folder.name ++ ' ' :: path ++ " is not a directory".toList)
  | noMapping values kind =>
    setup (values.name ++ " must be a mapping, got ".toList ++ kind)
  | noTemplate name path => notFound "template".toList name path
  | reservedKey key => "Duplicate ".toList ++ key ++ " key found in render data".toList
  | resolution (.chunk (.notFound name path)) => notFound "chunk".toList name path
  | resolution (.chunk (.unreadable path)) => failedToRead path
  | resolution (.cyclic tag via) =>
    "Cyclic tag reference: ".toList ++ tag ++ " (via ".toList ++ TagError.chain via ++ [')']
  | resolution (.tooDeep tag limit) =>
    "Tag nesting exceeds ".toList ++ Text.ofNat limit ++ " levels at ".toList ++ tag
  | resolution (.horizon tag) => (TagError.horizon tag).message
  | unreadable path => failedToRead path
  | unwritable cause => "Failed to write rendered output: ".toList ++ cause
  | noSettings path => "Invalid settings file ".toList ++ path

end SiteError

end TagTemplate
