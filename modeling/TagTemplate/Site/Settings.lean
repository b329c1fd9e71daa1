import TagTemplate.Disk.Basic
import TagTemplate.Site.Error
import TagTemplate.Yaml.Reader
import TagTemplate.Yaml.Value

/-!
# Settings

The settings of a site are a YAML mapping with a section `renderer`, which says where templates and
chunks are and how site attributes are named, and a section `site` with the attributes themselves. A
settings file speaks of paths relative to itself.

The texts of the section `renderer` are taken as they stand, so that a plain `5` or `null` there is
the text that it is. Sections and fields of other names are passed over, but the known ones must not
be repeated.
-/

namespace TagTemplate

/-- Where the files of a site are, and how its attributes are named. -/
structure SiteConfig where
  templates : Path
  chunks : Path
  /-- What stands before the name of an attribute; an empty text exposes the bare names. -/
  sitePrefix : Text := ['+']
deriving DecidableEq, Repr

/-- What a settings file says. -/
structure Settings where
  config : SiteConfig
  /-- The site attributes, which may still turn out to be no mapping. -/
  attributes : Json

namespace Settings

/-- What a mapping has under a name, unless the name is repeated. -/
def only? (fields : List (Text × Yaml)) (name : String) : Option (Option Yaml) :=
  match fields.filter fun field ↦ field.1 = name.toList with
  | [] => some none
  | [field] => some (some field.2)
  | _ => none

/-- Reads the text that a mapping has to have under a name. -/
def readText (d : Yaml.Document) (fields : List (Text × Yaml)) (name : String) :
    Yaml.Reading Text := do
  d.text (← (← only? fields name))

/-- Reads the section `renderer`. -/
def readConfig (d : Yaml.Document) (part : Yaml) : Yaml.Reading SiteConfig := do
  let fields ← d.fields part
  let templates ← readText d fields "template_path"
  let chunks ← readText d fields "chunk_path"
  match ← only? fields "site_prefix" with
  | none => return { templates, chunks }
  | some value => return { templates, chunks, sitePrefix := ← d.text value }

/-- Reads settings from a document. -/
def readSettings (d : Yaml.Document) : Yaml.Reading Settings := do
  let fields ← d.fields d.root
  let config ← readConfig d (← (← only? fields "renderer"))
  let attributes ← match ← only? fields "site" with
    -- The mapping of the settings is one of those that the attributes are nested in.
    | some part => d.json (Yaml.deepest - 1) part
    | none => pure .null
  return { config, attributes }

/-- Reads settings from YAML text. -/
def read? (t : Text) : Option Settings := do
  let d ← Yaml.read? t
  d.readWith (readSettings d)

/-- The settings with their paths taken from the folder of the file at the given path. -/
def relativeTo (s : Settings) (file : Path) : Settings :=
  match file.parent? with
  | none => s
  | some folder =>
    { s with config := { s.config with
        templates := folder.join s.config.templates
        chunks := folder.join s.config.chunks } }

/-- Reads a settings file. -/
def load (d : Disk) (file : Path) : Except SiteError Settings :=
  match d.read file with
  | .error _ => .error (.unreadable file)
  | .ok text =>
    match read? text with
    | some settings => .ok (settings.relativeTo file)
    | none => .error (.noSettings file)

end Settings

end TagTemplate
