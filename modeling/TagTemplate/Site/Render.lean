import TagTemplate.Chunk.Folder
import TagTemplate.Engine.Process
import TagTemplate.Site.Settings

/-!
# Rendering

A site renders its templates. The attributes of the site are placeholders under the site prefix, the
data of a rendering are placeholders under their own names, and the data are written last, so that
they win where both have a name. Every rendering starts from the attributes and the data alone:
nothing of it is left for the next one.

Templates are named by paths below the template folder, and a name that could lead anywhere else is
answered like one that has no file.
-/

namespace TagTemplate

/-- A mapping from names to JSON values. -/
abbrev Mapping := Dict Json

/-- The mapping that a value is; null is the empty one. -/
def Mapping.ofJson (values : SiteValues) : Json → Except SiteError Mapping
  | .object fields => .ok (.ofList fields)
  | .null => .ok .empty
  | j => .error (.noMapping values j.kindName)

/-- Where an output goes, piece by piece; each piece may be refused with a cause. -/
structure Sink (m : Type → Type) where
  write : Text → ExceptT Text m Unit
  flush : ExceptT Text m Unit

/-- Writes what a rendering came to. Nothing is written when it failed, and an empty output is only
flushed. -/
def Sink.put {m : Type → Type} [Monad m] (sink : Sink m) (rendered : Except SiteError Text) :
    ExceptT SiteError m Unit := do
  let output ← ExceptT.mk (pure rendered)
  ExceptT.adapt SiteError.unwritable do
    if !output.isEmpty then sink.write output
    sink.flush

/-- The files of a site and its attributes. -/
structure Site where
  config : SiteConfig
  attributes : Mapping

namespace Site

/-- The key that data must not use. -/
def reservedKey : Text := "template".toList

/-- The site with the given attributes, if its folders are there. -/
def open? (d : Disk) (config : SiteConfig) (attributes : Json) : Except SiteError Site :=
  if d.isFolder config.templates = false then .error (.noFolder .templates config.templates)
  else if d.isFolder config.chunks = false then .error (.noFolder .chunks config.chunks)
  else (Mapping.ofJson .attributes attributes).map fun attributes ↦ { config, attributes }

/-- Adds an attribute, or replaces the one of its name. -/
def addAttribute (s : Site) (name : Text) (value : Json) : Site :=
  { s with attributes := s.attributes.insert name value }

/-- Whether the name of a template does not leave the template folder. -/
def isInside (template : Text) : Bool :=
  !template.isEmpty && (Path.components template).all fun c ↦ c.isName || c = .here

/-- Where the template of a name would be. -/
def templatePath (s : Site) (template : Text) : Path := s.config.templates.join template

/-- The text of a template. -/
def readTemplate (s : Site) (d : Disk) (template : Text) : Except SiteError Text :=
  let path := s.templatePath template
  if isInside template && d.isFile path then (d.read path).mapError fun _ ↦ .unreadable path
  else .error (.noTemplate template path)

/-- The engine that resolves the tags of the templates. -/
def engine (s : Site) (d : Disk) : Engine where
  options := { Options.default with sitePrefix := s.config.sitePrefix }
  chunks := .ofFolder d s.config.chunks

/-- The placeholders that the attributes are. -/
def attributeStore (s : Site) : Store :=
  s.attributes.entries.foldl
    (fun store (name, value) ↦ (store.writeField (s.config.sitePrefix ++ name) value [] ['.']).1)
    .empty

/-- The placeholders that a rendering with the data starts from. -/
def startingStore (s : Site) (data : Mapping) : Store :=
  (s.attributeStore.writeBelow (.object data.entries) [] ['.']).1

/-- The terms on which the tags of a template are resolved: fully, as far as ten passes go. -/
def request : Request := { processUncacheable := true, maxDepth := Options.default.maxIterations }

/-- Renders the template with the data as placeholders. -/
def render (s : Site) (d : Disk) (template : Text) (data : Json) : Except SiteError Text := do
  let data ← Mapping.ofJson .renderData data
  if data.contains reservedKey then throw (.reservedKey reservedKey)
  let content ← s.readTemplate d template
  let (result, _) := (s.engine d).processTags request content { store := s.startingStore data }
  match result with
  | .ok (output, _) => return output
  | .error cause => throw (.resolution cause)

/-- Renders into a sink. -/
def renderTo {m : Type → Type} [Monad m] (s : Site) (d : Disk) (sink : Sink m) (template : Text)
    (data : Json) : ExceptT SiteError m Unit :=
  sink.put (s.render d template data)

end Site

end TagTemplate
