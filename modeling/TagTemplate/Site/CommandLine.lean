import TagTemplate.Json.Reader
import TagTemplate.Site.Render
import TagTemplate.Text.Blank

/-!
# The command line

The command line renders one template of a site that is described by a settings file, by options, or
by a settings file whose entries options replace. The data of the rendering come from a file, and
single values given on the command line are put in on top of them.

An `Invocation` is what the arguments ask for; arguments that ask for nothing are refused before any
file is read. What the command does to the world goes through a `Host`, so that it runs alike on
files and in memory.
-/

namespace TagTemplate

/-! ### Arguments -/

/-- What the arguments ask for. -/
structure Invocation where
  template : Text
  settings : Option Path := none
  templates : Option Path := none
  chunks : Option Path := none
  sitePrefix : Option Text := none
  data : Option Path := none
  /-- Single values, each with its key, in the order given. -/
  assigned : List (Text × Text) := []
  /-- The file to write, if not to the standard output. -/
  output : Option Path := none
deriving DecidableEq, Repr

/-- The options of the command line; each takes a value. -/
inductive Flag
  | settings | templates | chunks | sitePrefix | data | assign | output
deriving DecidableEq, Repr

namespace Flag

/-- The option of a long name. -/
def ofName? (name : Text) : Option Flag :=
  [("settings", settings), ("templates", templates), ("chunks", chunks),
    ("site-prefix", sitePrefix), ("data", data), ("set", assign), ("output", output)].findSome?
    fun (long, flag) ↦ if long.toList = name then some flag else none

/-- The option of a letter. -/
def ofLetter? : Char → Option Flag
  | 's' => some settings
  | 'd' => some data
  | 'o' => some output
  | _ => none

end Flag

/-- What has been read from the arguments so far. -/
structure Gathered where
  template : Option Text := none
  values : List (Flag × Text) := []

namespace Gathered

/-- The value of an option, if it was given. -/
def value? (g : Gathered) (flag : Flag) : Option Text := g.values.lookup flag

/-- Takes the template. There is room for one. -/
def takeTemplate? (g : Gathered) (template : Text) : Option Gathered :=
  if g.template.isSome then none else some { g with template := some template }

/-- The key and the value of an assignment `KEY=VALUE`. -/
def assignment? (t : Text) : Option (Text × Text) := do
  let (key, value) ← Text.cut? ['='] t
  if key.trim.isEmpty then none else some (key.trim, value)

/-- Whether the text is a value for the option. Paths must not be empty. -/
def isValueOf (flag : Flag) (value : Text) : Bool :=
  match flag with
  | .sitePrefix => true
  | .assign => (assignment? value).isSome
  | _ => !value.isEmpty

/-- Takes the value of an option. Only assignments may be repeated. -/
def take? (g : Gathered) (flag : Flag) (value : Text) : Option Gathered :=
  if isValueOf flag value ∧ (flag = .assign ∨ g.value? flag = none) then
    some { g with values := g.values ++ [(flag, value)] }
  else none

/-- The single values that were given, each with its key. -/
def assigned (g : Gathered) : List (Text × Text) :=
  g.values.filterMap fun (flag, value) ↦ if flag = .assign then assignment? value else none

/-- The invocation that was read, if it has a template. -/
def invocation? (g : Gathered) : Option Invocation := do
  let template ← g.template
  return {
    template
    settings := g.value? .settings
    templates := g.value? .templates
    chunks := g.value? .chunks
    sitePrefix := g.value? .sitePrefix
    data := g.value? .data
    assigned := g.assigned
    output := g.value? .output }

end Gathered

/-- Whether the argument is an option or the mark `--`. A single dash is neither. -/
def isOption (argument : Text) : Bool := argument.head? = some '-' && argument ≠ ['-']

/-- The option that an argument names, and the value that the argument itself holds for it: behind
`=` for a long name, behind the letter and maybe `=` otherwise. -/
def optionOf? : Text → Option (Flag × Option Text)
  | '-' :: '-' :: t =>
    match Text.cut? ['='] t with
    | some (name, value) => (Flag.ofName? name).map fun flag ↦ (flag, some value)
    | none => (Flag.ofName? t).map fun flag ↦ (flag, none)
  | '-' :: letter :: t =>
    (Flag.ofLetter? letter).map fun flag ↦
      match t with
      | [] => (flag, none)
      | '=' :: value => (flag, some value)
      | value => (flag, some value)
  | _ => none

/-- Reads the arguments one after the other; an option that still lacks its value is `pending`.
Behind `--` there are no options. -/
def gather? (g : Gathered) (pending : Option Flag) : List Text → Option Gathered
  | [] => if pending.isSome then none else some g
  | argument :: arguments => do
    match pending with
    | some flag =>
      if isOption argument then none
      gather? (← g.take? flag argument) none arguments
    | none =>
      if argument = ['-', '-'] then arguments.foldlM Gathered.takeTemplate? g
      else if isOption argument then
        match ← optionOf? argument with
        | (flag, some value) => gather? (← g.take? flag value) none arguments
        | (flag, none) => gather? g (some flag) arguments
      else gather? (← g.takeTemplate? argument) none arguments

/-- Reads the arguments. -/
def Invocation.parse? (arguments : List Text) : Option Invocation := do
  (← gather? {} none arguments).invocation?

/-! ### Failures -/

/-- A format of data files. -/
inductive DataFormat
  | json | yaml
deriving DecidableEq, Repr

namespace DataFormat

/-- The format that the name of a file tells. -/
def ofPath (file : Path) : DataFormat :=
  if file.extension? = some "json".toList then json else yaml

/-- The name of the format. -/
def name : DataFormat → Text
  | json => "JSON".toList
  | yaml => "YAML".toList

/-- Reads a text of the format. -/
def read? : DataFormat → Text → Option Json
  | json, t => Json.read? t
  | yaml, t => do (← Yaml.read? t).json?

end DataFormat

/-- Why an invocation fails. -/
inductive CommandError
  /-- Neither a settings file nor both folders are given. -/
  | noFolders
  | site (cause : SiteError)
  /-- The data file cannot be read. -/
  | unreadable (file : Path)
  /-- The data file is not of its format. -/
  | malformed (file : Path) (format : DataFormat)
  /-- The data file holds something other than a mapping. -/
  | noMapping (file : Path)
  /-- The output file cannot be written. -/
  | unwritable (file : Path)
deriving DecidableEq, Repr

/-- The text of a failure. -/
def CommandError.message : CommandError → Text
  | noFolders => "pass --settings, or both --templates and --chunks".toList
  | site cause => cause.message
  | unreadable file => "reading ".toList ++ file
  | malformed file format => "parsing ".toList ++ file ++ " as ".toList ++ format.name
  | noMapping file => file ++ " must contain a mapping".toList
  | unwritable file => "writing ".toList ++ file

/-! ### Running -/

namespace Invocation

/-- The configuration that options make of that of a settings file, if there is one. -/
def config? (i : Invocation) (given : Option SiteConfig) : Option SiteConfig := do
  let config ← match given, i.templates, i.chunks with
    | some config, _, _ => some config
    | none, some templates, some chunks => some { templates, chunks }
    | none, _, _ => none
  return {
    templates := i.templates.getD config.templates
    chunks := i.chunks.getD config.chunks
    sitePrefix := i.sitePrefix.getD config.sitePrefix }

/-- The settings that the invocation speaks of. -/
def settings? (i : Invocation) (d : Disk) : Except CommandError Settings := do
  let given ← match i.settings with
    | some file => some <$> (Settings.load d file).mapError .site
    | none => pure none
  match i.config? (given.map Settings.config) with
  | some config => return { config, attributes := (given.map Settings.attributes).getD .null }
  | none => throw .noFolders

/-- The site that the invocation speaks of. -/
def site (i : Invocation) (d : Disk) : Except CommandError Site := do
  let settings ← i.settings? d
  (Site.open? d settings.config settings.attributes).mapError .site

/-- The mapping in a data file. -/
def loadData (d : Disk) (file : Path) : Except CommandError Mapping := do
  let text ← (d.read file).mapError fun _ ↦ .unreadable file
  let format := DataFormat.ofPath file
  match format.read? text with
  | none => throw (.malformed file format)
  | some (.object fields) => return .ofList fields
  | some .null => return .empty
  | some _ => throw (.noMapping file)

/-- Puts single values in on top of data, the last one of equal keys. -/
def assign (data : Mapping) (values : List (Text × Text)) : Mapping :=
  values.foldl (fun data (key, value) ↦ data.insert key (.str value)) data

/-- What the data file holds. There are no data without one. -/
def given (i : Invocation) (d : Disk) : Except CommandError Mapping :=
  match i.data with
  | some file => loadData d file
  | none => .ok .empty

/-- The data of the rendering. -/
def mapping (i : Invocation) (d : Disk) : Except CommandError Mapping := do
  return assign (← i.given d) i.assigned

end Invocation

/-- What a command can do to the world. -/
structure Host (m : Type → Type) where
  /-- Writes a file; tells whether it could. -/
  writeFile : Path → Text → m Bool
  /-- The standard output. -/
  stdout : Sink m

/-- Hands over what a rendering came to: to the standard output, or to the file that the invocation
names. -/
def Invocation.deliver {m : Type → Type} [Monad m] (i : Invocation) (host : Host m)
    (rendered : Except SiteError Text) : ExceptT CommandError m Unit := do
  match i.output with
  | none => ExceptT.adapt CommandError.site (host.stdout.put rendered)
  | some file =>
    let output ← ExceptT.mk (pure (rendered.mapError CommandError.site))
    if (← host.writeFile file output) = false then throw (.unwritable file)

/-- Does what the invocation asks for. -/
def Invocation.run {m : Type → Type} [Monad m] (i : Invocation) (host : Host m) (d : Disk) :
    ExceptT CommandError m Unit := do
  let site ← ExceptT.mk (pure (i.site d))
  let data ← ExceptT.mk (pure (i.mapping d))
  i.deliver host (site.render d i.template (.object data.entries))

/-- How a command ended: its exit code, and what it has to say about it. -/
structure Ending where
  code : Nat
  message : Text
deriving DecidableEq, Repr

/-- How a command ends that came to the result. A failure has the code 1. -/
def Ending.of : Except CommandError Unit → Ending
  | .ok _ => ⟨0, []⟩
  | .error failure => ⟨1, "Error: ".toList ++ failure.message⟩

/-- Runs the command line. Arguments that ask for nothing end it with the code 2. -/
def runCommand {m : Type → Type} [Monad m] (host : Host m) (d : Disk) (arguments : List Text) :
    m Ending := do
  match Invocation.parse? arguments with
  | none => return ⟨2, []⟩
  | some i => return .of (← (i.run host d).run)

end TagTemplate
