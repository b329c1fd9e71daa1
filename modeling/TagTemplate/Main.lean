import TagTemplate.Site.CommandLine

/-!
# The program

The program runs the command line on the files of the machine. Rendering is a function of a `Disk`,
so the files that an invocation speaks of are taken onto one first: the settings and the data, the
template, and everything in the chunk folder. Output goes to the machine itself.
-/

namespace TagTemplate

/-- The place that a path speaks of, when pieces are taken at their word. -/
def Location.follow (start : Location) (p : Path) : Location :=
  (Text.splitAt '/' p).foldl
    (fun location piece ↦
      match Path.component? piece with
      | some (.name name) => name :: location
      | some .up => location.tail
      | _ => location)
    (if p.isAbsolute then [] else start)

/-- Runs an action, whose failure is no answer. -/
def attempt? {α : Type} (action : IO α) : IO (Option α) := do
  try return some (← action) catch _ => return none

/-- The content of a file of the machine. -/
def readContent (file : String) : IO (Option Text) := do
  let bytes ← attempt? (IO.FS.readBinFile file)
  return (bytes.bind String.fromUTF8?).map String.toList

/-- Takes onto the disk what stands at a path of the machine, and what is in it down to `depth`. -/
def survey (d : Disk) (p : Path) : (depth : Nat) → IO Disk
  | 0 => return d
  | depth + 1 => do
    let place := Location.follow d.working p
    let path := String.ofList p
    let some real ← attempt? (IO.FS.realPath path) | return d
    let some metadata ← attempt? real.metadata | return d
    match metadata.type with
    | .dir =>
      let mut d := d.put place .folder
      for inner in (← attempt? real.readDir).getD #[] do
        d ← survey d (p.join inner.fileName.toList) depth
      return d
    | .file => return d.put place (.file (← readContent path))
    | _ => return d

/-- The number of folders inside one another that are looked into. -/
def surveyDepth : Nat := 64

/-- The disk with what an invocation speaks of. -/
def Invocation.survey (i : Invocation) : IO Disk := do
  let working := Location.follow [] (← IO.currentDir).toString.toList
  let mut d : Disk := { Disk.empty.put working .folder with working }
  for file in i.settings.toList ++ i.data.toList do
    d ← TagTemplate.survey d file 1
  if let .ok settings := i.settings? d then
    let config := settings.config
    for path in [config.templates, config.templates.join i.template] do
      d ← TagTemplate.survey d path 1
    d ← TagTemplate.survey d config.chunks surveyDepth
  return d

/-- The machine as a host. -/
def machine : Host IO where
  writeFile path text := do
    let written ← attempt? (IO.FS.writeFile (String.ofList path) (String.ofList text))
    return written.isSome
  stdout :=
    { write := fun text ↦ refusing do (← IO.getStdout).putStr (String.ofList text)
      flush := refusing do (← IO.getStdout).flush }
where
  refusing (action : IO Unit) : ExceptT Text IO Unit := ExceptT.mk do
    try action; return .ok () catch e => return .error (toString e).toList

/-- What the program accepts. -/
def usage : String :=
  "usage: TEMPLATE (--settings FILE | --templates FOLDER --chunks FOLDER) [--site-prefix TEXT]\n" ++
    "         [--data FILE] [--set KEY=VALUE]... [--output FILE]"

end TagTemplate

open TagTemplate in
/-- Runs the command line and answers its exit code. -/
def main (arguments : List String) : IO UInt32 := do
  let arguments := arguments.map String.toList
  let d ← match Invocation.parse? arguments with
    | some i => i.survey
    | none => pure Disk.empty
  let ending ← runCommand machine d arguments
  if ending.code = 2 then IO.eprintln usage
  else unless ending.message.isEmpty do IO.eprintln (String.ofList ending.message)
  return ending.code.toUInt32
