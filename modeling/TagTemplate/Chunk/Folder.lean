import TagTemplate.Chunk.Source
import TagTemplate.Disk.Basic

/-!
# Chunks in a folder

A chunk in a folder is the file of its name with the ending `.tpl`. The name may lead into folders
below, but a name that could lead anywhere else is refused before any file is touched, and is
answered like one that has no file.
-/

namespace TagTemplate

namespace Chunk

/-- The ending of chunk files. -/
def ending : Text := ".tpl".toList

/-- Whether the name of a chunk only goes down. -/
def isPlain (name : Text) : Bool := !name.isEmpty && (Path.components name).all Component.isName

/-- The file of a chunk, unless its name is refused. -/
def file? (folder : Path) (name : Text) : Option Path :=
  if isPlain name then some (folder.join (name ++ ending)) else none

end Chunk

/-- The source of the chunks in a folder. -/
def ChunkSource.ofFolder (d : Disk) (folder : Path) : ChunkSource := fun name ↦
  match Chunk.file? folder name with
  | none => .error (.chunk (.notFound name (folder.join name)))
  | some file =>
    match d.read file with
    | .ok text => .ok text
    | .error .missing => .error (.chunk (.notFound name file))
    | .error .blocked => .error (.chunk (.unreadable file))

theorem ChunkSource.onlyFetches_ofFolder (d : Disk) (folder : Path) :
    (ofFolder d folder).OnlyFetches := by
  intro name err h
  rw [ofFolder] at h
  split at h
  · cases h
    exact ⟨_, rfl⟩
  · split at h <;> cases h <;> exact ⟨_, rfl⟩

end TagTemplate
