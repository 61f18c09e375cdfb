import ReplicatedStore.Storage.Directory
import ReplicatedStore.Storage.Disk
import ReplicatedStore.Storage.LogFile
import ReplicatedStore.Storage.Metadata
import ReplicatedStore.Wire.Image
/-!
# Disks in a directory

A disk kept in three files: the metadata, the log with an entry a line, and the image. A file that
is replaced is written under another name first. The disk remembers the metadata, because each
write of a part of it writes all of it.
-/
namespace ReplicatedStore

/-- A directory, and the metadata that was read or written last. Mirrors `FileStorage` and
`FileSnapshotStore`. -/
structure FileDisk where
  directory : Directory
  metadata : Metadata := {}
  deriving DecidableEq, Repr

namespace FileDisk

/-- The name of the metadata file. -/
def metadataFile : String := "meta.json"

/-- The name of the log file. -/
def logFile : String := "log.jsonl"

/-- The name of the image file. -/
def imageFile : String := "snapshot.json"

/-- What a file holds, `d` when it is not there. -/
def load {α : Type} (f : FileDisk) (name : String) (d : α) (read? : Bytes → Option α) :
    Except IoError α := do
  match ← f.directory.read name with
  | none => return d
  | some text =>
    match read? text with
    | some a => return a
    | none => throw .invalidData

/-- The stored metadata. Mirrors `read_meta`. -/
def readMetadata (f : FileDisk) : Except IoError Metadata :=
  f.load metadataFile {} Metadata.read?

/-- Use a directory; its metadata is read at once. Mirrors `new` of both stores. -/
def ofDirectory (d : Directory) : Except IoError FileDisk := do
  return ⟨d, ← readMetadata ⟨d, {}⟩⟩

/-- The metadata after a write. -/
def metadataAfter (m : Metadata) : DiskWrite → Metadata
  | .ballot b => { m with ballot := b }
  | .commit index => { m with commit := index }
  | .clear => {}
  | _ => m

/-- The steps that replace the metadata. Mirrors `write_meta`. -/
def metadataSteps (m : Metadata) : List FileStep :=
  Directory.replaceSteps metadataFile "meta.tmp" m.write

/-- The steps of a write. What is stored already is not written again. Mirrors `save_term_and_vote`,
`append_entries`, `overwrite_log`, `save_commit_index`, `save` and `clear`. -/
def steps (f : FileDisk) : DiskWrite → List FileStep
  | .ballot b => metadataSteps { f.metadata with ballot := b }
  | .append entries => if entries.isEmpty then [] else [.append logFile (LogFile.write entries)]
  | .replace entries => Directory.replaceSteps logFile "log.tmp" (LogFile.write entries)
  | .commit index =>
    if index = f.metadata.commit then [] else metadataSteps { f.metadata with commit := index }
  | .image i => Directory.replaceSteps imageFile "snapshot.tmp" (Json.encode Image.toJson i)
  | .clear => [.remove metadataFile, .remove logFile]

/-- Take the steps of a write. -/
def write (f : FileDisk) (w : DiskWrite) : FileDisk × Option IoError :=
  match f.directory.run (f.steps w) with
  | (d, none) => (⟨d, metadataAfter f.metadata w⟩, none)
  | (d, some e) => (⟨d, f.metadata⟩, some e)

instance : Disk FileDisk where
  write := write
  readBallot f := return (← f.readMetadata).ballot
  readLog f := f.load logFile [] LogFile.read?
  readCommit f := return (← f.readMetadata).commit
  readImage f := f.load imageFile none fun text => (Json.decode? Image.ofJson? text).map some

end FileDisk

end ReplicatedStore
