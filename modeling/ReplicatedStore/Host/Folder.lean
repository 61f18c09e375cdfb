import ReplicatedStore.Storage.Journal
/-!
# Folders

A node's directory in the file system of the host: it is read once, and then every step that the
node's disk took is taken in it.
-/
namespace ReplicatedStore.Folder

/-- The path of a name in a folder. -/
def path (folder name : String) : String := folder ++ "/" ++ name

/-- What a name stands for. -/
def item? (folder name : String) : IO (Option DirectoryItem) := do
  try
    return some (.file (← IO.FS.readBinFile (path folder name)).data.toList)
  catch
    | .noFileOrDirectory .. => return none
    | _ => return some .folder

/-- The part of a folder that a disk uses. The folder is made if it is not there. -/
def load (folder : String) : IO Directory := do
  IO.FS.createDirAll folder
  let mut d : Directory := .empty
  for name in [FileDisk.metadataFile, FileDisk.logFile, FileDisk.imageFile] do
    if let some item ← item? folder name then
      d := d.insert name item
  return d

/-- Write bytes to a file. -/
def write (folder name : String) (mode : IO.FS.Mode) (content : Bytes) : IO Unit := do
  let file ← IO.FS.Handle.mk (path folder name) mode
  file.write ⟨content.toArray⟩
  file.flush

/-- Take a step. -/
def perform (folder : String) : FileStep → IO Unit
  | .create name content => write folder name .write content
  | .append name content => write folder name .append content
  | .rename name newName => IO.FS.rename (path folder name) (path folder newName)
  | .remove name => do
    try IO.FS.removeFile (path folder name)
    catch
      | .noFileOrDirectory .. => return
      | e => throw e

end ReplicatedStore.Folder
