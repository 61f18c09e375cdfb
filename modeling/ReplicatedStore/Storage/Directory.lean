import ReplicatedStore.Error
import ReplicatedStore.Json.Basic
import ReplicatedStore.Table
/-!
# Directories

A directory as far as storage needs one: names that stand for files or for further directories.
A write is a list of steps, each of which either takes effect or fails and ends the write, so that
the states in between can be spoken of.
-/
namespace ReplicatedStore

/-- What a name stands for. -/
inductive DirectoryItem where
  | file (content : Bytes)
  | folder
  deriving DecidableEq, Repr

/-- Names and what they stand for, in the order of the names. -/
abbrev Directory := Table String DirectoryItem

/-- One change to a directory. -/
inductive FileStep where
  /-- Write a file, over an earlier one of that name. -/
  | create (name : String) (content : Bytes)
  /-- Write at the end of a file, which is made if it is not there. -/
  | append (name : String) (content : Bytes)
  /-- Give a file another name, over an earlier file of that name. -/
  | rename (name newName : String)
  /-- Remove a file if it is there. -/
  | remove (name : String)
  deriving DecidableEq, Repr

namespace Directory

/-- The content of a file; none if nothing has that name. -/
def read (d : Directory) (name : String) : Except IoError (Option Bytes) :=
  match d.get? name with
  | none => .ok none
  | some (.file content) => .ok (some content)
  | some .folder => .error .isADirectory

/-- The directory after one step. -/
def step (d : Directory) : FileStep → Except IoError Directory
  | .create name content =>
    match d.get? name with
    | some .folder => .error .isADirectory
    | _ => .ok (d.insert name (.file content))
  | .append name content =>
    match d.get? name with
    | some .folder => .error .isADirectory
    | some (.file old) => .ok (d.insert name (.file (old ++ content)))
    | none => .ok (d.insert name (.file content))
  | .rename name newName =>
    match d.get? name, d.get? newName with
    | none, _ => .error .notFound
    | some (.file _), some .folder => .error .isADirectory
    | some .folder, some (.file _) => .error .notADirectory
    | some item, _ => .ok ((d.erase name).insert newName item)
  | .remove name =>
    match d.get? name with
    | some .folder => .error .isADirectory
    | _ => .ok (d.erase name)

/-- Take steps up to the first that fails. -/
def run (d : Directory) : List FileStep → Directory × Option IoError
  | [] => (d, none)
  | s :: ss =>
    match d.step s with
    | .ok d => run d ss
    | .error e => (d, some e)

/-- Replace a file through a second one, so that the name never stands for half a file. Mirrors
`write_atomic`. -/
def replaceSteps (name temporary : String) (content : Bytes) : List FileStep :=
  [.create temporary content, .rename temporary name]

end Directory

end ReplicatedStore
