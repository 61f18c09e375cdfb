import ReplicatedStore.Storage.FileDisk
/-!
# Journals

A disk in a directory that notes the steps it takes, so that they can be taken a second time, in
the directory of a real file system.
-/
namespace ReplicatedStore

/-- The steps that are taken up to the first that fails. -/
def Directory.taken (d : Directory) : List FileStep → List FileStep
  | [] => []
  | s :: ss =>
    match d.step s with
    | .ok d => s :: taken d ss
    | .error _ => []

/-- A disk and the steps it took. -/
structure Journal where
  disk : FileDisk
  steps : List FileStep := []

namespace Journal

instance diskOfJournal : Disk Journal where
  write j w :=
    let (disk, e) := j.disk.write w
    (⟨disk, j.steps ++ j.disk.directory.taken (j.disk.steps w)⟩, e)
  readBallot j := Disk.readBallot j.disk
  readLog j := Disk.readLog j.disk
  readCommit j := Disk.readCommit j.disk
  readImage j := Disk.readImage j.disk

/-- Forget the steps that were taken. -/
def clear (j : Journal) : Journal := { j with steps := [] }

end Journal

end ReplicatedStore
