import ReplicatedStore.Error
import ReplicatedStore.Image
import ReplicatedStore.Replica.Basic
/-!
# Disks

What a member keeps across restarts: its ballot, its log, its commit index and its latest image.
`DiskContents` is the idea of it, `DiskContents.after` what each write means. A `Disk` is anything
that takes these writes and can be read again; a write that fails says so.
-/
namespace ReplicatedStore

/-- One durable write. Mirrors the saving operations of `Storage` and `SnapshotStore`. -/
inductive DiskWrite where
  | ballot (b : Ballot)
  /-- Add entries at the end of the log. -/
  | append (entries : List Entry)
  /-- Replace the whole log. -/
  | replace (entries : List Entry)
  | commit (index : Nat)
  /-- Replace the image. -/
  | image (i : Image)
  /-- Forget everything but the image. -/
  | clear
  deriving DecidableEq, Repr

/-- What is stored. -/
structure DiskContents where
  ballot : Ballot := ⟨0, none⟩
  log : List Entry := []
  commit : Nat := 0
  image : Option Image := none
  deriving DecidableEq, Repr

/-- What is stored after a write. -/
def DiskContents.after (c : DiskContents) : DiskWrite → DiskContents
  | .ballot b => { c with ballot := b }
  | .append entries => { c with log := c.log ++ entries }
  | .replace entries => { c with log := entries }
  | .commit index => { c with commit := index }
  | .image i => { c with image := some i }
  | .clear => { image := c.image }

/-- A place for what a member keeps. Mirrors `Storage` and `SnapshotStore`. -/
class Disk (δ : Type) where
  /-- Write, and say what went wrong if something did. -/
  write : δ → DiskWrite → δ × Option IoError
  readBallot : δ → Except IoError Ballot
  readLog : δ → Except IoError (List Entry)
  readCommit : δ → Except IoError Nat
  readImage : δ → Except IoError (Option Image)

/-- A disk in memory. Which writes fail can be laid down beforehand; a failing write changes
nothing. Mirrors `InMemoryStorage` and `InMemorySnapshotStore`. -/
structure MemoryDisk where
  contents : DiskContents := {}
  /-- How many writes were asked for. -/
  tried : Nat := 0
  /-- Whether a write fails, by its number and what it writes. -/
  fails : Nat → DiskWrite → Bool := fun _ _ => false
  /-- Whether the ballot cannot be read. -/
  unreadable : Bool := false

namespace MemoryDisk

/-- Write unless it is to fail. -/
def write (d : MemoryDisk) (w : DiskWrite) : MemoryDisk × Option IoError :=
  if d.fails d.tried w then ({ d with tried := d.tried + 1 }, some .diskFull)
  else ({ d with tried := d.tried + 1, contents := d.contents.after w }, none)

instance : Disk MemoryDisk where
  write := write
  readBallot d := if d.unreadable then .error .diskFull else .ok d.contents.ballot
  readLog d := .ok d.contents.log
  readCommit d := .ok d.contents.commit
  readImage d := .ok d.contents.image

end MemoryDisk

end ReplicatedStore
