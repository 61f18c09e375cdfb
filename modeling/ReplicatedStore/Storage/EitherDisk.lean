import ReplicatedStore.Storage.FileDisk
/-!
# Disks of either kind

A member's disk can be in memory or in a directory; a member does not see which.
-/
namespace ReplicatedStore

/-- A disk of one of two kinds takes its writes as that kind does. -/
instance {α β : Type} [Disk α] [Disk β] : Disk (α ⊕ β) where
  write d w :=
    match d with
    | .inl a =>
      let (a, e) := Disk.write a w
      (.inl a, e)
    | .inr b =>
      let (b, e) := Disk.write b w
      (.inr b, e)
  readBallot := Sum.elim Disk.readBallot Disk.readBallot
  readLog := Sum.elim Disk.readLog Disk.readLog
  readCommit := Sum.elim Disk.readCommit Disk.readCommit
  readImage := Sum.elim Disk.readImage Disk.readImage

/-- A disk in memory or in a directory. -/
abbrev NodeDisk := MemoryDisk ⊕ FileDisk

end ReplicatedStore
