import ReplicatedStore.Cluster.Basic
/-!
# Reports

What can be seen of a node from outside: the status it shows, whether it stopped, and what its
disk holds.
-/
namespace ReplicatedStore

/-- What a disk holds, each part as far as it can be read. The time of the image is left out. -/
structure DiskReport where
  ballot : Ballot
  commit : Nat
  log : Except IoError (List Entry)
  image : Except IoError (Option (List Entry × Nat × Nat))
  deriving DecidableEq

/-- What can be seen of a node. -/
structure Report where
  /-- The status of a node that is up. -/
  status : Option Status
  /-- Whether a node that is up has stopped. -/
  stopped : Option Bool
  disk : Except IoError DiskReport
  deriving DecidableEq

namespace DiskReport

/-- An image without its time. -/
def imageReport (i : Option Image) : Option (List Entry × Nat × Nat) :=
  i.map fun i => (i.entries, i.lastIndex, i.lastTerm)

/-- What a disk holds. -/
def ofDisk : NodeDisk → Except IoError DiskReport
  | .inl d =>
    .ok ⟨d.contents.ballot, d.contents.commit, .ok d.contents.log, .ok (imageReport d.contents.image)⟩
  | .inr f => do
    let m ← f.readMetadata
    return ⟨m.ballot, m.commit, Disk.readLog f, (Disk.readImage f).map imageReport⟩

end DiskReport

namespace Report

/-- What can be seen of a node. -/
def ofNode (n : Node) : Report where
  status := n.running.map (·.member.published)
  stopped := n.running.map (·.member.stopped)
  disk := DiskReport.ofDisk n.disk

end Report

/-- The reports that differ from those shown before. -/
def Cluster.news (c : Cluster) (shown : Table NodeId Report) : List (NodeId × Report) :=
  (c.nodes.entries.map fun (id, n) => (id, Report.ofNode n)).filter
    fun (id, r) => shown.get? id ≠ some r

end ReplicatedStore
