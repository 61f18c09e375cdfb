import ReplicatedStore.Replica.Basic
/-!
# Applying, compacting and recovering

The bookkeeping around the machine and the disk: which entries are to be applied, which the image
may replace, and how a log is rebuilt at a start.
-/
namespace ReplicatedStore.Replica

/-- The committed entries that are not applied yet; they count as applied from here on. Mirrors
`get_entries_to_apply`. -/
def takeCommitted (r : Replica) : Replica × List Entry :=
  let fresh := (List.range' (r.lastApplied + 1) (r.commitIndex - r.lastApplied)).filterMap r.entryAt?
  ({ r with lastApplied := max r.lastApplied r.commitIndex }, fresh)

/-- Move the snapshot base up to a position, but not past what is applied; the entries that are
removed. Mirrors `compact_log`. -/
def compact (r : Replica) (through : Nat) : Except Fault (Replica × List Entry) :=
  let through := min (min through r.lastApplied) r.lastIndex
  if through ≤ r.snapshotIndex then .ok (r, [])
  else do
    let covered := through - r.snapshotIndex
    let removed := r.log.take covered
    let term := r.termAt through
    let r ← r.dropFirst covered
    return ({ r with snapshotIndex := through, snapshotTerm := term }, removed)

/-- Start from an image that was stored. Mirrors `restore_snapshot`. -/
def restoreBase (r : Replica) (lastIndex lastTerm : Nat) : Replica :=
  { r with
    log := r.log.filter (lastIndex < ·.index)
    snapshotIndex := lastIndex
    snapshotTerm := lastTerm
    commitIndex := max r.commitIndex lastIndex
    lastApplied := max r.lastApplied lastIndex }

/-- Add stored entries, skipping those at or below the log's end, up to the first gap; how many were
added. Mirrors `load_log`. -/
def loadLog (r : Replica) (loaded : Nat) : List Entry → Except Fault (Replica × Nat)
  | [] => .ok (r, loaded)
  | e :: es =>
    if e.index ≤ r.lastIndex then r.loadLog loaded es
    else do
      let following ← Word.add r.lastIndex 1
      if e.index = following then loadLog { r with log := r.log ++ [e] } (loaded + 1) es
      else return (r, loaded)

/-- Take over a stored commit index as far as the log reaches. Mirrors `restore_commit_index`. -/
def restoreCommit (r : Replica) (commit : Nat) : Replica :=
  { r with commitIndex := max r.commitIndex (min commit r.lastIndex) }

end ReplicatedStore.Replica
