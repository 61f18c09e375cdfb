import ReplicatedStore.Replica.Election
/-!
# Following

How a member takes entries and images from a leader. Entries are placed one by one: what the image
covers is skipped, an entry of the same term stays, an entry of another term is replaced together
with everything after it.
-/
namespace ReplicatedStore

/-- How the log changed, which decides what has to be written to disk. Mirrors `LogChange`. -/
inductive LogChange where
  /-- Entries were only added, from this position on. -/
  | appended (start : Nat)
  /-- A stretch at the end was replaced. -/
  | rewritten
  deriving DecidableEq, Repr

/-- What became of an append request. Mirrors `AppendOutcome`. -/
structure AppendOutcome where
  success : Bool
  /-- The sender is the leader of this term. -/
  resetTimer : Bool
  change : Option LogChange
  commitAdvanced : Bool
  deriving DecidableEq, Repr

/-- What became of an install request. Mirrors `InstallOutcome`. -/
structure InstallOutcome where
  resetTimer : Bool
  /-- The image replaced local state and has to be stored and restored. -/
  installed : Bool
  deriving DecidableEq, Repr

namespace Replica

/-- Accept the sender of a request of at least this term as the leader. Mirrors the opening that
`handle_append_entries` and `handle_install_snapshot` share. -/
def accept (r : Replica) (term : Nat) (leader : NodeId) : Replica :=
  let r := if r.term < term ∨ r.role ≠ .follower then r.follow term else r
  { r with leader := some leader }

/-- Whether the log agrees with a leader's up to a position. What an image covers is committed, so
it agrees. Mirrors the `anchored` test of `handle_append_entries`. -/
def anchors (r : Replica) (prevIndex prevTerm : Nat) : Bool :=
  prevIndex ≤ r.snapshotIndex || (prevIndex ≤ r.lastIndex && r.termAt prevIndex = prevTerm)

/-- Drop the entries from a position on. Mirrors `truncate_from`. -/
def truncate (r : Replica) (i : Nat) : Replica :=
  if r.snapshotIndex < i then { r with log := r.log.take (i - r.snapshotIndex - 1) } else r

/-- Place one entry at a position, given how the log changed so far. Mirrors the loop body of
`handle_append_entries`. -/
def place (r : Replica) (i : Nat) (e : Entry) (change : Option LogChange) :
    Replica × Option LogChange :=
  if i ≤ r.snapshotIndex then (r, change)
  else
    match r.entryAt? i with
    | some held =>
      if held.term = e.term then (r, change)
      else
        let r := r.truncate i
        ({ r with log := r.log ++ [{ e with index := i }] }, some .rewritten)
    | none =>
      ({ r with log := r.log ++ [{ e with index := i }] }, change <|> some (.appended i))

/-- Place entries at consecutive positions. Mirrors the loop of `handle_append_entries`. -/
def placeAll (r : Replica) (i : Nat) (change : Option LogChange) :
    List Entry → Replica × Option LogChange
  | [] => (r, change)
  | e :: es =>
    let (r, change) := r.place i e change
    r.placeAll (i + 1) change es

/-- Follow the leader's commit index as far as this log is known to agree with the leader's. Mirrors
the end of `handle_append_entries`. -/
def followCommit (r : Replica) (leaderCommit lastNew : Nat) : Replica × Bool :=
  let verified := min (min leaderCommit lastNew) r.lastIndex
  if r.commitIndex < leaderCommit ∧ r.commitIndex < verified then
    ({ r with commitIndex := verified }, true)
  else (r, false)

/-- Take the entries of an append request. Mirrors `handle_append_entries`. -/
def takeEntries (r : Replica) (q : AppendRequest) : Except Fault (Replica × AppendOutcome) :=
  if q.term < r.term then .ok (r, ⟨false, false, none, false⟩)
  else
    let r := r.accept q.term q.leader
    if !r.anchors q.prevIndex q.prevTerm then .ok (r, ⟨false, true, none, false⟩)
    else do
      let lastNew ← Word.add q.prevIndex q.entries.length
      let (r, change) := r.placeAll (q.prevIndex + 1) none q.entries
      let (r, advanced) := r.followCommit q.leaderCommit lastNew
      return (r, ⟨true, true, change, advanced⟩)

/-- Make room for an image up to a position: keep the entries after it if the log agrees there, else
none. Mirrors the end of `handle_install_snapshot`. -/
def rebase (r : Replica) (lastIndex lastTerm : Nat) : Except Fault Replica := do
  let r ←
    if lastIndex ≤ r.lastIndex ∧ r.termAt lastIndex = lastTerm then do
      r.dropFirst (← Word.sub lastIndex r.snapshotIndex)
    else pure { r with log := [] }
  return { r with
    snapshotIndex := lastIndex
    snapshotTerm := lastTerm
    commitIndex := lastIndex
    lastApplied := lastIndex }

/-- Take the position of an image; one that is committed already is ignored. Mirrors
`handle_install_snapshot`. -/
def takeImage (r : Replica) (term : Nat) (leader : NodeId) (lastIndex lastTerm : Nat) :
    Except Fault (Replica × InstallOutcome) :=
  if term < r.term then .ok (r, ⟨false, false⟩)
  else
    let r := r.accept term leader
    if lastIndex ≤ r.commitIndex then .ok (r, ⟨true, false⟩)
    else do return (← r.rebase lastIndex lastTerm, ⟨true, true⟩)

end Replica

end ReplicatedStore
