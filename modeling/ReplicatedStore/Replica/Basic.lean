import ReplicatedStore.Message
import ReplicatedStore.Settings.Consensus
import ReplicatedStore.Word
/-!
# Replicas

The consensus state of one member: its term and vote, its role, its log above the snapshot base,
and, while it leads, how far each peer has come. A replica never touches the network, a clock or a
disk: each operation gives the next state and says what the caller has to do.

The views of the log are `entryAt?` and `termAt`; `lastIndex` and `lastTerm` say where it ends.
-/
namespace ReplicatedStore

/-- What a member currently does for the cluster. Mirrors `NodeState`. -/
inductive Role where
  /-- Answers requests. -/
  | follower
  /-- Asks for votes. -/
  | candidate
  /-- Orders commands. -/
  | leader
  deriving DecidableEq, Repr

/-- The part of the state that has to outlive a crash with every answer: the term, and the vote
given in it. Mirrors `HardState`. -/
structure Ballot where
  term : Nat
  vote : Option NodeId
  deriving DecidableEq, Repr

/-- The consensus state of a member. Mirrors `RaftNode`. -/
structure Replica where
  id : NodeId
  /-- Every member of the cluster, this one included. -/
  members : List NodeId
  config : Config
  role : Role
  term : Nat
  /-- The candidate voted for in this term. -/
  vote : Option NodeId
  /-- The leader heard from in this term. -/
  leader : Option NodeId
  /-- The entries after the snapshot base, in order. -/
  log : List Entry
  /-- The snapshot base: the last position that the latest image covers, 0 without one. -/
  snapshotIndex : Nat
  snapshotTerm : Nat
  commitIndex : Nat
  lastApplied : Nat
  /-- Who voted for this candidate, in the order of the answers. -/
  votes : List NodeId
  /-- The next position to send to each peer of a leader. -/
  next : Table NodeId Nat
  /-- The highest position known to be held by each peer of a leader. -/
  matched : Table NodeId Nat
  deriving DecidableEq, Repr

/-- What a member shows to others. Mirrors `NodeStatus`. -/
structure Status where
  id : NodeId
  role : Role
  term : Nat
  vote : Option NodeId
  leader : Option NodeId
  logSize : Nat
  commitIndex : Nat
  lastApplied : Nat
  deriving DecidableEq, Repr

namespace Replica

/-- A follower of term 0 with an empty log. Its own id joins the members if it is not there. Mirrors
`with_config`. -/
def create (id : NodeId) (members : List NodeId) (config : Config) : Replica where
  id := id
  members := if id ∈ members then members else members ++ [id]
  config := config
  role := .follower
  term := 0
  vote := none
  leader := none
  log := []
  snapshotIndex := 0
  snapshotTerm := 0
  commitIndex := 0
  lastApplied := 0
  votes := []
  next := .empty
  matched := .empty

/-- The other members. Mirrors `peers`. -/
def peers (r : Replica) : List NodeId := r.members.filter (· ≠ r.id)

/-- The size of a strict majority. Mirrors `quorum_size`. -/
def quorum (r : Replica) : Nat := r.members.length / 2 + 1

/-- Whether the votes received are a majority. Mirrors `has_quorum`. -/
def hasQuorum (r : Replica) : Bool := r.quorum ≤ r.votes.length

/-- Whether the member leads. Mirrors `is_leader`. -/
def leads (r : Replica) : Bool := r.role = .leader

/-- The term and the vote. Mirrors `hard_state`. -/
def ballot (r : Replica) : Ballot := ⟨r.term, r.vote⟩

/-- Take over a stored term and vote. Mirrors `restore_hard_state`. -/
def withBallot (r : Replica) (b : Ballot) : Replica := { r with term := b.term, vote := b.vote }

/-- What the member shows. Mirrors `status`. -/
def status (r : Replica) : Status where
  id := r.id
  role := r.role
  term := r.term
  vote := r.vote
  leader := r.leader
  logSize := r.log.length
  commitIndex := r.commitIndex
  lastApplied := r.lastApplied

/-! ## The log -/

/-- The position of the last entry, or of the snapshot base. Mirrors `last_log_index`. -/
def lastIndex (r : Replica) : Nat := (r.log.getLast?.map (·.index)).getD r.snapshotIndex

/-- The term of the last entry, or of the snapshot base. Mirrors `last_log_term`. -/
def lastTerm (r : Replica) : Nat := (r.log.getLast?.map (·.term)).getD r.snapshotTerm

/-- The entry at a position, if the log still holds it. Mirrors `get_entry`. -/
def entryAt? (r : Replica) (i : Nat) : Option Entry :=
  if i ≤ r.snapshotIndex then none else r.log[i - r.snapshotIndex - 1]?

/-- The term at a position, 0 where it is not known. Mirrors `get_term_at`. -/
def termAt (r : Replica) (i : Nat) : Nat :=
  if i = 0 then 0
  else if i = r.snapshotIndex then r.snapshotTerm
  else ((r.entryAt? i).map (·.term)).getD 0

/-- The entries from a position on, or from the snapshot base if that is higher. Mirrors
`get_entries_from`. -/
def entriesFrom (r : Replica) (i : Nat) : Except Fault (List Entry) := do
  let first ← Word.add r.snapshotIndex 1
  return r.log.drop (max i first - r.snapshotIndex - 1)

/-- Whether a log that ends as described is at least as complete as this one: a later last term
wins, then the longer log. Mirrors `is_log_up_to_date`. -/
def isUpToDate (r : Replica) (lastIndex lastTerm : Nat) : Bool :=
  r.lastTerm < lastTerm || (lastTerm = r.lastTerm && r.lastIndex ≤ lastIndex)

/-- Drop the first entries of the log; the log has to have that many. Mirrors the `drain` of
`compact_log` and of `handle_install_snapshot`. -/
def dropFirst (r : Replica) (n : Nat) : Except Fault Replica :=
  if n ≤ r.log.length then .ok { r with log := r.log.drop n } else .error .range

end Replica

end ReplicatedStore
