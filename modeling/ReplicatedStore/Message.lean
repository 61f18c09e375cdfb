import ReplicatedStore.Command
/-!
# Messages

What members send each other: three requests and the reply to each.
-/
namespace ReplicatedStore

/-- A candidate asks for a vote and shows where its log ends. -/
structure VoteRequest where
  term : Nat
  candidate : NodeId
  lastIndex : Nat
  lastTerm : Nat
  deriving DecidableEq, Repr

/-- A leader sends a window of its log that starts after `prevIndex`; without entries it is a
heartbeat. -/
structure AppendRequest where
  term : Nat
  leader : NodeId
  prevIndex : Nat
  prevTerm : Nat
  entries : List Entry
  leaderCommit : Nat
  deriving DecidableEq, Repr

/-- A leader ships the state as of `lastIndex`. -/
structure InstallRequest where
  term : Nat
  leader : NodeId
  lastIndex : Nat
  lastTerm : Nat
  entries : List Entry
  deriving DecidableEq, Repr

/-- A request or a reply. Mirrors `RaftMessage`. -/
inductive Message where
  | voteRequest (r : VoteRequest)
  | voteReply (term : Nat) (granted : Bool)
  | appendRequest (r : AppendRequest)
  | appendReply (term : Nat) (success : Bool)
  | installRequest (r : InstallRequest)
  | installReply (term : Nat)
  deriving DecidableEq, Repr

namespace Message

/-- The sender's term. -/
def term : Message → Nat
  | .voteRequest r => r.term
  | .voteReply t _ => t
  | .appendRequest r => r.term
  | .appendReply t _ => t
  | .installRequest r => r.term
  | .installReply t => t

/-- The name of the kind, as it is written on the wire. -/
def kind : Message → String
  | .voteRequest _ => "VoteRequest"
  | .voteReply _ _ => "VoteResponse"
  | .appendRequest _ => "AppendEntries"
  | .appendReply _ _ => "AppendEntriesResponse"
  | .installRequest _ => "InstallSnapshot"
  | .installReply _ => "InstallSnapshotResponse"

end Message

end ReplicatedStore
