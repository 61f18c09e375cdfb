import ReplicatedStore.Replica.Basic
import ReplicatedStore.Wire.Command
/-!
# The written form of settings, ballots and statuses
-/
namespace ReplicatedStore

namespace Config

/-- The written form. -/
def toJson (c : Config) : Json :=
  .record [("election_timeout_min", .nat c.electionMin), ("election_timeout_max", .nat c.electionMax),
    ("heartbeat_interval", .nat c.heartbeat), ("snapshot_threshold", .nat c.snapshotThreshold)]

/-- The settings that a value holds. -/
def ofJson? (j : Json) : Option Config := do
  let r ← j.record?
    ["election_timeout_min", "election_timeout_max", "heartbeat_interval", "snapshot_threshold"]
  return {
    electionMin := ← r.required "election_timeout_min" Json.word?
    electionMax := ← r.required "election_timeout_max" Json.word?
    heartbeat := ← r.required "heartbeat_interval" Json.word?
    snapshotThreshold := ← r.required "snapshot_threshold" Json.word? }

end Config

namespace Role

/-- The name of a role. -/
def name : Role → String
  | .follower => "Follower"
  | .candidate => "Candidate"
  | .leader => "Leader"

/-- The written form. -/
def toJson (r : Role) : Json := .text r.name

/-- The name, bare or as a tag. -/
def ofJson? (j : Json) : Option Role := do
  let (tag, contents) ← j.variant?
  let r ← [follower, candidate, leader].find? (·.name == tag)
  Json.unit? contents
  return r

end Role

namespace Ballot

/-- The written form. -/
def toJson (b : Ballot) : Json :=
  .record [("current_term", .nat b.term), ("voted_for", .option .nat b.vote)]

/-- The ballot that a value holds. -/
def ofJson? (j : Json) : Option Ballot := do
  let r ← j.record? ["current_term", "voted_for"]
  return {
    term := ← r.required "current_term" Json.word?
    vote := ← r.optional "voted_for" Json.word? }

end Ballot

namespace Status

/-- The written form. -/
def toJson (s : Status) : Json :=
  .record [("node_id", .nat s.id), ("role", s.role.toJson), ("current_term", .nat s.term),
    ("voted_for", .option .nat s.vote), ("current_leader", .option .nat s.leader),
    ("log_size", .nat s.logSize), ("commit_index", .nat s.commitIndex),
    ("last_applied", .nat s.lastApplied)]

/-- The status that a value holds. -/
def ofJson? (j : Json) : Option Status := do
  let r ← j.record? ["node_id", "role", "current_term", "voted_for", "current_leader", "log_size",
    "commit_index", "last_applied"]
  return {
    id := ← r.required "node_id" Json.word?
    role := ← r.required "role" Role.ofJson?
    term := ← r.required "current_term" Json.word?
    vote := ← r.optional "voted_for" Json.word?
    leader := ← r.optional "current_leader" Json.word?
    logSize := ← r.required "log_size" Json.word?
    commitIndex := ← r.required "commit_index" Json.word?
    lastApplied := ← r.required "last_applied" Json.word? }

end Status

end ReplicatedStore
