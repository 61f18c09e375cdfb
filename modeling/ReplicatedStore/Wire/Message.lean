import ReplicatedStore.Message
import ReplicatedStore.Wire.Command
/-!
# The written form of messages

A message is tagged with its kind.
-/
namespace ReplicatedStore

namespace VoteRequest

/-- The written form, without the tag. -/
def toJson (r : VoteRequest) : Json :=
  .record [("term", .nat r.term), ("candidate_id", .nat r.candidate),
    ("last_log_index", .nat r.lastIndex), ("last_log_term", .nat r.lastTerm)]

/-- The request that a value holds. -/
def ofJson? (j : Json) : Option VoteRequest := do
  let r ← j.record? ["term", "candidate_id", "last_log_index", "last_log_term"]
  return {
    term := ← r.required "term" Json.word?
    candidate := ← r.required "candidate_id" Json.word?
    lastIndex := ← r.required "last_log_index" Json.word?
    lastTerm := ← r.required "last_log_term" Json.word? }

end VoteRequest

namespace AppendRequest

/-- The written form, without the tag. -/
def toJson (r : AppendRequest) : Json :=
  .record [("term", .nat r.term), ("leader_id", .nat r.leader),
    ("prev_log_index", .nat r.prevIndex), ("prev_log_term", .nat r.prevTerm),
    ("entries", .list Entry.toJson r.entries), ("leader_commit", .nat r.leaderCommit)]

/-- The request that a value holds. -/
def ofJson? (j : Json) : Option AppendRequest := do
  let r ← j.record?
    ["term", "leader_id", "prev_log_index", "prev_log_term", "entries", "leader_commit"]
  return {
    term := ← r.required "term" Json.word?
    leader := ← r.required "leader_id" Json.word?
    prevIndex := ← r.required "prev_log_index" Json.word?
    prevTerm := ← r.required "prev_log_term" Json.word?
    entries := ← r.required "entries" (Json.list? Entry.ofJson?)
    leaderCommit := ← r.required "leader_commit" Json.word? }

end AppendRequest

namespace InstallRequest

/-- The written form, without the tag. -/
def toJson (r : InstallRequest) : Json :=
  .record [("term", .nat r.term), ("leader_id", .nat r.leader),
    ("last_included_index", .nat r.lastIndex), ("last_included_term", .nat r.lastTerm),
    ("entries", .list Entry.toJson r.entries)]

/-- The request that a value holds. -/
def ofJson? (j : Json) : Option InstallRequest := do
  let r ← j.record?
    ["term", "leader_id", "last_included_index", "last_included_term", "entries"]
  return {
    term := ← r.required "term" Json.word?
    leader := ← r.required "leader_id" Json.word?
    lastIndex := ← r.required "last_included_index" Json.word?
    lastTerm := ← r.required "last_included_term" Json.word?
    entries := ← r.required "entries" (Json.list? Entry.ofJson?) }

end InstallRequest

namespace Message

/-- The written form. -/
def toJson (m : Message) : Json :=
  .tagged m.kind (match m with
    | .voteRequest r => r.toJson
    | .voteReply t g => .record [("term", .nat t), ("vote_granted", .bool g)]
    | .appendRequest r => r.toJson
    | .appendReply t s => .record [("term", .nat t), ("success", .bool s)]
    | .installRequest r => r.toJson
    | .installReply t => .record [("term", .nat t)])

/-- The message that a value holds. -/
def ofJson? (j : Json) : Option Message := do
  let (tag, contents) ← j.variant?
  let body ← contents
  match tag with
  | "VoteRequest" => return .voteRequest (← VoteRequest.ofJson? body)
  | "VoteResponse" =>
    let r ← body.record? ["term", "vote_granted"]
    return .voteReply (← r.required "term" Json.word?) (← r.required "vote_granted" Json.bool?)
  | "AppendEntries" => return .appendRequest (← AppendRequest.ofJson? body)
  | "AppendEntriesResponse" =>
    let r ← body.record? ["term", "success"]
    return .appendReply (← r.required "term" Json.word?) (← r.required "success" Json.bool?)
  | "InstallSnapshot" => return .installRequest (← InstallRequest.ofJson? body)
  | "InstallSnapshotResponse" =>
    let r ← body.record? ["term"]
    return .installReply (← r.required "term" Json.word?)
  | _ => none

end Message

end ReplicatedStore
