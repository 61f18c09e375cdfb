import ReplicatedStore.Wire.Image
import ReplicatedStore.Wire.Message
import ReplicatedStore.Wire.Status
/-!
# Frames

What arrives on a node's socket, from peers and from clients, and what goes back.
-/
namespace ReplicatedStore

/-- What a node is sent. -/
inductive Frame where
  | raft (m : Message)
  | propose (c : Command)
  | status
  deriving DecidableEq, Repr

/-- What a node sends back. -/
inductive FrameReply where
  | raft (m : Message)
  | applied (a : Answer)
  /-- The node does not lead; the leader it knows and where that listens. -/
  | notLeader (hint : Option NodeId) (address : Option String)
  | failed (reason : String)
  | status (s : Status)
  deriving DecidableEq, Repr

namespace Frame

/-- The written form. -/
def toJson : Frame → Json
  | .raft m => .tagged "Raft" m.toJson
  | .propose c => .tagged "Propose" c.toJson
  | .status => .text "Status"

/-- The frame that a value holds. -/
def ofJson? (j : Json) : Option Frame := do
  let (tag, contents) ← j.variant?
  match tag with
  | "Raft" => return .raft (← Message.ofJson? (← contents))
  | "Propose" => return .propose (← Command.ofJson? (← contents))
  | "Status" =>
    Json.unit? contents
    return .status
  | _ => none

end Frame

namespace FrameReply

/-- The written form. -/
def toJson : FrameReply → Json
  | .raft m => .tagged "Raft" m.toJson
  | .applied a => .tagged "Applied" a.toJson
  | .notLeader h a =>
    .tagged "NotLeader" (.record [("leader_hint", .option .nat h), ("leader_addr", .option .text a)])
  | .failed r => .tagged "Failed" (.text r)
  | .status s => .tagged "Status" s.toJson

/-- The reply that a value holds. -/
def ofJson? (j : Json) : Option FrameReply := do
  let (tag, contents) ← j.variant?
  let body ← contents
  match tag with
  | "Raft" => return .raft (← Message.ofJson? body)
  | "Applied" => return .applied (← Answer.ofJson? body)
  | "NotLeader" =>
    let r ← body.record? ["leader_hint", "leader_addr"]
    return .notLeader (← r.optional "leader_hint" Json.word?) (← r.optional "leader_addr" Json.text?)
  | "Failed" => return .failed (← body.text?)
  | "Status" => return .status (← Status.ofJson? body)
  | _ => none

/-- The reply that bytes hold, or the text of what is wrong with them. -/
def decode (bs : Bytes) : Except String FrameReply :=
  match Json.decode? ofJson? bs with
  | some reply => .ok reply
  | none => .error "invalid frame"

end FrameReply

end ReplicatedStore
