import ReplicatedStore.Cluster.Control
import ReplicatedStore.Wire.Frame
import ReplicatedStore.Wire.Framing
/-!
# Serving frames

What a node answers on its socket. A peer's message and a client's command go to the node; a node
that does not lead says who does, with the address if it knows one. Bytes that are no frame end
the connection.
-/
namespace ReplicatedStore

/-- What a client is told about a proposal. -/
def FrameReply.ofResult (addresses : Table NodeId String) : Except ServiceError Answer → FrameReply
  | .ok a => .applied a
  | .error (.notLeader h) => .notLeader h (h.bind addresses.get?)
  | .error e => .failed e.message

/-- What a peer is told about its message. -/
def FrameReply.ofHandled : Except ServiceError Message → FrameReply
  | .ok m => .raft m
  | .error e => .failed e.message

namespace Cluster

/-- What a node answers to a frame. A node that is not up answers like one that is going down. -/
def answerFrame (id : NodeId) (addresses : Table NodeId String) (f : Frame) (c : Cluster) :
    Except Fault (Cluster × FrameReply) := do
  match f with
  | .raft m =>
    let (c, o) ← c.deliver id m
    return (c, match o with
      | .done r => .ofHandled r
      | _ => .failed ServiceError.shutdown.message)
  | .propose command =>
    let (c, o) ← c.propose id command
    return (c, match o with
      | .done r => .ofResult addresses r
      | _ => .failed ServiceError.shutdown.message)
  | .status =>
    return (c, match c.running? id with
      | some r => .status r.member.published
      | none => .failed ServiceError.shutdown.message)

/-- Answer the frames at the front of a stream, at most `fuel` of them: the replies, and the rest
of the stream as long as the connection stands. -/
def answerStream (id : NodeId) (addresses : Table NodeId String) :
    Nat → Bytes → Cluster → Except Fault (Cluster × List FrameReply × Option Bytes)
  | 0, stream, c => .ok (c, [], some stream)
  | fuel + 1, stream, c =>
    match Framing.front stream with
    | .incomplete => .ok (c, [], some stream)
    | .tooLong => .ok (c, [], none)
    | .frame content rest =>
      match Json.decode? Frame.ofJson? content with
      | none => .ok (c, [], none)
      | some f => do
        let (c, reply) ← c.answerFrame id addresses f
        let (c, replies, open?) ← answerStream id addresses fuel rest c
        return (c, reply :: replies, open?)

end Cluster

end ReplicatedStore
