import ReplicatedStore.Member.Recovery
import ReplicatedStore.Member.Requests
import ReplicatedStore.Network.Basic
/-!
# Receivers

What can be attached to a network: members, and stand-ins that treat every request alike.
-/
namespace ReplicatedStore

/-- What answers requests. -/
inductive Receiver where
  /-- Accepts everything. -/
  | echo
  /-- Takes requests and never replies. -/
  | silent
  /-- Is cut off as soon as it has a request, then accepts it. -/
  | cut
  /-- Takes no requests any more. -/
  | gone
  | member (m : Member MemoryDisk)

/-- A request that reached a stand-in. -/
structure Seen where
  sender : NodeId
  receiver : NodeId
  message : Message
  deriving DecidableEq, Repr

/-- A network of receivers, and the newest handle of each id. -/
structure Switchboard where
  network : Network Receiver := {}
  handles : Table NodeId Handle := .empty

namespace Receiver

/-- What a receiver registered under an id does with a request. -/
def receive (n : Network Receiver) (id : NodeId) (request : Message) :
    Receiver → Network Receiver × Option Message
  | echo => (n, some (.appendReply request.term true))
  | silent => (n, none)
  | cut => (n.isolate id, some (.appendReply request.term true))
  | gone => (n, none)
  | member m =>
    match m.handle (.ofMillis 0) request with
    | .error _ => (n, none)
    | .ok (m, .ok reply) => (n.register id (.member m), some reply)
    | .ok (m, .error _) => (n.register id (.member m), none)

/-- Whether a receiver is a stand-in that takes requests. -/
def shows : Receiver → Bool
  | echo | silent | cut => true
  | gone | member _ => false

/-- A fresh member. -/
def fresh (s : MemberSettings) : Except Fault (Except ServiceError Receiver) := do
  match ← Member.start s ({} : MemoryDisk) (.ofMillis 0) with
  | .error (e, _) => return .error e
  | .ok m => return .ok (.member m)

end Receiver

namespace Switchboard

/-- Attach a receiver; it gets a new handle. -/
def register (s : Switchboard) (id : NodeId) (r : Receiver) : Switchboard where
  network := s.network.register id r
  handles := s.handles.insert id ⟨id, false⟩

/-- Send a request through the newest handle of an id; what a stand-in saw of it too. -/
def send (s : Switchboard) (sender receiver : NodeId) (request : Message) :
    Switchboard × Except TransportError Message × Option Seen :=
  let h := (s.handles.get? sender).getD ⟨sender, true⟩
  let seen := match h.closed, s.network.route sender receiver with
    | false, .ok r => if r.shows then some ⟨sender, receiver, request⟩ else none
    | _, _ => none
  let (n, result) := s.network.send h receiver (Receiver.receive s.network receiver request)
  ({ s with network := n }, result, seen)

/-- Close the newest handle of an id. -/
def close (s : Switchboard) (id : NodeId) : Switchboard :=
  { s with handles := s.handles.insert id ⟨id, true⟩ }

/-- Shut down the member registered under an id. It closes its handle. -/
def shutDown (s : Switchboard) (id : NodeId) : Switchboard :=
  match s.network.receivers.get? id with
  | some (.member m) =>
    close { s with network := s.network.register id (.member m.shutDown) } id
  | _ => s

end Switchboard

end ReplicatedStore
