import ReplicatedStore.Cluster.Basic
/-!
# Delivery

How a request gets from a node to a peer and what comes back. A request to another node is first let
in, if that node has not stopped, and then runs that node's whole section.
-/
namespace ReplicatedStore

/-- What a sender sees of a request. -/
inductive Delivery where
  | replied (m : Message)
  | failed (e : TransportError)
  /-- Nothing, until the wait is over. -/
  | hanging
  deriving DecidableEq, Repr

namespace ScriptedReply

/-- The reply that agrees to or refuses a request. -/
def verdict (request : Message) (yes : Bool) : Message :=
  match request with
  | .voteRequest q => .voteReply q.term yes
  | .appendRequest q => .appendReply q.term yes
  | .installRequest q => .installReply q.term
  | reply => reply

/-- What a sender sees of a request to a scripted peer. -/
def deliver (s : ScriptedReply) (peer : NodeId) (request : Message) : Delivery :=
  match s with
  | .accept => .replied (verdict request true)
  | .reject => .replied (verdict request false)
  | .unreachable => .failed (.unreachable peer)
  | .closed => .failed .closed
  | .hang => .hanging
  | .message m => .replied m

end ScriptedReply

namespace Cluster

/-- Run a section of a node that is up and do what it leaves to be done. -/
def within {α : Type} (id : NodeId) (f : Running → Except Fault (Member NodeDisk × α)) :
    Happening (Option α) := do
  match (← get).running? id with
  | none => return none
  | some r =>
    let (m, a) ← f r
    modify (·.mapRunning id fun r => r.adopt m)
    return some a

/-- Hand a message to a node. -/
def handTo (id : NodeId) (m : Message) : Happening (Option (Except ServiceError Message)) :=
  within id fun r => r.member.handle r.now m

/-- The next reply of a scripted peer. -/
def scripted? (c : Cluster) (peer : NodeId) : Option (ScriptedReply × Cluster) :=
  match c.scripts.get? peer with
  | none => none
  | some s =>
    match s.replies with
    | [] => some (s.default, c)
    | r :: rs => some (r, { c with scripts := c.scripts.insert peer { s with replies := rs } })

/-- Put down a request and what came back of it. -/
def record (sender receiver : NodeId) (request : Message) (d : Delivery) : Happening Delivery := do
  let reply := match d with
    | .replied m => .ok m
    | .failed e => .error e
    | .hanging => .error (.timeout receiver)
  modify fun c => { c with sent := c.sent ++ [⟨sender, receiver, request, reply⟩] }
  return d

/-- Send a request, which the receiver answers at once. A node whose links are closed or that stopped
sends nothing. -/
def send (sender receiver : NodeId) (request : Message) : Happening Delivery := do
  let c ← get
  if (c.running? sender).all fun r => r.closed || r.member.stopped then
    return .failed .closed
  if sender ∈ c.isolated ∨ receiver ∈ c.isolated then
    record sender receiver request (.failed (.unreachable receiver))
  else if (c.running? receiver).isSome then
    match ← handTo receiver request with
    | some (.ok m) => record sender receiver request (.replied m)
    | _ => record sender receiver request (.failed (.unreachable receiver))
  else
    match c.scripted? receiver with
    | some (s, c) =>
      set c
      record sender receiver request (s.deliver receiver request)
    | none => record sender receiver request (.failed (.unknownPeer receiver))

end Cluster

end ReplicatedStore
