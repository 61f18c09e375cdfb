import ReplicatedStore.Link.Exchange
import ReplicatedStore.Link.Loopback
/-!
# Links to peers

A node's links, one for each peer whose address it knows. An exchange on a free link is carried
out here event by event against the sockets of a host.
-/
namespace ReplicatedStore

/-- The links of a node. Mirrors `TcpTransport`. -/
structure PeerLinks where
  addresses : Table NodeId String
  links : Table NodeId Link
  closed : Bool := false

namespace PeerLinks

/-- Links to the peers at the given addresses. -/
def ofAddresses (addresses : Table NodeId String) : PeerLinks where
  addresses := addresses
  links := .ofList (addresses.keys.map fun p => (p, { peer := p }))

/-- The events of an exchange on a link that has just been taken, and what becomes of the host. -/
def events (h : Loopback) (l : Link) (address : String) (f : Frame) : Loopback × List LinkEvent :=
  let dialled := if l.idle.isSome then some (h, []) else (h.dial? address).map (·, [.connected])
  match dialled with
  | none => (h, [.take, .refused])
  | some (h, connecting) =>
    let (h, reply) := h.ask address (Json.encode Frame.toJson f)
    let answer := match reply with
      | some text => .answered (FrameReply.decode text)
      | none => .hungUp
    (h, .take :: connecting ++ [.written, answer, .read])

/-- Send a message to a peer and wait for what comes back. Mirrors `send`. -/
def send (p : PeerLinks) (h : Loopback) (peer : NodeId) (m : Message) :
    Loopback × PeerLinks × Except TransportError Message :=
  if p.closed then (h, p, .error .closed)
  else
    match p.addresses.get? peer, p.links.get? peer with
    | some address, some l =>
      let f := Frame.raft m
      let (h, es) := events h l address f
      match (Link.run { l with results := [] } (.call ⟨0, f⟩ :: es)) with
      | none => (h, p, .error (.unreachable peer))
      | some l =>
        let result := match l.results with
          | (_, r) :: _ => r.bind Link.messageOf
          | [] => .error (.unreachable peer)
        (h, { p with links := p.links.insert peer l }, result)
    | _, _ => (h, p, .error (.unknownPeer peer))

/-- Send nothing more, and drop every connection. Mirrors `close`. -/
def close (p : PeerLinks) : PeerLinks where
  addresses := p.addresses
  links := .ofList (p.links.entries.map fun (i, l) =>
    (i, (l.run [.close, .dropIdle]).getD l))
  closed := true

end PeerLinks

end ReplicatedStore
