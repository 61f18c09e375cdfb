import ReplicatedStore.Error
import ReplicatedStore.Message
import ReplicatedStore.Table
/-!
# Networks in one process

Receivers by the id they are registered under, and the members that are cut off. A request takes
its route to the receiver; the route has to stand again when the reply is there.

* `send_eq_of_closed`: nothing is sent through a closed handle.
-/
namespace ReplicatedStore

/-- Who can be reached. Mirrors `MemoryNetwork`. -/
structure Network (ρ : Type) where
  receivers : Table NodeId ρ := .empty
  isolated : List NodeId := []

/-- A member's way into the network. Mirrors `MemoryTransport`. -/
structure Handle where
  id : NodeId
  closed : Bool := false
  deriving DecidableEq, Repr

namespace Network

variable {ρ : Type}

/-- Attach a receiver, in the place of an earlier one. Mirrors `register`. -/
def register (n : Network ρ) (id : NodeId) (r : ρ) : Network ρ :=
  { n with receivers := n.receivers.insert id r }

/-- Cut a member off, both ways. Mirrors `isolate`. -/
def isolate (n : Network ρ) (id : NodeId) : Network ρ :=
  if id ∈ n.isolated then n else { n with isolated := id :: n.isolated }

/-- Undo a cut. Mirrors `heal`. -/
def heal (n : Network ρ) (id : NodeId) : Network ρ :=
  { n with isolated := n.isolated.filter (· ≠ id) }

/-- The receiver at the end of a route. Mirrors `route`. -/
def route (n : Network ρ) (sender receiver : NodeId) : Except TransportError ρ :=
  if sender ∈ n.isolated ∨ receiver ∈ n.isolated then .error (.unreachable receiver)
  else
    match n.receivers.get? receiver with
    | some r => .ok r
    | none => .error (.unknownPeer receiver)

/-- Send a request through a handle. `receive` is what the receiver does with it, to the network
too, and the reply it gives if it gives one. Mirrors `send`. -/
def send (n : Network ρ) (h : Handle) (receiver : NodeId)
    (receive : ρ → Network ρ × Option Message) : Network ρ × Except TransportError Message :=
  if h.closed then (n, .error .closed)
  else
    match n.route h.id receiver with
    | .error e => (n, .error e)
    | .ok r =>
      match receive r with
      | (n, none) => (n, .error (.unreachable receiver))
      | (n, some reply) =>
        match n.route h.id receiver with
        | .ok _ => (n, .ok reply)
        | .error _ => (n, .error (.unreachable receiver))

theorem send_eq_of_closed (n : Network ρ) {h : Handle} (hc : h.closed = true) (receiver : NodeId)
    (receive : ρ → Network ρ × Option Message) :
    n.send h receiver receive = (n, .error .closed) := by
  simp [send, hc]

end Network

end ReplicatedStore
