import ReplicatedStore.Error
import ReplicatedStore.Table
import ReplicatedStore.Wire.Frame
/-!
# The sockets of a host

What listens at the addresses of a host, as far as a client can tell: each listener answers the
requests it is sent in turn with texts that are laid down, and hangs up where there is none. A
host may have no network at all; then nothing can be reached.
-/
namespace ReplicatedStore

/-- A listener. -/
structure Listener where
  /-- What the next requests are answered with; nothing where the listener hangs up. -/
  replies : List (Option Bytes) := []
  /-- How many connections were accepted. -/
  accepted : Nat := 0
  /-- The requests that came, oldest first. -/
  requests : List Bytes := []
  deriving DecidableEq, Repr

/-- The sockets of a host. -/
structure Loopback where
  /-- Whether the host has a network. -/
  up : Bool
  /-- What listens where. -/
  listeners : Table String Listener := .empty
  deriving DecidableEq, Repr

namespace Loopback

/-- Connect to an address; none if nobody is there. -/
def dial? (h : Loopback) (address : String) : Option Loopback :=
  if !h.up then none
  else (h.listeners.get? address).map fun l =>
    { h with listeners := h.listeners.insert address { l with accepted := l.accepted + 1 } }

/-- Send a request over a connection to an address; the reply, none if the listener hangs up. -/
def ask (h : Loopback) (address : String) (request : Bytes) : Loopback × Option Bytes :=
  match h.listeners.get? address with
  | none => (h, none)
  | some l =>
    let reply := l.replies.head?.join
    ({ h with
        listeners := h.listeners.insert address
          { l with replies := l.replies.tail, requests := l.requests ++ [request] } }, reply)

/-- Send one request over a connection of its own. Mirrors `request`. -/
def request (address : String) (f : Frame) :
    StateM Loopback (Except TransportError FrameReply) := do
  match (← get).dial? address with
  | none => return .error (.io "connection refused")
  | some h =>
    let (h, reply) := h.ask address (Json.encode Frame.toJson f)
    set h
    match reply with
    | none => return .error .closed
    | some text => return (FrameReply.decode text).mapError .codec

end Loopback

end ReplicatedStore
