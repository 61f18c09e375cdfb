import ReplicatedStore.Error
import ReplicatedStore.Settings.Address
import ReplicatedStore.Text.Split
import ReplicatedStore.Wire.Frame
import ReplicatedStore.Wire.Framing
import Std.Async.DNS
import Std.Async.TCP
import Std.Async.Timer
/-!
# Sockets

Frames over connections of the host.
-/
namespace ReplicatedStore

open Std.Async

/-- An address as the host's network takes it. -/
def SocketAddress.toNet : SocketAddress → Std.Net.SocketAddress
  | .v4 octets port =>
    let o (i : Nat) : UInt8 := .ofNat (octets.getD i 0)
    .v4 ⟨.ofParts (o 0) (o 1) (o 2) (o 3), .ofNat port⟩
  | .v6 groups _ port =>
    let g (i : Nat) : UInt16 := .ofNat (groups.getD i 0)
    .v6 ⟨.ofParts (g 0) (g 1) (g 2) (g 3) (g 4) (g 5) (g 6) (g 7), .ofNat port⟩

/-- A connection, and what was received on it but not read yet. -/
structure Socket where
  client : TCP.Socket.Client
  received : IO.Ref Bytes

/-- What reading a frame comes to. -/
inductive Reading where
  | frame (content : Bytes)
  /-- The other side hung up, or sent what cannot start a frame. -/
  | ended
  /-- Nothing came in time. -/
  | late

namespace Socket

/-- Milliseconds. -/
def milliseconds (n : Nat) : Std.Time.Millisecond.Offset := .ofNat n

/-- A connection that was just made. -/
def ofClient (client : TCP.Socket.Client) : IO Socket := do
  client.noDelay
  return ⟨client, ← IO.mkRef []⟩

/-- The addresses that a text names: an address and a port, or a host name and a port. -/
def resolve (address : String) : Async (List Std.Net.SocketAddress) := do
  match SocketAddress.read? address with
  | some a => return [a.toNet]
  | none =>
    match splitOnce? ':' address.toList.reverse with
    | none => return []
    | some (port, host) =>
      match Decimal.read? (.ofList port.reverse) with
      | none => return []
      | some port =>
        let found ← DNS.getAddrInfo (.ofList host.reverse) (Decimal.write port)
        return found.toList.map fun
          | .v4 a => .v4 ⟨a, .ofNat port⟩
          | .v6 a => .v6 ⟨a, .ofNat port⟩

/-- Connect to the first of some addresses that accepts. -/
def connectAny : List Std.Net.SocketAddress → Async Socket
  | [] => throw (IO.userError "no address to connect to")
  | a :: rest => do
    try
      let client ← TCP.Socket.Client.mk
      client.connect a
      ofClient client
    catch e =>
      if rest.isEmpty then throw e else connectAny rest

/-- Connect to what a text names. -/
def connect (address : String) : Async Socket := do connectAny (← resolve address)

/-- Connect to what a text names, in a number of milliseconds. -/
def connectWithin (ms : Nat) (address : String) : Async (Option Socket) :=
  EAsync.race (do return some (← connect address)) (do
    sleep (milliseconds ms)
    return none)

/-- Send a frame. -/
def write (s : Socket) (content : Bytes) : Async Unit := do
  match Framing.write? content with
  | none => throw (IO.userError "frame size too big")
  | some bytes => s.client.send ⟨bytes.toArray⟩

/-- Wait for bytes, for a number of milliseconds if one is given; nothing at the end. -/
def receive (s : Socket) (wait : Option Nat) : Async (Option (Option ByteArray)) := do
  match wait with
  | none => return some (← s.client.recv? 65536)
  | some ms =>
    Selectable.one #[
      .case (s.client.recvSelector 65536) fun bytes => return some bytes,
      .case (← Selector.sleep (milliseconds ms)) fun () => return none]

/-- Read a frame. -/
def read (s : Socket) (wait : Option Nat) : Async Reading := do
  repeat
    match Framing.front (← s.received.get) with
    | .tooLong => return .ended
    | .frame content rest =>
      s.received.set rest
      return .frame content
    | .incomplete =>
      match ← s.receive wait with
      | none => return .late
      | some none => return .ended
      | some (some bytes) => s.received.modify (· ++ bytes.data.toList)
  return .ended

/-- Send one request over a connection of its own. -/
def request (address : String) (f : Frame) : Async (Except TransportError FrameReply) := do
  try
    let s ← connect address
    s.write (Json.encode Frame.toJson f)
    match ← s.read none with
    | .frame content => return (FrameReply.decode content).mapError .codec
    | _ => return .error .closed
  catch e => return .error (.io (toString e))

end Socket

end ReplicatedStore
