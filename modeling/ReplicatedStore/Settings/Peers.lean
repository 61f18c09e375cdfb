import ReplicatedStore.Error
import ReplicatedStore.Text.Blank
import ReplicatedStore.Text.Split
/-!
# Peer lists

A list of peers is written as `id=host:port` parts with commas between them, for instance
`2=127.0.0.1:7002,3=node3:7003`. Blanks around ids, addresses and parts do not count, and a part
that is empty without them is skipped. The first bad part decides the error.
-/
namespace ReplicatedStore

/-- A peer and where it listens. Mirrors `PeerConfig`. -/
structure Peer where
  id : NodeId
  /-- Host and port. -/
  address : String
  deriving DecidableEq, Repr

namespace Peer

/-- The peer that a part describes. -/
def ofPart (part : List Char) : Except SettingsFlaw Peer :=
  match splitOnce? '=' part with
  | none => .error (.noEquals (String.ofList part))
  | some (id, address) =>
    match Decimal.read? (String.ofList (Blank.trim id)) with
    | none => .error (.badId (String.ofList part))
    | some id =>
      if (Blank.trim address).contains ':' then .ok ⟨id, String.ofList (Blank.trim address)⟩
      else .error (.noPort (String.ofList part))

/-- The peers that a text lists. Mirrors `parse_peers`. -/
def listOf (spec : String) : Except SettingsFlaw (List Peer) :=
  (((splitOn ',' spec.toList).map Blank.trim).filter (!·.isEmpty)).mapM ofPart

/-- The part that stands for a peer. -/
def write (p : Peer) : String := Decimal.write p.id ++ "=" ++ p.address

end Peer

end ReplicatedStore
