import ReplicatedStore.Settings.Address
import ReplicatedStore.Settings.Consensus
import ReplicatedStore.Settings.Peers
import ReplicatedStore.Table
/-!
# The description of a node

Who a node is, where it listens, who its peers are, and where its files are.
-/
namespace ReplicatedStore

/-- One node of a cluster. Mirrors `NodeConfig`. -/
structure NodeConfig where
  id : NodeId := 1
  listen : SocketAddress := .v4 [127, 0, 0, 1] 7001
  peers : List Peer := []
  /-- The directory of the node's files. -/
  dataDir : String := "data"
  /-- The longest wait for a peer's answer, in milliseconds. -/
  rpcTimeout : Nat := 100
  consensus : Config := {}
  deriving DecidableEq, Repr

namespace NodeConfig

/-- The ids of the peers, as given. Mirrors `peer_ids`. -/
def peerIds (c : NodeConfig) : List NodeId := c.peers.map (·.id)

/-- Where each peer listens; of two addresses for one peer the later one counts. Mirrors
`peer_addrs`. -/
def peerAddresses (c : NodeConfig) : Table NodeId String :=
  .ofList (c.peers.map fun p => (p.id, p.address))

/-- The first id that occurs among those before it. -/
def repeated? (seen : List NodeId) : List NodeId → Option NodeId
  | [] => none
  | i :: is => if i ∈ seen then some i else repeated? (i :: seen) is

/-- What makes the description unusable, if anything does. Mirrors `validate`. -/
def validate (c : NodeConfig) : Except ServiceError Unit :=
  match c.consensus.flaw? with
  | some f => .error (.consensus (.invalidConfig f.message))
  | none =>
    if c.rpcTimeout = 0 then .error (.settings .noRpcTimeout)
    else
      match repeated? [c.id] c.peerIds with
      | some i => .error (.settings (.repeatedId i))
      | none => .ok ()

end NodeConfig

end ReplicatedStore
