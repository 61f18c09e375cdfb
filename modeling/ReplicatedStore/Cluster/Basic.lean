import ReplicatedStore.Member.Campaign
import ReplicatedStore.Member.Majority
import ReplicatedStore.Member.Recovery
import ReplicatedStore.Member.Replication
import ReplicatedStore.Member.Requests
import ReplicatedStore.Settings.Node
import ReplicatedStore.Storage.EitherDisk
/-!
# Clusters in one process

Several nodes and what surrounds them, run one task after the other. Each node has a clock of its
own, which stands still except while that node is being run, so that a run is decided by its
input. Peers that are no nodes answer from scripts.
-/
namespace ReplicatedStore

/-! ## Surroundings -/

/-- What a scripted peer does with a request. -/
inductive ScriptedReply where
  /-- Agree, in the term of the request. -/
  | accept
  /-- Refuse, in the term of the request. -/
  | reject
  | unreachable
  | closed
  /-- Never answer. -/
  | hang
  | message (m : Message)
  deriving DecidableEq, Repr

/-- How a scripted peer answers: the replies in turn, then always the default. -/
structure Script where
  replies : List ScriptedReply := []
  default : ScriptedReply
  deriving DecidableEq, Repr

/-- A request that was handed to the links, and what came back. -/
structure Sent where
  sender : NodeId
  receiver : NodeId
  request : Message
  reply : Except TransportError Message

/-! ## Nodes -/

/-- Who waits for a peer to be brought up. -/
inductive Purpose where
  | proposal (ticket : Nat)
  | background
  deriving DecidableEq, Repr

/-- Work of a node that is ready to go on. -/
inductive Task where
  /-- Ask peers for their votes, one after the other. -/
  | askVotes (request : VoteRequest) (peers : List NodeId)
  /-- Bring a peer up to a position. -/
  | replicate (peer : NodeId) (target : Nat) (purpose : Purpose)
  /-- Stop bringing a peer up, for the wait for its answer is over. -/
  | giveUp (peer : NodeId) (purpose : Purpose)
  /-- Send the heartbeats of one round. -/
  | round
  /-- Send one heartbeat. -/
  | beat (peer : NodeId) (request : AppendRequest)
  deriving DecidableEq, Repr

/-- A proposal on its way. -/
structure Proposal where
  tally : Tally
  /-- The end of the wait for a majority. -/
  barrier : Option PeerOutcome := none
  /-- The answer of the machine. -/
  answer : Option (Except ServiceError Answer) := none

namespace Proposal

/-- What the proposal gives, once that is decided. -/
def result? (p : Proposal) : Option (Except ServiceError Answer) :=
  match p.barrier with
  | none => none
  | some (.error e) => some (.error e)
  | some (.ok ()) => p.answer

end Proposal

/-- A node that is up. -/
structure Running where
  member : Member NodeDisk
  /-- The links were closed. -/
  closed : Bool := false
  /-- Milliseconds of the node's own time. -/
  clock : Nat := 0
  /-- What is ready, oldest first. -/
  ready : List Task := []
  /-- What becomes ready later, and when. -/
  sleeping : List (Nat × Task) := []
  /-- When the election timer fires, as long as it runs. -/
  electionAt : Option Nat
  /-- When the next round of heartbeats is due. -/
  nextBeat : Option Nat := none
  proposals : Table Nat Proposal := .empty

/-- A node of the cluster. -/
structure Node where
  settings : MemberSettings
  /-- The longest wait for a peer's answer, in milliseconds. -/
  rpcTimeout : Nat
  /-- The disk as it was when the node was last down. -/
  stored : NodeDisk
  running : Option Running := none

/-- The disk as it is. -/
def Node.disk (n : Node) : NodeDisk := (n.running.map (·.member.disk)).getD n.stored

/-- Change what the disk does. -/
def Node.mapDisk (n : Node) (f : NodeDisk → NodeDisk) : Node :=
  { n with
    stored := f n.stored
    running := n.running.map fun r => { r with member := { r.member with disk := f r.member.disk } } }

/-- Nodes and their surroundings. -/
structure Cluster where
  nodes : Table NodeId Node := .empty
  scripts : Table NodeId Script := .empty
  isolated : List NodeId := []
  /-- The requests since this was last cleared, oldest first. -/
  sent : List Sent := []

/-- What happens in a cluster. A fault undoes what the running task did. -/
abbrev Happening := StateT Cluster (Except Fault)

namespace Cluster

/-- How many tasks or events a node goes through at most, and how many requests it takes to bring a
peer up, before something is amiss. -/
def patience : Nat := 100000

/-- A node that is up. -/
def running? (c : Cluster) (id : NodeId) : Option Running := (c.nodes.get? id).bind (·.running)

/-- Change a node. -/
def mapNode (c : Cluster) (id : NodeId) (f : Node → Node) : Cluster :=
  match c.nodes.get? id with
  | none => c
  | some n => { c with nodes := c.nodes.insert id (f n) }

/-- Change a node that is up. -/
def mapRunning (c : Cluster) (id : NodeId) (f : Running → Running) : Cluster :=
  c.mapNode id fun n => { n with running := n.running.map f }

/-- The longest wait of a node for an answer. -/
def rpcTimeout (c : Cluster) (id : NodeId) : Nat := ((c.nodes.get? id).map (·.rpcTimeout)).getD 0

end Cluster

namespace Running

/-- When the election timer fires if it starts now. -/
def electionDue (r : Running) : Nat := r.clock + r.member.replica.config.electionMin

/-- Do what a section wanted done. -/
def perform (r : Running) : Effect → Running
  | .settle ticket result =>
    match r.proposals.get? ticket with
    | some p =>
      { r with
        proposals := r.proposals.insert ticket { p with answer := p.answer <|> some result } }
    | none => r
  | .startHeartbeat =>
    { r with
      ready := r.ready ++ [.round]
      nextBeat := some (r.clock + r.member.replica.config.heartbeat) }
  | .stopHeartbeat => { r with ready := r.ready.filter (· ≠ .round), nextBeat := none }
  | .resetElectionTimer => { r with electionAt := r.electionAt.map fun _ => r.electionDue }
  | .catchUp peer target => { r with ready := r.ready ++ [.replicate peer target .background] }

/-- Take over a member and do what it left to be done. -/
def adopt (r : Running) (m : Member NodeDisk) : Running :=
  m.outbox.foldl perform { r with member := { m with outbox := [] } }

/-- The wall clock. -/
def now (r : Running) : Instant := .ofMillis r.clock

end Running

end ReplicatedStore
