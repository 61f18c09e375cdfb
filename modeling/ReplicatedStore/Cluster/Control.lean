import ReplicatedStore.Cluster.Time
/-!
# Driving a cluster

What can be done to a cluster from outside: start and stop nodes, let timers fire, propose
commands, hand over messages, cut nodes off, and let disks fail.
-/
namespace ReplicatedStore

/-- How something that was asked of a node ended. -/
inductive Outcome (α : Type) where
  | done (a : α)
  /-- The node is not up. -/
  | notStarted
  /-- The node had stopped, or stopped while it was at it. -/
  | halted
  deriving DecidableEq, Repr

/-- What came of waiting for the election timer. -/
inductive ElectionWait where
  | fired
  | alreadyLeader
  | noTimeout
  deriving DecidableEq, Repr

/-- Where the files of a new node come from. -/
inductive Storage where
  | memory (contents : DiskContents)
  /-- A directory with these files. -/
  | files (d : Directory)

namespace Cluster

/-- The time that passes after something was done to a node, so that waits end. -/
def pause : Nat := 1000

/-! ## Starting and stopping -/

/-- The disk a node starts with. A directory is checked together with the node's description. -/
def openDisk (s : MemberSettings) (rpcTimeout : Nat) : NodeDisk → Except ServiceError NodeDisk
  | .inl m => .ok (.inl m)
  | .inr f => do
    let description : NodeConfig :=
      { id := s.id, peers := s.peers.map (⟨·, ""⟩), rpcTimeout := rpcTimeout, consensus := s.config }
    description.validate
    match FileDisk.ofDirectory f.directory with
    | .ok f => return .inr f
    | .error e => throw (.storage e)

/-- Start a node on the disk it has. -/
def startNode (n : Node) : Except Fault (Node × Except ServiceError Unit) := do
  match openDisk n.settings n.rpcTimeout n.stored with
  | .error e => return (n, .error e)
  | .ok disk =>
    match ← Member.start n.settings disk (.ofMillis 0) with
    | .error (e, disk) => return ({ n with stored := disk }, .error e)
    | .ok m =>
      let r : Running := { member := m, electionAt := some m.replica.config.electionMin }
      return ({ n with stored := m.disk, running := some r }, .ok ())

/-- Add a node and start it. -/
def add (s : MemberSettings) (rpcTimeout : Nat) (storage : Storage) (c : Cluster) :
    Except Fault (Cluster × Except ServiceError Unit) := do
  let disk := match storage with
    | .memory contents => Sum.inl { contents := contents }
    | .files d => Sum.inr ⟨d, {}⟩
  let (n, result) ← startNode ⟨s, rpcTimeout, disk, none⟩
  return ({ c with nodes := c.nodes.insert s.id n }, result)

/-- Shut a node down. -/
def shutDown (id : NodeId) (c : Cluster) : Cluster × Outcome Unit :=
  match c.running? id with
  | none => (c, .notStarted)
  | some r =>
    let c := c.mapRunning id fun _ => { r.adopt r.member.shutDown with closed := true }
    (pass id pause c, .done ())

/-- Start a node again on its disk, after shutting it down if it is up. -/
def restart (id : NodeId) (c : Cluster) : Except Fault (Cluster × Except ServiceError Unit) := do
  match c.nodes.get? id with
  | none => return (c, .ok ())
  | some n =>
    let (n, result) ← startNode { n with stored := n.disk, running := none }
    return ({ c with nodes := c.nodes.insert id n }, result)

/-! ## Timers -/

/-- Let a node's time run until its election timer fires. -/
def awaitElection (id : NodeId) (c : Cluster) : Cluster × Outcome ElectionWait :=
  match c.running? id with
  | none => (c, .notStarted)
  | some r =>
    if r.member.stopped then (c, .halted)
    else if r.member.replica.leads then (c, .done .alreadyLeader)
    else
      let term := r.member.published.term
      let c := settleDown id c
      let c := match (c.running? id).bind (·.electionAt) with
        | none => c
        | some t => runUntil id t patience c
      let c := pass id pause c
      match c.running? id with
      | none => (c, .notStarted)
      | some r =>
        (c, .done (if r.member.published.term = term then .noTimeout else .fired))

/-- Let a node's time run for one heartbeat interval; whether it leads. -/
def awaitHeartbeat (id : NodeId) (c : Cluster) : Cluster × Outcome Bool :=
  match c.running? id with
  | none => (c, .notStarted)
  | some r =>
    if r.member.stopped then (c, .halted)
    else if !r.member.replica.leads then (c, .done false)
    else (pass id r.member.replica.config.heartbeat c, .done true)

/-! ## Clients and peers -/

/-- Submit a command to a node that is up, and start bringing its peers up. Gives the proposal's
ticket. -/
def submit (id : NodeId) (r : Running) (command : Command) : Happening Nat := do
  let ticket := r.proposals.size
  let peers := r.member.replica.peers
  let put (p : Proposal) : Happening Unit :=
    modify (·.mapRunning id fun r => { r with proposals := r.proposals.insert ticket p })
  let waiting : Proposal := { tally := ⟨0, peers.length, 0, 0⟩ }
  if r.member.stopped then
    put { waiting with barrier := some (.error .shutdown) }
    return ticket
  put waiting
  match ← within id fun r => r.member.propose r.now command ticket with
  | none => return ticket
  | some (.error e) => put { waiting with barrier := some (.error e) }
  | some (.ok index) =>
    modify (·.mapRunning id fun r =>
      let p := (r.proposals.get? ticket).getD waiting
      { r with
        proposals := r.proposals.insert ticket { p with
          tally := { p.tally with index := index }
          barrier := if peers.isEmpty then some (.ok ()) else none } })
    for p in peers do spawn id (.replicate p index (.proposal ticket))
  return ticket

/-- Submit commands in turn. -/
def submitAll (id : NodeId) : List Command → Happening (List Nat)
  | [] => return []
  | command :: commands => do
    match (← get).running? id with
    | none => return []
    | some r =>
      let ticket ← submit id r command
      return ticket :: (← submitAll id commands)

/-- What came of a proposal. -/
def resultOf (r : Running) (ticket : Nat) : Except ServiceError Answer :=
  match r.proposals.get? ticket with
  | none => .error .shutdown
  | some p => p.result?.getD (.error (.unsettled (.dropped p.tally.index)))

/-- Submit commands to a node, all before any of them is replicated, and wait for their results.
A message can be handed to the node once nothing but waiting is left. -/
def proposeAll (id : NodeId) (commands : List Command) (interrupt : Option Message) (c : Cluster) :
    Except Fault (Cluster × Outcome (List (Except ServiceError Answer)) ×
      Option (Except ServiceError Message)) := do
  match c.running? id with
  | none => return (c, .notStarted, none)
  | some before =>
    let (tickets, c) ← (submitAll id commands).run c
    let c := settleDown id c
    let (reply, c) ← match interrupt with
      | none => pure (none, c)
      | some m => (handTo id m).run c
    let decided (r : Running) : Bool :=
      r.member.stopped ||
        tickets.all fun t => ((r.proposals.get? t).bind (·.result?)).isSome
    let c := pass id pause (waitFor id decided patience (settleDown id c))
    match c.running? id with
    | none => return (c, .notStarted, reply)
    | some r =>
      if r.member.stopped && !before.member.stopped then return (c, .halted, reply)
      else return (c, .done (tickets.map (resultOf r)), reply)

/-- Submit one command to a node and wait for its result. -/
def propose (id : NodeId) (command : Command) (c : Cluster) :
    Except Fault (Cluster × Outcome (Except ServiceError Answer)) := do
  let (c, o, _) ← proposeAll id [command] none c
  return (c, match o with
    | .done results => .done (results.headD (.error .shutdown))
    | .notStarted => .notStarted
    | .halted => .halted)

/-- Hand a message to a node. -/
def deliver (id : NodeId) (m : Message) (c : Cluster) :
    Except Fault (Cluster × Outcome (Except ServiceError Message)) := do
  let (reply, c) ← (handTo id m).run c
  return (pass id pause c, reply.elim .notStarted .done)

/-- What a node's own machine holds under a key. -/
def localGet (id : NodeId) (key : String) (c : Cluster) : Outcome (Option String) :=
  (c.running? id).elim .notStarted fun r => .done (r.member.machine.get? key)

/-! ## Surroundings -/

/-- Cut a node or a scripted peer off; whether it was reachable before. -/
def isolate (id : NodeId) (c : Cluster) : Cluster × Bool :=
  if id ∈ c.isolated then (c, false) else ({ c with isolated := id :: c.isolated }, true)

/-- Undo a cut; whether there was one. -/
def heal (id : NodeId) (c : Cluster) : Cluster × Bool :=
  ({ c with isolated := c.isolated.filter (· ≠ id) }, id ∈ c.isolated)

/-- Add replies to a script, and replace its default if there is a new one. -/
def extendScript (peer : NodeId) (replies : List ScriptedReply) (default : Option ScriptedReply)
    (c : Cluster) : Cluster :=
  let old := c.scripts.get? peer
  let script : Script := {
    replies := old.elim [] (·.replies) ++ replies
    default := (default <|> old.map (·.default)).getD .unreachable }
  { c with scripts := c.scripts.insert peer script }

/-- Say which writes of a node's disk fail from now on, and whether its ballot can be read. A disk
in a directory never fails on demand. -/
def failWrites (id : NodeId) (fails : DiskWrite → Bool) (unreadable : Bool) (c : Cluster) :
    Cluster :=
  c.mapNode id fun n => n.mapDisk fun d =>
    match d with
    | .inl m => .inl { m with fails := fun _ w => fails w, unreadable := unreadable }
    | .inr f => .inr f

end Cluster

end ReplicatedStore
