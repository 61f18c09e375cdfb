import ReplicatedStore.Cluster.Delivery
/-!
# Tasks

What a node does between its sections. A task runs until it has something to wait for, and tasks
start in the order in which they were created. Requests are answered at once, so that only a peer
that never answers makes a task wait.
-/
namespace ReplicatedStore.Cluster

/-- Put a task at the end of what is ready. -/
def spawn (id : NodeId) (t : Task) : Happening Unit :=
  modify (·.mapRunning id fun r => { r with ready := r.ready ++ [t] })

/-- Let a task become ready when the wait for an answer is over. -/
def sleep (id : NodeId) (t : Task) : Happening Unit :=
  modify fun c => c.mapRunning id fun r =>
    { r with sleeping := r.sleeping ++ [(r.clock + c.rpcTimeout id, t)] }

/-- Ask peers for their votes until the campaign is decided. -/
def askVotes (id : NodeId) (request : VoteRequest) : List NodeId → Happening Unit
  | [] => return
  | p :: ps => do
    match ← send id p (.voteRequest request) with
    | .replied (.voteReply term granted) =>
      let more ← within id fun r => r.member.countVote request.term p term granted
      if more.getD false then askVotes id request ps
    | _ => askVotes id request ps

/-- What became of bringing a peer up. -/
def settle (id peer : NodeId) (outcome : PeerOutcome) : Purpose → Happening Unit
  | .background => discard <| within id fun r => return (r.member.caughtUp peer, ())
  | .proposal ticket => do
    match ((← get).running? id).bind (·.proposals.get? ticket) with
    | none => return
    | some p =>
      if p.barrier.isSome then return
      let (tally, barrier) := p.tally.record outcome
      modify (·.mapRunning id fun r =>
        { r with
          proposals := r.proposals.insert ticket { p with tally := tally, barrier := barrier } })
      match barrier with
      | some (.error _) =>
        discard <| within id fun r => return (r.member.dropWaiter p.tally.index, ())
      | _ => return

/-- Record what a peer answered; why it is not to be brought up any further, if there is a reason. -/
def recordAnswer (id peer : NodeId) (lastSent : Nat) (reply : Message) :
    Happening (Option ServiceError) := do
  let lost ← within id fun r => do
    let (m, _) ← r.member.recordReply r.now peer lastSent reply
    return (m, if m.replica.leads then none else some m.notLeader)
  return lost.join

/-- Send to a peer until it holds a position, at most that many requests. -/
def replicate (id peer : NodeId) (target : Nat) (purpose : Purpose) : Nat → Happening Unit
  | 0 => return
  | requests + 1 => do
    match ← within id fun r => return (r.member, ← r.member.nextRequest peer target) with
    | none => return
    | some (.error e) => settle id peer (.error e) purpose
    | some (.ok none) => settle id peer (.ok ()) purpose
    | some (.ok (some request)) =>
      let lastSent ← Member.sentThrough request
      match ← send id peer request with
      | .failed e => settle id peer (.error (.transport e)) purpose
      | .hanging => sleep id (.giveUp peer purpose)
      | .replied reply =>
        match ← recordAnswer id peer lastSent reply with
        | some e => settle id peer (.error e) purpose
        | none => replicate id peer target purpose requests

/-- Do what a task is for. -/
def perform (id : NodeId) : Task → Happening Unit
  | .askVotes request peers => askVotes id request peers
  | .replicate peer target purpose => replicate id peer target purpose patience
  | .giveUp peer purpose => settle id peer (.error (.transport (.timeout peer))) purpose
  | .round => do
    let beats ← within id fun r => return r.member.heartbeats
    for (p, q) in beats.getD [] do spawn id (.beat p q)
  | .beat peer request => do
    match ← send id peer (.appendRequest request) with
    | .replied reply =>
      let lastSent ← Word.add request.prevIndex request.entries.length
      discard <| within id fun r => return (← r.member.recordBeat r.now peer lastSent reply, ())
    | _ => return

/-- Perform a task; one that comes to a fault is dropped. -/
def attempt (id : NodeId) (t : Task) (c : Cluster) : Cluster :=
  match (perform id t).run c with
  | .ok ((), c) => c
  | .error _ => c

/-- Perform tasks until none is ready, at most `fuel` of them. -/
def drain (id : NodeId) : Nat → Cluster → Cluster
  | 0, c => c
  | fuel + 1, c =>
    match (c.running? id).map (·.ready) with
    | some (t :: ts) => drain id fuel (attempt id t (c.mapRunning id fun r => { r with ready := ts }))
    | _ => c

end ReplicatedStore.Cluster
