import ReplicatedStore.Cluster.Tasks
/-!
# Time

A node's clock moves from one event to the next: the end of a wait, the election timer, a round of
heartbeats. At each event the node does all it can before the clock moves on.
-/
namespace ReplicatedStore

namespace Running

/-- When the timers of a node fire next; a stopped node has none. -/
def timers (r : Running) : List Nat :=
  if r.member.stopped then [] else r.electionAt.toList ++ r.nextBeat.toList

/-- When the next event is. -/
def nextEvent? (r : Running) : Option Nat := (r.sleeping.map (·.1) ++ r.timers).min?

/-- Wake what is due. -/
def wake (r : Running) : Running :=
  let (due, later) := r.sleeping.partition fun s => s.1 ≤ r.clock
  { r with ready := r.ready ++ due.map (·.2), sleeping := later }

/-- Start a round of heartbeats if one is due. -/
def beat (r : Running) : Running :=
  if !r.member.stopped && r.nextBeat.any (· ≤ r.clock) then
    { r with
      ready := r.ready ++ [.round]
      nextBeat := some (r.clock + r.member.replica.config.heartbeat) }
  else r

/-- Whether the election timer fires. -/
def electionDueNow (r : Running) : Bool := !r.member.stopped && r.electionAt.any (· ≤ r.clock)

end Running

namespace Cluster

/-- Let a node do all it can without waiting. -/
def settleDown (id : NodeId) (c : Cluster) : Cluster := drain id patience c

/-- The election timer fired: campaign, and start the timer again. -/
def elect (id : NodeId) : Happening Unit := do
  let request ← within id fun r => r.member.campaign
  modify (·.mapRunning id fun r => { r with electionAt := some r.electionDue })
  match request.join with
  | none => return
  | some q =>
    match (← get).running? id with
    | none => return
    | some r => spawn id (.askVotes q r.member.replica.peers)

/-- Fire the election timer if it is due. A campaign that comes to a fault ends the timer. -/
def fireElection (id : NodeId) (c : Cluster) : Cluster :=
  if ((c.running? id).map (·.electionDueNow)).getD false then
    match (elect id).run c with
    | .ok ((), c) => c
    | .error _ => c.mapRunning id fun r => { r with electionAt := none }
  else c

/-- Move a node's clock to an event and do what is due. -/
def event (id : NodeId) (time : Nat) (c : Cluster) : Cluster :=
  let c := c.mapRunning id fun r => (Running.wake { r with clock := max r.clock time }).beat
  settleDown id (fireElection id c)

/-- Let a node run until a time, through at most `fuel` events. -/
def runUntil (id : NodeId) (time : Nat) : Nat → Cluster → Cluster
  | 0, c => c
  | fuel + 1, c =>
    match (c.running? id).bind (·.nextEvent?) with
    | none => c.mapRunning id fun r => { r with clock := max r.clock time }
    | some t =>
      if t ≤ time then runUntil id time fuel (event id t c)
      else c.mapRunning id fun r => { r with clock := max r.clock time }

/-- Let some of a node's time pass. -/
def pass (id : NodeId) (duration : Nat) (c : Cluster) : Cluster :=
  let c := settleDown id c
  match c.running? id with
  | none => c
  | some r => runUntil id (r.clock + duration) patience c

/-- Let a node's time pass until something holds, through at most `fuel` events. -/
def waitFor (id : NodeId) (done : Running → Bool) : Nat → Cluster → Cluster
  | 0, c => c
  | fuel + 1, c =>
    match c.running? id with
    | none => c
    | some r =>
      if done r then c
      else
        match r.nextEvent? with
        | none => c
        | some t => waitFor id done fuel (event id t c)

end Cluster

end ReplicatedStore
