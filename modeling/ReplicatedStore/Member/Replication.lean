import ReplicatedStore.Member.Applying
import ReplicatedStore.Replica.Leader
/-!
# Replicating

How a leader gets its log onto its peers: proposals, the requests that bring a peer up to a
position, the answers to them, and heartbeats. A proposal is answered only when its entry is
applied. A peer that refuses a heartbeat or lags behind is brought up in the background.
-/
namespace ReplicatedStore.Member

variable {δ : Type} [Disk δ]

/-- The error of a member that does not lead. -/
def notLeader (m : Member δ) : ServiceError := .notLeader m.replica.leader

/-- Register a proposal as waiting at a position. -/
def await (m : Member δ) (index : Nat) (w : Waiter) : Member δ :=
  let m := m.dropWaiter index
  { m with pending := m.pending.insert index w }

/-- Append a client's command; the position of its entry. An entry that cannot be written is taken
back. A lone member commits it at once. Mirrors the critical section of `propose`. -/
def propose (m : Member δ) (now : Instant) (c : Command) (ticket : Nat) :
    Except Fault (Member δ × Except ServiceError Nat) := do
  match ← m.replica.propose c with
  | none => return (m, .error m.notLeader)
  | some (r, e) =>
    match m.write (.append [e]) with
    | (m, some err) => return (m, .error (.storage err))
    | (m, none) =>
      let m := await { m with replica := r } e.index ⟨e.term, ticket⟩
      let (r, advanced) ← m.replica.advanceCommit
      let m := { m with replica := r }
      let m ← if advanced then m.applyOrHalt now else pure m
      return (m.finish, .ok e.index)

/-! ## Requests to a peer -/

/-- The highest position that a request covers once it is accepted. Mirrors `sent_through`. -/
def sentThrough : Message → Except Fault Nat
  | .appendRequest q => Word.add q.prevIndex q.entries.length
  | .installRequest q => .ok q.lastIndex
  | _ => .ok 0

/-- The request that brings a peer further: the image if the peer needs what it covers, else
entries. Mirrors `next_request`. -/
def requestFor (m : Member δ) (peer : NodeId) : Except Fault (Except ServiceError Message) :=
  if m.replica.needsImage peer then
    match m.image with
    | none => .ok (.error (.unsettled (.noSnapshotFor peer)))
    | some i =>
      match m.replica.installRequest? i.entries i.lastIndex i.lastTerm with
      | none => .ok (.error m.notLeader)
      | some q => .ok (.ok (.installRequest q))
  else do
    match ← m.replica.appendRequest? peer with
    | none => return .error m.notLeader
    | some q => return .ok (.appendRequest q)

/-- What is left to send to a peer until it holds a position; nothing once it does. Mirrors the
first critical section of `replicate_to_peer`. -/
def nextRequest (m : Member δ) (peer : NodeId) (target : Nat) :
    Except Fault (Except ServiceError (Option Message)) :=
  if !m.replica.leads then .ok (.error m.notLeader)
  else if target ≤ (m.replica.matched.get? peer).getD 0 then .ok (.ok none)
  else do return (← m.requestFor peer).map some

/-- Record a peer's answer to a request that covered positions up to `lastSent`; whether the peer
accepted it and this member still leads. Mirrors `record_reply`. -/
def recordReply (m : Member δ) (now : Instant) (peer : NodeId) (lastSent : Nat) (reply : Message) :
    Except Fault (Member δ × Bool) := do
  let recorded ← match reply with
    | .appendReply term success => do
      let (r, advanced) ← m.replica.recordAppend term success peer lastSent
      pure (some (r, advanced, success))
    | .installReply term => do
      let (r, advanced) ← m.replica.recordInstall term peer lastSent
      pure (some (r, advanced, decide (term = m.replica.term)))
    | _ => pure none
  match recorded with
  | none => return (m, false)
  | some (r, advanced, accepted) =>
    match saveBallot { m with replica := r } with
    | (m, some e) => return ((m.halt .persistTerm (.storage e)).finish, false)
    | (m, none) =>
      let m ← if advanced then m.applyOrHalt now else pure m
      let m := m.finish
      return (m, accepted && m.replica.leads)

/-! ## Heartbeats -/

/-- Bring a peer up to the log's end in the background, unless that is going on. Mirrors
`spawn_catch_up`. -/
def catchUp (m : Member δ) (peer : NodeId) : Member δ :=
  if peer ∈ m.catchingUp then m
  else emit { m with catchingUp := peer :: m.catchingUp } (.catchUp peer m.replica.lastIndex)

/-- A background task for a peer has ended. Mirrors the last section of `spawn_catch_up`. -/
def caughtUp (m : Member δ) (peer : NodeId) : Member δ :=
  { m with catchingUp := m.catchingUp.filter (· ≠ peer) }

/-- The heartbeat to each of some peers; a peer that needs the image is brought up instead. Mirrors
the loop of `send_heartbeats`. -/
def beatsTo (m : Member δ) : List NodeId → Member δ × List (NodeId × AppendRequest)
  | [] => (m, [])
  | p :: ps =>
    if m.replica.needsImage p then (m.catchUp p).beatsTo ps
    else
      let (rest, beats) := m.beatsTo ps
      match m.replica.heartbeat? p with
      | none => (rest, beats)
      | some q => (rest, (p, q) :: beats)

/-- One round of heartbeats. Mirrors `send_heartbeats`. -/
def heartbeats (m : Member δ) : Member δ × List (NodeId × AppendRequest) :=
  if m.replica.leads then m.beatsTo m.replica.peers else (m, [])

/-- Record a peer's answer to a heartbeat that showed position `lastSent`. Mirrors the critical
section of `heartbeat_peer`. -/
def recordBeat (m : Member δ) (now : Instant) (peer : NodeId) (lastSent : Nat) (reply : Message) :
    Except Fault (Member δ) := do
  let (m, accepted) ← m.recordReply now peer lastSent reply
  if !m.replica.leads then return m
  let behind := (m.replica.next.get? peer).any (· ≤ m.replica.lastIndex)
  return if !accepted || behind then m.catchUp peer else m

end ReplicatedStore.Member
