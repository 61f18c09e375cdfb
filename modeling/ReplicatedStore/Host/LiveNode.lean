import ReplicatedStore.Cluster.Service
import ReplicatedStore.CommandLine.Run
import ReplicatedStore.Host.Folder
import ReplicatedStore.Host.Socket
import ReplicatedStore.Link.Exchange
import ReplicatedStore.Member.Campaign
import ReplicatedStore.Member.Majority
import ReplicatedStore.Member.Recovery
import ReplicatedStore.Member.Replication
import ReplicatedStore.Member.Requests
import Std.Async.Signal
import Std.Sync.Channel
import Std.Sync.Mutex
/-!
# A node on the host

Runs a member on a folder, the network and the clock of the host. All that decides anything is in
the member's sections; here each section is run under a lock, its steps are taken in the folder
before anybody hears of it, and what it left to be done is done.
-/
namespace ReplicatedStore

open Std.Async

/-- A node that is up on this host. -/
structure LiveNode where
  config : NodeConfig
  member : Std.Mutex (Member Journal)
  /-- What sections left to be done. -/
  effects : Std.CloseableChannel Effect
  /-- Proposals without an answer, by their tickets. -/
  waiting : IO.Ref (Table Nat (IO.Promise (Except ServiceError Answer)))
  tickets : IO.Ref Nat
  /-- When the election timer fires. -/
  deadline : IO.Ref Nat
  /-- Which heartbeat counts; earlier ones end. -/
  heartbeat : IO.Ref Nat
  /-- Connections to peers that no exchange has. -/
  idle : IO.Ref (Table NodeId Socket)
  /-- Kept once the member stops, or its folder fails. -/
  ended : IO.Promise (Except String Unit)

namespace LiveNode

/-! ## Sections -/

/-- The wall clock. -/
def now : IO Instant := do
  return .ofMillis (← Std.Time.Timestamp.now).toMillisecondsSinceUnixEpoch.val.toNat

/-- Take the steps of a section in the folder. A folder that fails ends the node. -/
def persist (n : LiveNode) (steps : List FileStep) : IO Unit := do
  try
    for s in steps do Folder.perform n.config.dataDir s
  catch e =>
    n.ended.resolve (.error (toString e))
    throw e

/-- Run a section. -/
def within {α : Type} (n : LiveNode)
    (f : Instant → Member Journal → Except Fault (Member Journal × α)) : IO α := do
  let time ← now
  n.member.atomically do
    match f time (← get) with
    | .error _ => throw (IO.userError "number too big")
    | .ok (m, a) =>
      n.persist m.disk.steps
      for e in m.outbox do discard <| n.effects.trySend e
      if m.stopped then n.ended.resolve (.ok ())
      set { m with disk := m.disk.clear, outbox := [] }
      return a

/-- Start the election timer again. -/
def resetDeadline (n : LiveNode) : IO Unit := do
  let c := n.config.consensus
  if let .ok t := electionTimeout c.electionMin c.electionMax (← IO.rand 0 1000000000) then
    n.deadline.set ((← IO.monoMsNow) + t)

/-! ## Peers -/

/-- Send a request to a peer and wait for the answer. An exchange takes the connection that is
kept, or makes one, and keeps it only after an answer. -/
def exchange (n : LiveNode) (peer : NodeId) (m : Message) :
    Async (Except TransportError Message) := do
  if ← n.ended.isResolved then return .error .closed
  match n.config.peerAddresses.get? peer with
  | none => return .error (.unknownPeer peer)
  | some address =>
    let wait := n.config.rpcTimeout
    try
      let s? ← match ← n.idle.modifyGet fun t => (t.get? peer, t.erase peer) with
        | some s => pure (some s)
        | none => Socket.connectWithin wait address
      match s? with
      | none => return .error (.timeout peer)
      | some s =>
        s.write (Json.encode Frame.toJson (.raft m))
        match ← s.read (some wait) with
        | .late => return .error (.timeout peer)
        | .ended => return .error (.unreachable peer)
        | .frame content =>
          match FrameReply.decode content with
          | .error text => return .error (.codec text)
          | .ok reply =>
            n.idle.modify (·.insert peer s)
            return Link.messageOf reply
    catch _ => return .error (.unreachable peer)

/-- Ask a peer for its vote, unless the campaign is decided. -/
def askVote (n : LiveNode) (undecided : IO.Ref Bool) (q : VoteRequest) (peer : NodeId) :
    Async Unit := do
  if let .ok (.voteReply term granted) ← n.exchange peer (.voteRequest q) then
    if ← undecided.get then
      undecided.set (← n.within fun _ m => m.countVote q.term peer term granted)

/-- The election timer fired. -/
def campaign (n : LiveNode) : Async Unit := do
  if let some q ← n.within fun _ m => m.campaign then
    let undecided ← IO.mkRef true
    for p in n.config.peerIds do background (n.askVote undecided q p)

/-- Bring a peer up to a position. -/
def replicate (n : LiveNode) (peer : NodeId) (target : Nat) : Async PeerOutcome := do
  repeat
    match ← n.within fun _ m => return (m, ← m.nextRequest peer target) with
    | .error e => return .error e
    | .ok none => return .ok ()
    | .ok (some request) =>
      match ← n.exchange peer request with
      | .error e => return .error (.transport e)
      | .ok reply =>
        let lost ← n.within fun time m => do
          let (m, _) ← m.recordReply time peer (← Member.sentThrough request) reply
          return (m, if m.replica.leads then none else some m.notLeader)
        if let some e := lost then return .error e
  return .ok ()

/-- Send a heartbeat to a peer. -/
def beat (n : LiveNode) (peer : NodeId) (q : AppendRequest) : Async Unit := do
  if let .ok reply ← n.exchange peer (.appendRequest q) then
    n.within fun time m => do
      return (← m.recordBeat time peer (← Word.add q.prevIndex q.entries.length) reply, ())

/-- Send rounds of heartbeats until another heartbeat counts. -/
def beatOn (n : LiveNode) (counts : Nat) : Async Unit := do
  while (← n.heartbeat.get) == counts do
    for (p, q) in ← n.within fun _ m => return m.heartbeats do background (n.beat p q)
    sleep (Socket.milliseconds n.config.consensus.heartbeat)

/-! ## Clients -/

/-- Wait until a majority holds a position. -/
def awaitMajority (n : LiveNode) (index : Nat) : Async PeerOutcome := do
  let peers := n.config.peerIds
  if peers.isEmpty then return .ok ()
  let tally ← IO.mkRef ({ index := index, peers := peers.length } : Tally)
  have : Nonempty PeerOutcome := ⟨.ok ()⟩
  let decided : IO.Promise PeerOutcome ← IO.Promise.new
  for p in peers do
    background do
      let outcome ← n.replicate p index
      let (result : Option PeerOutcome) ← tally.modifyGet fun t =>
        let (t, result) := t.record outcome
        (result, t)
      if let some r := result then decided.resolve r
  Async.ofPurePromise (pure decided)

/-- Submit a command and wait for its answer. -/
def propose (n : LiveNode) (c : Command) : Async (Except ServiceError Answer) := do
  have : Nonempty (Except ServiceError Answer) := ⟨.error .shutdown⟩
  let answer : IO.Promise (Except ServiceError Answer) ← IO.Promise.new
  let ticket ← n.tickets.modifyGet fun t => (t, t + 1)
  n.waiting.modify (·.insert ticket answer)
  let submitted ← n.within fun time m =>
    if m.stopped then return (m, .error .shutdown) else m.propose time c ticket
  match submitted with
  | .error e =>
    n.waiting.modify (·.erase ticket)
    return .error e
  | .ok index =>
    match ← n.awaitMajority index with
    | .error e =>
      n.within fun _ m => return (m.dropWaiter index, ())
      return .error e
    | .ok () => Async.ofPurePromise (pure answer)

/-- Answer a frame. -/
def answer (n : LiveNode) : Frame → Async FrameReply
  | .raft m => do return .ofHandled (← n.within fun time member => member.handle time m)
  | .propose c => do return .ofResult n.config.peerAddresses (← n.propose c)
  | .status => n.within fun _ m => return (m, .status m.published)

/-- Answer the frames of a connection. Bytes that are no frame end it. -/
def attend (n : LiveNode) (s : Socket) : Async Unit := do
  repeat
    match ← s.read none with
    | .frame content =>
      match Json.decode? Frame.ofJson? content with
      | none => return
      | some f => s.write (Json.encode FrameReply.toJson (← n.answer f))
    | _ => return

/-! ## Running -/

/-- Do what a section left to be done. -/
def perform (n : LiveNode) : Effect → Async Unit
  | .settle ticket result => do
    if let some answer := (← n.waiting.get).get? ticket then
      n.waiting.modify (·.erase ticket)
      answer.resolve result
  | .startHeartbeat => do
    let counts ← n.heartbeat.modifyGet fun c => (c + 1, c + 1)
    background (n.beatOn counts)
  | .stopHeartbeat => n.heartbeat.modify (· + 1)
  | .resetElectionTimer => n.resetDeadline
  | .catchUp peer target => background do
    discard <| n.replicate peer target
    n.within fun _ m => return (m.caughtUp peer, ())

/-- Do what sections leave to be done, in order. -/
def performAll (n : LiveNode) : Async Unit := do
  repeat
    match ← Async.ofIOTask n.effects.recv with
    | some e => n.perform e
    | none => return

/-- Campaign whenever the election timer fires. -/
def watch (n : LiveNode) : Async Unit := do
  while !(← n.ended.isResolved) do
    let due := (← n.deadline.get) - (← IO.monoMsNow)
    if due = 0 then
      n.resetDeadline
      n.campaign
    else sleep (Socket.milliseconds due)

/-- Answer everybody who connects. -/
def accept (n : LiveNode) (server : TCP.Socket.Server) : Async Unit := do
  repeat
    let s ← Socket.ofClient (← server.accept)
    background (n.attend s)

/-- Start a node on its folder. -/
def start (c : NodeConfig) : IO (Except ServiceError LiveNode) := do
  match FileDisk.ofDirectory (← Folder.load c.dataDir) with
  | .error e => return .error (.storage e)
  | .ok disk =>
    match Member.start ⟨c.id, c.peerIds, c.consensus⟩ (⟨disk, []⟩ : Journal) (← now) with
    | .error _ => throw (IO.userError "number too big")
    | .ok (.error (e, j)) =>
      for s in j.steps do Folder.perform c.dataDir s
      return .error e
    | .ok (.ok m) =>
      have : Nonempty (Except String Unit) := ⟨.ok ()⟩
      let n : LiveNode := {
        config := c
        member := ← Std.Mutex.new m
        effects := ← Std.CloseableChannel.new
        waiting := ← IO.mkRef .empty
        tickets := ← IO.mkRef 0
        deadline := ← IO.mkRef 0
        heartbeat := ← IO.mkRef 0
        idle := ← IO.mkRef .empty
        ended := ← IO.Promise.new }
      n.within fun _ m => return (m, ())
      n.resetDeadline
      return .ok n

/-- Wait for the interrupt signal. -/
def awaitInterrupt : Async (Except String Unit) := do
  let signal ← Signal.Waiter.mk .sigint false
  let _ ← Async.ofAsyncTask (← signal.wait)
  return .ok ()

/-- Be a node until it is interrupted or stops itself. -/
def serve (c : NodeConfig) : Async RunResult := do
  try
    let server ← TCP.Socket.Server.mk
    server.bind c.listen.toNet
    server.listen 128
    match ← start c with
    | .error e => return .failure e.shape
    | .ok n =>
      background n.performAll
      background n.watch
      background (n.accept server)
      have : Inhabited (Except String Unit) := ⟨.ok ()⟩
      match ← EAsync.race awaitInterrupt (Async.ofPurePromise (pure n.ended)) with
      | .error text => return .failure text
      | .ok () =>
        n.within fun _ m => return (m.shutDown, ())
        return ⟨0, "", ""⟩
  catch e => return .failure (toString e)

end LiveNode

end ReplicatedStore
