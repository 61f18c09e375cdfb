import Mathlib.Logic.Function.Basic
import Mathlib.Logic.Relation
import ReplicatedStore.Cluster.Basic
import ReplicatedStore.Proofs.Images
/-!
# Worlds of members

Members on disks, and everything that can happen around them. A step lets one node perform one
critical section, start, or stop; which node and which section is left open, and so is what the
network does: a request or a reply that was once made stays in the world, so it can arrive late,
several times, in any order, or never.

* `Act`: the critical sections, each the member's own function.
* `Step`: an act, a start, a stop between sections, or an outcome reported to a waiting call.
* `RoughStep`: also a crash inside a section, of which only the writes up to some point remain.
* `Run`, `RoughRun`: any number of steps.

A world is more generous than a cluster: a reply may be delivered twice, a heartbeat may be sent at
any time, and a peer may be brought up by anyone. What holds in every run of a world holds in every
run of a cluster.
-/
namespace ReplicatedStore

/-- A request that was sent. -/
structure Request where
  sender : NodeId
  receiver : NodeId
  body : Message

/-- A place where a member runs or its disk waits for the next start. -/
inductive Site where
  | up (m : Member MemoryDisk)
  | down (d : MemoryDisk)

namespace Site

/-- The disk at a site. -/
def disk : Site → MemoryDisk
  | up m => m.disk
  | down d => d

@[simp] theorem disk_up (m : Member MemoryDisk) : (up m).disk = m.disk := rfl

@[simp] theorem disk_down (d : MemoryDisk) : (down d).disk = d := rfl

end Site

/-- A call to propose a command. -/
structure ClientCall where
  node : NodeId
  command : Command
  /-- The entry that was made for it. -/
  entry : Option Entry
  proposal : Proposal

namespace ClientCall

/-- The call is given its answer, unless it has one. -/
def answered (call : ClientCall) (result : Except ServiceError Answer) : ClientCall :=
  { call with proposal := { call.proposal with answer := call.proposal.answer <|> some result } }

/-- The call hears of what became of bringing a peer up. -/
def informed (call : ClientCall) (o : PeerOutcome) : ClientCall :=
  let (tally, barrier) := call.proposal.tally.record o
  { call with proposal := { call.proposal with tally := tally, barrier := barrier } }

/-- A call right after its section: a refused one has its result, one without peers waits for
nobody. -/
def opened (m : Member MemoryDisk) (command : Command) : Except ServiceError Nat → ClientCall
  | .error e =>
    { node := m.replica.id, command := command, entry := none,
      proposal := { tally := ⟨0, m.replica.peers.length, 0, 0⟩, barrier := some (.error e) } }
  | .ok index =>
    { node := m.replica.id, command := command, entry := some ⟨m.replica.term, index, command⟩,
      proposal := {
        tally := ⟨index, m.replica.peers.length, 0, 0⟩
        barrier := if m.replica.peers.isEmpty then some (.ok ()) else none } }

end ClientCall

/-- The sites, the messages there ever were, and the calls by their tickets. -/
structure World where
  sites : NodeId → Site
  requests : List Request
  replies : List (Request × Message)
  calls : Nat → Option ClientCall

/-- What holds of a whole run: who the members are, what clients may propose, and which writes of
each disk fail. -/
structure Conditions where
  members : List NodeId
  distinct : members.Nodup
  admits : Command → Prop
  fails : NodeId → Nat → DiskWrite → Bool

namespace Conditions

/-- No write fails. -/
def Reliable (c : Conditions) : Prop := ∀ v n w, c.fails v n w = false

/-- Every put carries a value. -/
def Valued (c : Conditions) : Prop := ∀ command, c.admits command → command.Valued

end Conditions

/-- What a section did: the member after it, and what it gave to the world. -/
structure Deed where
  member : Member MemoryDisk
  requests : List Request := []
  replies : List (Request × Message) := []
  call : Option (Nat × ClientCall) := none

namespace World

/-- Every site is down and every disk empty. -/
def initial (c : Conditions) : World where
  sites v := .down { fails := c.fails v }
  requests := []
  replies := []
  calls _ := none

/-- Answer a call if that is what is wanted. -/
def perform (calls : Nat → Option ClientCall) : Effect → Nat → Option ClientCall
  | .settle ticket result => Function.update calls ticket ((calls ticket).map (·.answered result))
  | _ => calls

/-- The calls with a new one. -/
def withCall (calls : Nat → Option ClientCall) : Option (Nat × ClientCall) → Nat → Option ClientCall
  | none => calls
  | some (ticket, call) => Function.update calls ticket (some call)

/-- The world after a node's section. -/
def after (w : World) (v : NodeId) (d : Deed) : World where
  sites := Function.update w.sites v (.up { d.member with outbox := [] })
  requests := w.requests ++ d.requests
  replies := w.replies ++ d.replies
  calls := d.member.outbox.foldl perform (withCall w.calls d.call)

/-- The world with a node down on a disk. -/
def resting (w : World) (v : NodeId) (d : MemoryDisk) : World :=
  { w with sites := Function.update w.sites v (.down d) }

/-- The world after a call heard of an outcome. -/
def informed (w : World) (ticket : Nat) (call : ClientCall) (o : PeerOutcome) : World :=
  { w with calls := Function.update w.calls ticket (some (call.informed o)) }

end World

/-! ## Steps -/

/-- What a request is answered with, if it is. -/
def Request.answer (r : Request) : Except ServiceError Message → List (Request × Message)
  | .ok reply => [(r, reply)]
  | .error _ => []

/-- The vote request to every peer, if there is one. -/
def Member.asks (m : Member MemoryDisk) : Option VoteRequest → List Request
  | none => []
  | some q => m.replica.peers.map fun p => ⟨m.replica.id, p, .voteRequest q⟩

/-- The critical sections of a member that runs at a node. A member that was stopped may be at one:
whether it was is looked up before. A section that stops in the middle, on a sum that is no word,
is none of these. -/
inductive Act (c : Conditions) (w : World) (v : NodeId) (m : Member MemoryDisk) : Deed → Prop
  | shutDown : Act c w v m { member := m.shutDown }
  | timeout {m' q} (run : m.campaign = .ok (m', q)) :
      Act c w v m { member := m', requests := m'.asks q }
  | answerVote {r q m' reply} (sent : r ∈ w.requests) (here : r.receiver = v)
      (body : r.body = .voteRequest q) (run : m.answerVote q = (m', reply)) :
      Act c w v m { member := m', replies := r.answer reply }
  | answerAppend {r q now m' reply} (sent : r ∈ w.requests) (here : r.receiver = v)
      (body : r.body = .appendRequest q) (run : m.answerAppend now q = .ok (m', reply)) :
      Act c w v m { member := m', replies := r.answer reply }
  | answerInstall {r q now m' reply} (sent : r ∈ w.requests) (here : r.receiver = v)
      (body : r.body = .installRequest q) (run : m.answerInstall now q = .ok (m', reply)) :
      Act c w v m { member := m', replies := r.answer reply }
  | countVote {r q term granted m' more} (replied : (r, .voteReply term granted) ∈ w.replies)
      (here : r.sender = v) (body : r.body = .voteRequest q)
      (run : m.countVote q.term r.receiver term granted = .ok (m', more)) :
      Act c w v m { member := m' }
  | recordReply {r reply through now m' more} (replied : (r, reply) ∈ w.replies)
      (here : r.sender = v) (covered : Member.sentThrough r.body = .ok through)
      (run : m.recordReply now r.receiver through reply = .ok (m', more)) :
      Act c w v m { member := m' }
  | recordBeat {r reply through now m'} (replied : (r, reply) ∈ w.replies)
      (here : r.sender = v) (covered : Member.sentThrough r.body = .ok through)
      (run : m.recordBeat now r.receiver through reply = .ok m') :
      Act c w v m { member := m' }
  | propose {command ticket now m' result} (admitted : c.admits command)
      (fresh : w.calls ticket = none) (run : m.propose now command ticket = .ok (m', result)) :
      Act c w v m { member := m', call := some (ticket, ClientCall.opened m command result) }
  | fetch {peer target body} (known : peer ∈ m.replica.peers)
      (run : m.nextRequest peer target = .ok (.ok (some body))) :
      Act c w v m { member := m, requests := [⟨v, peer, body⟩] }
  | beat {m' beats} (run : m.heartbeats = (m', beats)) :
      Act c w v m
        { member := m', requests := beats.map fun b => ⟨v, b.1, .appendRequest b.2⟩ }
  | caughtUp {peer} : Act c w v m { member := m.caughtUp peer }
  | giveUp {index} : Act c w v m { member := m.dropWaiter index }
  | compact {now m' failure} (run : m.takeImage now = .ok (m', failure)) :
      Act c w v m { member := m' }

/-- What can happen at a node. -/
inductive Step (c : Conditions) (v : NodeId) : World → World → Prop
  | act {w m d} (up : w.sites v = .up m) (act : Act c w v m d) : Step c v w (w.after v d)
  | start {w d peers config now m} (down : w.sites v = .down d)
      (member : (v :: peers).Perm c.members)
      (run : Member.start ⟨v, peers, config⟩ d now = .ok (.ok m)) :
      Step c v w (w.after v { member := m })
  | failToStart {w d peers config now e d'} (down : w.sites v = .down d)
      (member : (v :: peers).Perm c.members)
      (run : Member.start ⟨v, peers, config⟩ d now = .ok (.error (e, d'))) :
      Step c v w (w.resting v d')
  | stop {w m} (up : w.sites v = .up m) : Step c v w (w.resting v m.disk)
  | hear {w ticket call o} (made : w.calls ticket = some call) (node : call.node = v)
      (waiting : call.proposal.barrier = none) : Step c v w (w.informed ticket call o)

/-- Any number of steps. -/
def Run (c : Conditions) : World → World → Prop :=
  Relation.ReflTransGen fun w w' => ∃ v, Step c v w w'

/-- A run from the beginning leads here. -/
def Reachable (c : Conditions) (w : World) : Prop := Run c (.initial c) w

/-! ## Crashes inside a section -/

/-- No write after the next `k` gets through. -/
def MemoryDisk.cutAfter (d : MemoryDisk) (k : Nat) : MemoryDisk :=
  { d with fails := fun n w => decide (d.tried + k ≤ n) || d.fails n w }

namespace Site

/-- The site with its disk changed. -/
def mapDisk (f : MemoryDisk → MemoryDisk) : Site → Site
  | up m => .up { m with disk := f m.disk }
  | down d => .down (f d)

end Site

/-- The world in which no write of a node after the next `k` gets through. -/
def World.cutAfter (w : World) (v : NodeId) (k : Nat) : World :=
  { w with sites := Function.update w.sites v ((w.sites v).mapDisk (·.cutAfter k)) }

/-- A step, or a crash inside a section: what the node wrote before it remains, and nothing else of
the section. -/
inductive RoughStep (c : Conditions) : World → World → Prop
  | step {v w w'} (step : Step c v w w') : RoughStep c w w'
  | crash {v w w'} (k : Nat) (step : Step c v (w.cutAfter v k) w') :
      RoughStep c w (w.resting v { (w'.sites v).disk with fails := (w.sites v).disk.fails })

/-- Any number of steps and crashes. -/
def RoughRun (c : Conditions) : World → World → Prop :=
  Relation.ReflTransGen (RoughStep c)

end ReplicatedStore
