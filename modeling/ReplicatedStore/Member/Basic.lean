import ReplicatedStore.Machine
import ReplicatedStore.Storage.Disk
/-!
# Live members

A member puts a replica on a disk, applies what is committed to its machine, and answers clients.
Everything a member does is a sequence of critical sections, each a function on `Member` that no
other one interrupts and that never waits for the network. What a section wants done outside is
left in `outbox`.

* `finish` ends a section: the heartbeat runs exactly while the member leads, proposals of a lost
  lead are failed, and the status is published.
* `halt` stops a member whose memory has moved past its disk.
-/
namespace ReplicatedStore

/-- A proposal that waits until its entry is applied. Mirrors `Pending`. -/
structure Waiter where
  /-- The term in which the entry was made. -/
  term : Nat
  /-- What the caller knows the proposal by. -/
  ticket : Nat
  deriving DecidableEq, Repr

/-- What a section wants done outside. -/
inductive Effect where
  /-- Answer a proposal, unless it has its answer already. -/
  | settle (ticket : Nat) (result : Except ServiceError Answer)
  | startHeartbeat
  | stopHeartbeat
  | resetElectionTimer
  /-- Bring a lagging peer up to a position in the background. -/
  | catchUp (peer : NodeId) (target : Nat)
  deriving Repr

/-- The state of a live member. Mirrors `Shared`, with the token and the status of the node. -/
structure Member (δ : Type) where
  replica : Replica
  disk : δ
  machine : Machine
  /-- The latest image, which is shipped to peers that need what it covers. -/
  image : Option Image
  /-- Waiting proposals by the position of their entry. -/
  pending : Table Nat Waiter
  /-- Whether heartbeats are sent. -/
  beating : Bool
  /-- The peers that are being brought up in the background. -/
  catchingUp : List NodeId
  /-- The ballot that the disk holds. -/
  saved : Ballot
  /-- The member was shut down or stopped itself. -/
  stopped : Bool
  /-- The status last shown. -/
  published : Status
  outbox : List Effect

namespace Member

variable {δ : Type}

/-- Leave something to be done outside. -/
def emit (m : Member δ) (e : Effect) : Member δ := { m with outbox := m.outbox ++ [e] }

/-- Fail every waiting proposal. Mirrors `fail_pending`. -/
def failPending (m : Member δ) (reason : ServiceError) : Member δ :=
  { m with
    pending := .empty
    outbox := m.outbox ++ m.pending.values.map fun w => .settle w.ticket (.error reason) }

/-- Send no more heartbeats. -/
def stopHeartbeat (m : Member δ) : Member δ :=
  if m.beating then emit { m with beating := false } .stopHeartbeat else m

/-- Bring the heartbeat and the waiting proposals in line with the role. Mirrors `finish` up to the
status. -/
def settleRole (m : Member δ) : Member δ :=
  if m.replica.leads then
    if m.beating then m else emit { m with beating := true } .startHeartbeat
  else
    let m := m.stopHeartbeat
    if m.pending.isEmpty then m
    else m.failPending (.unsettled (.leadershipLost m.replica.leader))

/-- The end of a critical section. Mirrors `finish`. -/
def finish (m : Member δ) : Member δ :=
  let m := m.settleRole
  { m with published := m.replica.status }

/-- Stop for good after a failed step. Mirrors `halt`. -/
def halt (m : Member δ) (step : CriticalStep) (cause : ServiceError) : Member δ :=
  let m := (m.failPending (.unsettled (.nodeHalted step cause.message))).stopHeartbeat
  { m with stopped := true }

/-- Stop for good on request. The status is left as it was shown. Mirrors `shutdown`. -/
def shutDown (m : Member δ) : Member δ :=
  (stopHeartbeat { m with stopped := true }).failPending .shutdown

/-- Drop the proposal that waits at a position. Mirrors `pending.remove` at the end of `propose`. -/
def dropWaiter (m : Member δ) (index : Nat) : Member δ :=
  match m.pending.get? index with
  | none => m
  | some w =>
    emit { m with pending := m.pending.erase index }
      (.settle w.ticket (.error (.unsettled (.dropped index))))

variable [Disk δ]

/-- Write to the disk. -/
def write (m : Member δ) (w : DiskWrite) : Member δ × Option IoError :=
  let (disk, e) := Disk.write m.disk w
  ({ m with disk := disk }, e)

/-- Write the ballot if it differs from the one the disk holds. Mirrors `sync_hard_state`. -/
def saveBallot (m : Member δ) : Member δ × Option IoError :=
  if m.replica.ballot = m.saved then (m, none)
  else
    match m.write (.ballot m.replica.ballot) with
    | (m, none) => ({ m with saved := m.replica.ballot }, none)
    | (m, some e) => (m, some e)

end Member

end ReplicatedStore
