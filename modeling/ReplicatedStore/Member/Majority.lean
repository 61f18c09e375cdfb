import ReplicatedStore.Error
/-!
# The majority barrier

A proposal waits until enough peers hold its entry, so that they and the proposer are a majority,
or until so many have failed that this cannot come about any more. A failure that says the
proposer lost the lead ends the wait at once.
-/
namespace ReplicatedStore

/-- What became of bringing one peer up. -/
abbrev PeerOutcome := Except ServiceError Unit

/-- How far a barrier is. Mirrors the counters of `await_majority`. -/
structure Tally where
  /-- The position of the entry. -/
  index : Nat
  /-- How many peers there are. -/
  peers : Nat
  acks : Nat := 0
  failures : Nat := 0
  deriving DecidableEq, Repr

namespace Tally

/-- How many peers have to hold the entry. -/
def needed (t : Tally) : Nat := (t.peers + 1) / 2

/-- Take one more outcome into account; the end of the wait if that decides it. Mirrors the loop
body of `await_majority`. -/
def record (t : Tally) : PeerOutcome → Tally × Option PeerOutcome
  | .ok () =>
    let t := { t with acks := t.acks + 1 }
    (t, if t.needed ≤ t.acks then some (.ok ()) else none)
  | .error (.notLeader h) =>
    ({ t with failures := t.failures + 1 }, some (.error (.notLeader h)))
  | .error _ =>
    let t := { t with failures := t.failures + 1 }
    (t, if t.peers - t.needed < t.failures then
      some (.error (.unsettled (.noMajority t.index t.acks t.needed))) else none)

/-- The end of the wait for outcomes in their order, and the tally there. Mirrors the loop of
`await_majority`. -/
def await (t : Tally) : List PeerOutcome → Tally × Option PeerOutcome
  | [] => (t, none)
  | o :: os =>
    match t.record o with
    | (t, some r) => (t, some r)
    | (t, none) => t.await os

/-- What a barrier gives once no outcome is to come. Mirrors `await_majority`. -/
def result (t : Tally) (outcomes : List PeerOutcome) : PeerOutcome :=
  (t.await outcomes).2.getD (.error (.unsettled (.notReplicated t.index)))

end Tally

end ReplicatedStore
