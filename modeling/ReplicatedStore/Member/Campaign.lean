import ReplicatedStore.Member.Basic
import ReplicatedStore.Message
import ReplicatedStore.Replica.Election
/-!
# Campaigning

What a member does when its election timer fires, and how it counts the votes that come back.
-/
namespace ReplicatedStore.Member

variable {δ : Type} [Disk δ]

/-- The election timer fired: become a candidate, unless leading already. Gives the request to ask
every peer with; a candidacy whose own vote cannot be written does not stand. Mirrors
`on_election_timeout`. -/
def campaign (m : Member δ) : Except Fault (Member δ × Option VoteRequest) :=
  if m.replica.leads then .ok (m, none)
  else do
    let (r, request) ← m.replica.campaign
    match saveBallot { m with replica := r } with
    | (m, some _) =>
      return (finish { m with replica := m.replica.follow m.replica.term }, none)
    | (m, none) =>
      let m := m.finish
      return (m, if m.replica.leads then none else some request)

/-- Count a peer's vote in the campaign of a term; whether there are more votes to wait for. Mirrors
the loop body of `request_votes`. -/
def countVote (m : Member δ) (campaign : Nat) (peer : NodeId) (term : Nat) (granted : Bool) :
    Except Fault (Member δ × Bool) := do
  let (r, _) ← m.replica.countVote term granted peer
  match saveBallot { m with replica := r } with
  | (m, some e) => return ((m.halt .persistTerm (.storage e)).finish, false)
  | (m, none) =>
    let m := m.finish
    return (m, m.replica.role = .candidate && m.replica.term = campaign)

end ReplicatedStore.Member
