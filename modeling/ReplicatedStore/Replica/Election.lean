import ReplicatedStore.Replica.Basic
/-!
# Elections

Role changes of a replica: candidacy, stepping down, taking the lead, and the vote requests and
replies that lead there. A member votes once a term, for a candidate whose log is at least as
complete as its own.
-/
namespace ReplicatedStore.Replica

/-- Step down; a newer term is taken over without a vote and without a leader. Mirrors
`become_follower`. -/
def follow (r : Replica) (term : Nat) : Replica :=
  let r := if r.term < term then { r with term := term, vote := none, leader := none } else r
  { r with role := .follower, votes := [], next := .empty, matched := .empty }

/-- Take the lead: every peer is to be sent what comes after the log's end, and nothing is known
about what it holds. Mirrors `become_leader`. -/
def lead (r : Replica) : Except Fault Replica := do
  let next ← Word.add r.lastIndex 1
  return { r with
    role := .leader
    leader := some r.id
    votes := []
    next := Table.ofList (r.peers.map (·, next))
    matched := Table.ofList (r.peers.map (·, 0)) }

/-- Become a candidate for the next term and vote for oneself; a lone member leads at once. Also
gives the request for the others. Mirrors `start_election`. -/
def campaign (r : Replica) : Except Fault (Replica × VoteRequest) := do
  let term ← Word.add r.term 1
  let r := { r with
    role := .candidate
    term := term
    vote := some r.id
    leader := none
    votes := [r.id]
    next := .empty
    matched := .empty }
  let request : VoteRequest := ⟨term, r.id, r.lastIndex, r.lastTerm⟩
  let r ← if r.hasQuorum then r.lead else pure r
  return (r, request)

/-- Answer a vote request; whether the vote was granted. Mirrors `handle_vote_request`. -/
def answerVote (r : Replica) (q : VoteRequest) : Replica × Bool :=
  if q.term < r.term then (r, false)
  else
    let r := if r.term < q.term then r.follow q.term else r
    let free := r.vote.all (· = q.candidate)
    if free && r.isUpToDate q.lastIndex q.lastTerm then
      ({ r with vote := some q.candidate }, true)
    else (r, false)

/-- Count a peer's answer to a vote request; whether it made this member the leader. Mirrors
`handle_vote_response`. -/
def countVote (r : Replica) (term : Nat) (granted : Bool) (sender : NodeId) :
    Except Fault (Replica × Bool) :=
  if r.term < term then .ok (r.follow term, false)
  else if r.role ≠ .candidate ∨ term ≠ r.term ∨ granted = false then .ok (r, false)
  else
    let r := if sender ∈ r.votes then r else { r with votes := r.votes ++ [sender] }
    if r.hasQuorum then do return (← r.lead, true)
    else .ok (r, false)

end ReplicatedStore.Replica
