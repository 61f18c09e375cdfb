import ReplicatedStore.Replica.Election
/-!
# Leading

What a leader does: it appends commands, sends each peer a window of its log (or notes that the
peer needs an image), records the answers, and commits what a majority holds.
-/
namespace ReplicatedStore.Replica

/-- Put a command at the end of the log; none if the member does not lead. Mirrors `append_entry`.
-/
def propose (r : Replica) (c : Command) : Except Fault (Option (Replica × Entry)) :=
  if !r.leads then .ok none
  else do
    let e : Entry := ⟨r.term, ← Word.add r.lastIndex 1, c⟩
    return some ({ r with log := r.log ++ [e] }, e)

/-! ## Requests -/

/-- Whether a peer is to be sent a position that the log no longer holds. Mirrors
`needs_snapshot`. -/
def needsImage (r : Replica) (peer : NodeId) : Bool :=
  0 < r.snapshotIndex && (r.next.get? peer).any (· ≤ r.snapshotIndex)

/-- The request that carries the given entries after the peer's known position. Mirrors the request
of `append_entries_for`. -/
def window (r : Replica) (next : Nat) (entries : List Entry) : AppendRequest where
  term := r.term
  leader := r.id
  prevIndex := next - 1
  prevTerm := r.termAt (next - 1)
  entries := entries
  leaderCommit := r.commitIndex

/-- The next position to send to a peer by an append request. Mirrors the guards of
`append_entries_for`. -/
def sendable? (r : Replica) (peer : NodeId) : Option Nat :=
  if !r.leads || r.needsImage peer then none else r.next.get? peer

/-- Everything from the peer's next position on. Mirrors `create_append_entries`. -/
def appendRequest? (r : Replica) (peer : NodeId) : Except Fault (Option AppendRequest) :=
  match r.sendable? peer with
  | none => .ok none
  | some next => do return some (r.window next (← r.entriesFrom next))

/-- The same window without entries. Mirrors `create_heartbeat`. -/
def heartbeat? (r : Replica) (peer : NodeId) : Option AppendRequest :=
  (r.sendable? peer).map (r.window · [])

/-- The request that ships an image. Mirrors `create_install_snapshot`. -/
def installRequest? (r : Replica) (entries : List Entry) (lastIndex lastTerm : Nat) :
    Option InstallRequest :=
  if r.leads then some ⟨r.term, r.id, lastIndex, lastTerm, entries⟩ else none

/-! ## Answers -/

/-- What each member is known to hold, in descending order. Mirrors the sorted list of
`advance_commit_index`. -/
def holdings (r : Replica) : List Nat :=
  (r.peers.map (fun p => (r.matched.get? p).getD 0) ++ [r.lastIndex]).mergeSort (fun a b => b ≤ a)

/-- Commit the highest position that a majority holds, if it is new and of this term. Earlier terms
are committed only along with it. Mirrors `advance_commit_index`. -/
def advanceCommit (r : Replica) : Except Fault (Replica × Bool) :=
  if !r.leads then .ok (r, false)
  else
    match r.holdings[r.quorum - 1]? with
    | none => .error .range
    | some i =>
      if r.commitIndex < i ∧ r.termAt i = r.term then .ok ({ r with commitIndex := i }, true)
      else .ok (r, false)

/-- Record a peer's answer to an append request whose last position was `lastSent`; whether the
commit index moved. A refusal moves the peer's next position back by one, not below 1. Mirrors
`handle_append_entries_response`. -/
def recordAppend (r : Replica) (term : Nat) (success : Bool) (sender : NodeId) (lastSent : Nat) :
    Except Fault (Replica × Bool) :=
  if r.term < term then .ok (r.follow term, false)
  else if !r.leads || term < r.term then .ok (r, false)
  else if success then do
    let matched := max ((r.matched.get? sender).getD 0) lastSent
    let next ← Word.add matched 1
    advanceCommit
      { r with matched := r.matched.insert sender matched, next := r.next.insert sender next }
  else
    let next := (r.next.get? sender).getD 1
    .ok ({ r with next := r.next.insert sender (if 1 < next then next - 1 else next) }, false)

/-- Record that a peer took an image up to `lastIndex`. Mirrors
`handle_install_snapshot_response`. -/
def recordInstall (r : Replica) (term : Nat) (sender : NodeId) (lastIndex : Nat) :
    Except Fault (Replica × Bool) :=
  r.recordAppend term true sender lastIndex

end ReplicatedStore.Replica
