import ReplicatedStore.Member.Applying
import ReplicatedStore.Replica.Follower
/-!
# Answering peers

The sections that answer the three requests of peers. What a reply promises is on disk before the
reply is given; a member that cannot bring its disk up to its memory stops.
-/
namespace ReplicatedStore.Member

variable {δ : Type} [Disk δ]

/-- Answer a vote request. Mirrors `handle_vote_request` of the node. -/
def answerVote (m : Member δ) (q : VoteRequest) : Member δ × Except ServiceError Message :=
  let (r, granted) := m.replica.answerVote q
  match saveBallot { m with replica := r } with
  | (m, some e) => (m.finish, .error (.storage e))
  | (m, none) =>
    let m := m.finish
    (if granted then m.emit .resetElectionTimer else m, .ok (.voteReply r.term granted))

/-- Reset the election timer if the sender leads. Mirrors `reset_election_timer` where a handler
calls it. -/
def noteLeader (m : Member δ) (resetTimer : Bool) : Member δ :=
  if resetTimer then m.emit .resetElectionTimer else m

/-- Write how a request changed the ballot and the log, the ballot first. Mirrors
`persist_append`. -/
def persistEntries (m : Member δ) (change : Option LogChange) :
    Except Fault (Member δ × Option IoError) :=
  match m.saveBallot with
  | (m, some e) => .ok (m, some e)
  | (m, none) =>
    match change with
    | none => .ok (m, none)
    | some (.appended start) => do return m.write (.append (← m.replica.entriesFrom start))
    | some .rewritten => .ok (m.write (.replace m.replica.log))

/-- Answer an append request. Mirrors `handle_append_entries` of the node. -/
def answerAppend (m : Member δ) (now : Instant) (q : AppendRequest) :
    Except Fault (Member δ × Except ServiceError Message) := do
  let (r, o) ← m.replica.takeEntries q
  let m := noteLeader { m with replica := r } o.resetTimer
  match ← m.persistEntries o.change with
  | (m, some e) => return ((m.halt .persistEntries (.storage e)).finish, .error (.storage e))
  | (m, none) =>
    let m ← if o.commitAdvanced then m.applyOrHalt now else pure m
    let m := m.finish
    return (m, if m.stopped then .error .shutdown else .ok (.appendReply r.term o.success))

/-- Replace the contents by an image from the leader. Mirrors `install_snapshot`. -/
def install (m : Member δ) (image : Image) : Member δ × Option IoError :=
  match m.write (.image image) with
  | (m, some e) => (m, some e)
  | (m, none) =>
    let m := { m with machine := Image.restore image.entries }
    match m.write (.replace m.replica.log) with
    | (m, some e) => (m, some e)
    | (m, none) =>
      match m.write (.commit m.replica.commitIndex) with
      | (m, some e) => (m, some e)
      | (m, none) => ({ m with image := some image }, none)

/-- Write how an install request changed the ballot and the contents. Mirrors the writes of
`handle_install_snapshot`. -/
def persistImage (m : Member δ) (installed : Bool) (image : Image) : Member δ × Option IoError :=
  match m.saveBallot with
  | (m, some e) => (m, some e)
  | (m, none) => if installed then m.install image else (m, none)

/-- Answer an install request. Mirrors `handle_install_snapshot` of the node. -/
def answerInstall (m : Member δ) (now : Instant) (q : InstallRequest) :
    Except Fault (Member δ × Except ServiceError Message) := do
  let (r, o) ← m.replica.takeImage q.term q.leader q.lastIndex q.lastTerm
  let m := noteLeader { m with replica := r } o.resetTimer
  match m.persistImage o.installed ⟨q.entries, q.lastIndex, q.lastTerm, now⟩ with
  | (m, some e) => return ((m.halt .persistSnapshot (.storage e)).finish, .error (.storage e))
  | (m, none) => return (m.finish, .ok (.installReply r.term))

/-- Answer a peer's message that was let in; a reply is no request. Mirrors the match of
`handle_message`. -/
def answer (m : Member δ) (now : Instant) :
    Message → Except Fault (Member δ × Except ServiceError Message)
  | .voteRequest q => .ok (m.answerVote q)
  | .appendRequest q => m.answerAppend now q
  | .installRequest q => m.answerInstall now q
  | reply => .ok (m, .error (.transport (.unexpectedResponse s!"{reply.kind} is not a request")))

/-- Answer a peer's message. A stopped member lets nothing in. Mirrors `handle_message`. -/
def handle (m : Member δ) (now : Instant) (message : Message) :
    Except Fault (Member δ × Except ServiceError Message) :=
  if m.stopped then .ok (m, .error .shutdown) else m.answer now message

end ReplicatedStore.Member
