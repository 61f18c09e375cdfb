import ReplicatedStore.Proofs.FalteringSections
import ReplicatedStore.Proofs.RecordSteps
/-!
# A leader's books

The term it leads in, its peers, and the two positions that it keeps for each of them. A section
leaves the books alone, closes them, opens them for a leader that was just elected, or writes one
answer into them (`Act.books`). This holds of every member, also of one that has stopped, whatever
writes fail.

What a section makes of the replica is said first, one lemma a section (`replica_campaign` to
`sameButLog_propose`): the replica after it is that after one operation, up to the log and what was
committed and applied. The books follow from the operations.
-/
namespace ReplicatedStore

/-- The term of a leader, its peers, and what it keeps of them. -/
structure Books where
  term : Nat
  peers : List NodeId
  next : Table NodeId Nat
  matched : Table NodeId Nat

namespace Books

/-- The books of a leader whose log ended there when it was elected. -/
def opened (term : Nat) (peers : List NodeId) (lastIndex : Nat) : Books where
  term := term
  peers := peers
  next := .ofList (peers.map (·, lastIndex + 1))
  matched := .ofList (peers.map (·, 0))

/-- The books after a peer's answer. -/
def answered (b : Books) (success : Bool) (sender : NodeId) (lastSent : Nat) : Books :=
  if success then
    let matched := max ((b.matched.get? sender).getD 0) lastSent
    { b with
      matched := b.matched.insert sender matched
      next := b.next.insert sender (matched + 1) }
  else
    let next := (b.next.get? sender).getD 1
    { b with next := b.next.insert sender (if 1 < next then next - 1 else next) }

end Books

namespace Replica

variable {r r' : Replica}

/-- The books of a leader. Nobody else keeps any. -/
def books (r : Replica) : Option Books :=
  if r.role = .leader then some ⟨r.term, r.peers, r.next, r.matched⟩ else none

theorem books_of_leader (h : r.role = .leader) :
    r.books = some ⟨r.term, r.peers, r.next, r.matched⟩ := if_pos h

theorem books_of_role (h : r.role ≠ .leader) : r.books = none := if_neg h

/-- Whoever keeps books leads, and they are its own. -/
theorem of_books {b : Books} (h : r.books = some b) :
    r.role = .leader ∧ b = ⟨r.term, r.peers, r.next, r.matched⟩ := by
  unfold books at h
  split at h
  · next hrole => exact ⟨hrole, (Option.some.inj h).symm⟩
  · cases h

theorem SameButLog.books (h : SameButLog r r') : r'.books = r.books := by
  obtain ⟨_, _, _, _, rfl⟩ := h
  rfl

theorem books_lead (h : r.lead = .ok r') :
    r'.books = some (.opened r.term r.peers r.lastIndex) := by
  obtain ⟨next, hnext, h⟩ := bind_eq_ok.1 h
  obtain ⟨-, rfl⟩ := Word.add_eq_ok_iff.1 hnext
  cases h
  rfl

theorem books_answered (h : r.role = .leader) (success : Bool) (sender : NodeId) (lastSent : Nat) :
    (r.answered success sender lastSent).books =
      some (Books.answered ⟨r.term, r.peers, r.next, r.matched⟩ success sender lastSent) := by
  cases success <;> exact books_of_leader h

theorem books_advanceCommit {advanced : Bool} (h : r.advanceCommit = .ok (r', advanced)) :
    r'.books = r.books := by
  rcases advanceCommit_spec h with ⟨rfl, -⟩ | ⟨-, -, i, -, -, -, rfl⟩ <;> rfl

/-- The books are closed, or those of a leader that was just elected. -/
def Reopens (r : Replica) : Prop :=
  r.books = none ∨ ∃ term peers n, r.books = some (.opened term peers n)

theorem reopens_campaign {q : VoteRequest} (h : r.campaign = .ok (r', q)) : r'.Reopens := by
  obtain ⟨r₀, rfl, ⟨rfl, -⟩ | ⟨-, hlead⟩, -⟩ := campaign_cases h
  · exact .inl rfl
  · exact .inr ⟨_, _, _, books_lead hlead⟩

theorem reopens_countVote {term : Nat} {granted won : Bool} {sender : NodeId}
    (h : r.countVote term granted sender = .ok (r', won)) : r' = r ∨ r'.Reopens := by
  rcases countVote_cases h with ⟨-, rfl⟩ | rfl | ⟨hrole, -, -, r₀, rfl, ⟨rfl, -⟩ | ⟨-, hlead⟩⟩
  · exact .inr (.inl rfl)
  · exact .inl rfl
  · exact .inr (.inl (books_of_role fun hl => nomatch hrole.symm.trans hl))
  · exact .inr (.inr ⟨_, _, _, books_lead hlead⟩)

theorem books_answerVote {q : VoteRequest} {granted : Bool}
    (h : r.answerVote q = (r', granted)) : r'.books = none ∨ r'.books = r.books := by
  rcases answerVote_cases h with ⟨-, rfl, -⟩ | ⟨-, ⟨vote, rfl⟩, -⟩
  · exact .inr rfl
  · split
    · exact .inl rfl
    · exact .inr rfl

/-- Whoever takes entries follows, unless the request is of an old term. -/
theorem books_takeEntries {q : AppendRequest} {o : AppendOutcome}
    (h : r.takeEntries q = .ok (r', o)) : r'.books = none ∨ r'.books = r.books := by
  rcases role_takeEntries h with rfl | hrole
  · exact .inr rfl
  · exact .inl (books_of_role fun hleads => nomatch hrole.symm.trans hleads)

/-- Whoever takes an image follows, unless the request is of an old term. -/
theorem books_takeImage {term lastIndex lastTerm : Nat} {leader : NodeId} {o : InstallOutcome}
    (h : r.takeImage term leader lastIndex lastTerm = .ok (r', o)) :
    r'.books = none ∨ r'.books = r.books := by
  rcases Member.takeImage_cases h with ⟨-, rfl, -⟩ | ⟨-, -, rfl, -⟩ | ⟨-, -, hrebase, -⟩
  · exact .inr rfl
  · exact .inl (books_of_role fun hl => nomatch (role_accept ..).symm.trans hl)
  · have hkeeps := (stance_eq_iff.1 (stance_rebase hrebase)).2.2.1
    have hrole := hkeeps.trans (role_accept ..)
    exact .inl (books_of_role fun hl => nomatch hrole.symm.trans hl)

theorem sameButLog_compact {through : Nat} {removed : List Entry}
    (h : r.compact through = .ok (r', removed)) : SameButLog r r' := by
  simp only [compact] at h
  split at h
  · cases h
    exact .refl _
  · obtain ⟨r₁, hr₁, h⟩ := bind_eq_ok.1 h
    cases h
    unfold dropFirst at hr₁
    split at hr₁
    · cases hr₁
      exact ⟨_, _, _, _, rfl⟩
    · cases hr₁

end Replica

namespace Member

variable {m m' : Member MemoryDisk}

/-! ## Applying -/

theorem replica_finish (m : Member MemoryDisk) : m.finish.replica = m.replica :=
  (quiet_finish m).replica

theorem replica_halted (m : Member MemoryDisk) (step : CriticalStep) (cause : ServiceError) :
    (m.halt step cause).finish.replica = m.replica :=
  (replica_finish _).trans (quiet_halt m step cause).replica

theorem sameButLog_takeImage {now : Instant} {e : Option ServiceError}
    (run : m.takeImage now = .ok (m', e)) : Replica.SameButLog m.replica m'.replica := by
  obtain ⟨r, removed, hr, ⟨-, rfl⟩ | ⟨n, image, -, -, rfl | ⟨-, contents, rfl, -⟩⟩⟩ :=
    compaction_cases run <;> exact Replica.sameButLog_compact hr

theorem sameButLog_applyCommitted {now : Instant} {e : Option ServiceError}
    (run : m.applyCommitted now = .ok (m', e)) : Replica.SameButLog m.replica m'.replica := by
  unfold applyCommitted at run
  split at run
  · next m₁ err hw =>
    cases run
    exact (writes_write hw).replica ▸ .refl _
  · next m₁ hw =>
    rw [← (writes_write hw).replica]
    have htaken : Replica.SameButLog m₁.replica m₁.replica.takeCommitted.1 := ⟨_, _, _, _, rfl⟩
    simp only at run
    split at run
    · cases run
      exact htaken
    · obtain ⟨m₂, err, happ, hcore, -⟩ := applyAll_cases
        { m₁ with replica := m₁.replica.takeCommitted.1 } m₁.replica.takeCommitted.2
      have happlied : Replica.SameButLog m₁.replica m₂.replica :=
        (core_eq_iff.1 hcore).1 ▸ htaken
      rw [happ] at run
      cases err with
      | some err =>
        cases run
        exact happlied
      | none =>
        simp only at run
        split at run
        · exact happlied.trans (sameButLog_takeImage run)
        · cases run
          exact happlied

theorem sameButLog_applyOrHalt {now : Instant} (run : m.applyOrHalt now = .ok m') :
    Replica.SameButLog m.replica m'.replica := by
  unfold applyOrHalt at run
  obtain ⟨⟨m₁, e⟩, happ, run⟩ := bind_eq_ok.1 run
  cases e <;> cases run
  · exact sameButLog_applyCommitted happ
  · exact (quiet_halt m₁ _ _).replica ▸ sameButLog_applyCommitted happ

/-! ## What a section makes of the replica -/

/-- What is left of a section once its replica is settled touches only the log. -/
theorem sameButLog_settle {β : Type} {advanced : Bool} {now : Instant}
    {f : Member MemoryDisk → Except Fault β} {b : β}
    (run : (if advanced then m.applyOrHalt now >>= f else f m) = .ok b) :
    ∃ m₁ : Member MemoryDisk, Replica.SameButLog m.replica m₁.replica ∧ f m₁ = .ok b := by
  split at run
  · obtain ⟨m₁, happ, run⟩ := bind_eq_ok.1 run
    exact ⟨m₁, sameButLog_applyOrHalt happ, run⟩
  · exact ⟨m, .refl _, run⟩

theorem sameButLog_recorded {now : Instant} {r : Replica} {advanced accepted more : Bool}
    (run : m.recorded now r advanced accepted = .ok (m', more)) :
    Replica.SameButLog r m'.replica := by
  unfold recorded at run
  split at run
  · next m₁ e hsave =>
    cases run
    rw [replica_halted, (saveBallot_spec hsave).1]
    exact .refl _
  · next m₁ hsave =>
    obtain ⟨m₂, hsame, run⟩ := sameButLog_settle run
    cases run
    rw [(saveBallot_spec hsave).1] at hsame
    exact (replica_finish m₂).symm ▸ hsame

/-- A ballot that cannot be written is one whose write fails. -/
theorem fails_of_saveBallot {r : Replica} {e : IoError}
    (run : saveBallot { m with replica := r } = (m', some e)) :
    m'.replica = r ∧ m.disk.fails m.disk.tried (.ballot r.ballot) = true := by
  refine ⟨(saveBallot_spec run).1, ?_⟩
  unfold saveBallot at run
  split at run
  · cases run
  · split at run
    · cases run
    · next hw =>
      cases run
      rcases write_cases hw with ⟨hnone, -⟩ | ⟨-, hfails, -⟩
      · cases hnone
      · exact hfails

/-- A candidacy stands, or its vote could not be written and it is given up. -/
theorem replica_campaign {q : Option VoteRequest} (run : m.campaign = .ok (m', q)) :
    m' = m ∨ ∃ r request, m.replica.campaign = .ok (r, request) ∧
      (m'.replica = r ∨ m'.replica = r.follow r.term ∧
        m.disk.fails m.disk.tried (.ballot r.ballot) = true) := by
  unfold campaign at run
  split at run
  · cases run
    exact .inl rfl
  · obtain ⟨⟨r, request⟩, hr, run⟩ := bind_eq_ok.1 run
    refine .inr ⟨r, request, hr, ?_⟩
    simp only at run
    split at run
    · next m₁ e hsave =>
      cases run
      obtain ⟨hreplica, hfails⟩ := fails_of_saveBallot hsave
      refine .inr ⟨?_, hfails⟩
      rw [replica_finish]
      show m₁.replica.follow m₁.replica.term = r.follow r.term
      rw [hreplica]
    · next m₁ hsave =>
      cases run
      exact .inl ((replica_finish m₁).trans (saveBallot_spec hsave).1)

theorem replica_countVote {campaign term : Nat} {peer : NodeId} {granted more : Bool}
    (run : m.countVote campaign peer term granted = .ok (m', more)) :
    ∃ won, m.replica.countVote term granted peer = .ok (m'.replica, won) := by
  unfold countVote at run
  obtain ⟨⟨r, won⟩, hr, run⟩ := bind_eq_ok.1 run
  refine ⟨won, hr.trans ?_⟩
  simp only at run
  split at run
  · next m₁ e hsave =>
    cases run
    rw [replica_halted, (saveBallot_spec hsave).1]
  · next m₁ hsave =>
    cases run
    rw [replica_finish, (saveBallot_spec hsave).1]

theorem replica_answerVote {q : VoteRequest} {reply : Except ServiceError Message}
    (run : m.answerVote q = (m', reply)) :
    ∃ granted, m.replica.answerVote q = (m'.replica, granted) := by
  unfold answerVote at run
  cases hr : m.replica.answerVote q with
  | mk r granted =>
    refine ⟨granted, ?_⟩
    simp only [hr] at run
    split at run
    · next m₁ e hsave =>
      cases run
      rw [replica_finish, (saveBallot_spec hsave).1]
    · next m₁ hsave =>
      cases run
      have hreplica : (if granted then m₁.finish.emit .resetElectionTimer
          else m₁.finish).replica = m₁.replica := by
        split <;> exact replica_finish m₁
      rw [hreplica, (saveBallot_spec hsave).1]

theorem sameButLog_answerAppend {now : Instant} {q : AppendRequest}
    {reply : Except ServiceError Message} (run : m.answerAppend now q = .ok (m', reply)) :
    ∃ r o, m.replica.takeEntries q = .ok (r, o) ∧ Replica.SameButLog r m'.replica := by
  unfold answerAppend at run
  obtain ⟨⟨r, o⟩, hr, run⟩ := bind_eq_ok.1 run
  refine ⟨r, o, hr, ?_⟩
  obtain ⟨⟨m₁, e⟩, hp, run⟩ := bind_eq_ok.1 run
  have hreplica : m₁.replica = r :=
    (writes_persistEntries hp).replica.trans (quiet_noteLeader { m with replica := r } _).replica
  cases e with
  | some e =>
    cases run
    rw [replica_halted, hreplica]
    exact .refl _
  | none =>
    obtain ⟨m₂, hsame, run⟩ := sameButLog_settle run
    cases run
    rw [replica_finish]
    exact hreplica ▸ hsame

theorem replica_persistImage {installed : Bool} {image : Image} {e : Option IoError}
    (run : m.persistImage installed image = (m', e)) : m'.replica = m.replica := by
  obtain ⟨_, _, hwrites⟩ := writes_persistImage run
  exact hwrites.replica

theorem replica_answerInstall {now : Instant} {q : InstallRequest}
    {reply : Except ServiceError Message} (run : m.answerInstall now q = .ok (m', reply)) :
    ∃ o, m.replica.takeImage q.term q.leader q.lastIndex q.lastTerm = .ok (m'.replica, o) := by
  obtain ⟨r, o, m₁, m₂, e, hr, hg, hp, ha⟩ := answerInstall_cases run
  have hreplica : m₂.replica = r :=
    (replica_persistImage hp).trans (core_eq_iff.1 (gist_eq_iff.1 hg).1).1
  refine ⟨o, hr.trans ?_⟩
  rcases ha with ⟨-, rfl, -⟩ | ⟨-, cause, rfl, -⟩
  · rw [replica_finish, hreplica]
  · rw [replica_halted, hreplica]

/-- A proposal is refused, or a leader appends it and perhaps commits it. -/
theorem sameButLog_propose {now : Instant} {command : Command} {ticket : Nat}
    {result : Except ServiceError Nat} (run : m.propose now command ticket = .ok (m', result)) :
    m'.replica = m.replica ∨ ∃ r e r' advanced, m.replica.propose command = .ok (some (r, e)) ∧
      r.advanceCommit = .ok (r', advanced) ∧ Replica.SameButLog r' m'.replica := by
  unfold propose at run
  obtain ⟨proposed, hproposed, run⟩ := bind_eq_ok.1 run
  cases proposed with
  | none =>
    cases run
    exact .inl rfl
  | some p =>
    obtain ⟨r, e⟩ := p
    simp only at run
    split at run
    · next hw =>
      cases run
      exact .inl (writes_write hw).replica
    · next m₁ hw =>
      obtain ⟨⟨r', advanced⟩, hadvance, run⟩ := bind_eq_ok.1 run
      rw [(core_eq_iff.1 (core_await { m₁ with replica := r } e.index ⟨e.term, ticket⟩)).1]
        at hadvance
      obtain ⟨m₂, hsame, run⟩ := sameButLog_settle run
      cases run
      rw [replica_finish]
      exact .inr ⟨r, e, r', advanced, hproposed, hadvance, hsame⟩

/-! ## The books after a section -/

theorem books_campaign {q : Option VoteRequest} (run : m.campaign = .ok (m', q)) :
    m' = m ∨ m'.replica.Reopens := by
  refine (replica_campaign run).imp_right ?_
  rintro ⟨r, request, hr, rfl | ⟨hfollow, -⟩⟩
  · exact Replica.reopens_campaign hr
  · rw [hfollow]
    exact .inl rfl

theorem books_countVote {campaign term : Nat} {peer : NodeId} {granted more : Bool}
    (run : m.countVote campaign peer term granted = .ok (m', more)) :
    m'.replica = m.replica ∨ m'.replica.Reopens := by
  obtain ⟨won, hr⟩ := replica_countVote run
  exact Replica.reopens_countVote hr

theorem books_answerVote {q : VoteRequest} {reply : Except ServiceError Message}
    (run : m.answerVote q = (m', reply)) :
    m'.replica.books = none ∨ m'.replica.books = m.replica.books := by
  obtain ⟨granted, hr⟩ := replica_answerVote run
  exact Replica.books_answerVote hr

theorem books_answerAppend {now : Instant} {q : AppendRequest}
    {reply : Except ServiceError Message} (run : m.answerAppend now q = .ok (m', reply)) :
    m'.replica.books = none ∨ m'.replica.books = m.replica.books := by
  obtain ⟨r, o, hr, hsame⟩ := sameButLog_answerAppend run
  rw [hsame.books]
  exact Replica.books_takeEntries hr

theorem books_answerInstall {now : Instant} {q : InstallRequest}
    {reply : Except ServiceError Message} (run : m.answerInstall now q = .ok (m', reply)) :
    m'.replica.books = none ∨ m'.replica.books = m.replica.books := by
  obtain ⟨o, hr⟩ := replica_answerInstall run
  exact Replica.books_takeImage hr

theorem books_propose {now : Instant} {command : Command} {ticket : Nat}
    {result : Except ServiceError Nat} (run : m.propose now command ticket = .ok (m', result)) :
    m'.replica.books = m.replica.books := by
  rcases sameButLog_propose run with hsame | ⟨r, e, r', advanced, hp, hadvance, hsame⟩
  · rw [hsame]
  · rw [hsame.books, Replica.books_advanceCommit hadvance]
    rcases Replica.propose_cases hp with ⟨-, hnone⟩ | ⟨-, -, hsome⟩
    · cases hnone
    · cases hsome
      rfl

/-! ## Answers -/

/-- The section that records a peer's answer: to a request for entries or an image, or to a
heartbeat. -/
inductive Counts (m : Member MemoryDisk) (peer : NodeId) (through : Nat) (reply : Message) :
    Member MemoryDisk → Prop
  | reply {now m' more} (run : m.recordReply now peer through reply = .ok (m', more)) :
      Counts m peer through reply m'
  | beat {now m'} (run : m.recordBeat now peer through reply = .ok m') :
      Counts m peer through reply m'

/-- An answer of the leader's own term is written into its books, any other leaves them alone or
closes them. -/
theorem books_recordReply {now : Instant} {peer : NodeId} {through : Nat} {reply : Message}
    {more : Bool} (run : m.recordReply now peer through reply = .ok (m', more)) :
    m'.replica.books = none ∨ m'.replica.books = m.replica.books ∨ ∃ b success,
      m.replica.books = some b ∧
        (reply = .appendReply b.term success ∨ reply = .installReply b.term ∧ success = true) ∧
        m'.replica.books = some (b.answered success peer through) := by
  obtain rfl | ⟨term, success, r, advanced, accepted, hreply, hr, run⟩ := recordReply_cases run
  · exact .inr (.inl rfl)
  rw [(sameButLog_recorded run).books]
  rcases Replica.recordAppend_spec hr with ⟨-, rfl, -⟩ | ⟨rfl, -⟩ | ⟨hrole, rfl, hanswered⟩
  · exact .inl rfl
  · exact .inr (.inl rfl)
  · refine .inr (.inr ⟨_, success, Replica.books_of_leader hrole, hreply, ?_⟩)
    rcases hanswered with ⟨-, hadvance⟩ | ⟨-, rfl, -⟩
    · rw [Replica.books_advanceCommit hadvance, Replica.books_answered hrole]
    · rw [Replica.books_answered hrole]

theorem Counts.books {peer : NodeId} {through : Nat} {reply : Message}
    (h : Counts m peer through reply m') :
    m'.replica.books = none ∨ m'.replica.books = m.replica.books ∨ ∃ b success,
      m.replica.books = some b ∧
        (reply = .appendReply b.term success ∨ reply = .installReply b.term ∧ success = true) ∧
        m'.replica.books = some (b.answered success peer through) := by
  cases h with
  | reply run => exact books_recordReply run
  | beat run =>
    obtain ⟨m₁, more, hrecord, hbegins⟩ := recordBeat_cases run
    rw [hbegins.quiet.replica]
    exact books_recordReply hrecord

end Member

/-! ## One section -/

/-- The section writes a peer's answer into the books. -/
structure Deed.Enters (w : World) (v : NodeId) (m : Member MemoryDisk) (b : Books) (r : Request)
    (reply : Message) (success : Bool) (through : Nat) (d : Deed) : Prop where
  counts : m.Counts r.receiver through reply d.member
  replied : (r, reply) ∈ w.replies
  here : r.sender = v
  covered : Member.sentThrough r.body = .ok through
  answer : reply = .appendReply b.term success ∨ reply = .installReply b.term ∧ success = true
  before : m.replica.books = some b
  after : d.member.replica.books = some (b.answered success r.receiver through)

/-- **What a section does to the books.** -/
theorem Act.books {c : Conditions} {w : World} {v : NodeId} {m : Member MemoryDisk} {d : Deed}
    (act : Act c w v m d) : d.member.replica.books = m.replica.books ∨ d.member.replica.Reopens ∨
      ∃ b r reply success through, d.Enters w v m b r reply success through := by
  have hanswered : ∀ {m' : Member MemoryDisk},
      m'.replica.books = none ∨ m'.replica.books = m.replica.books →
        m'.replica.books = m.replica.books ∨ m'.replica.Reopens :=
    fun h => h.symm.imp_right Or.inl
  have hcounted : ∀ {r reply through} {m' : Member MemoryDisk}, (r, reply) ∈ w.replies →
      r.sender = v → Member.sentThrough r.body = .ok through →
      m.Counts r.receiver through reply m' →
      m'.replica.books = m.replica.books ∨ m'.replica.Reopens ∨ ∃ b r reply success through,
        Deed.Enters w v m b r reply success through { member := m' } := by
    intro r reply through m' replied here covered counts
    rcases counts.books with h | h | ⟨b, success, hb, hreply, hafter⟩
    · exact .inr (.inl (.inl h))
    · exact .inl h
    · exact .inr (.inr ⟨b, r, reply, success, through, counts, replied, here, covered, hreply, hb,
        hafter⟩)
  cases act with
  | shutDown => exact .inl (congrArg Replica.books (Member.quiet_shutDown m).replica)
  | timeout run => exact (Member.books_campaign run).imp (fun h => by rw [h]) .inl
  | answerVote sent here body run => exact (hanswered (Member.books_answerVote run)).imp_right .inl
  | answerAppend sent here body run =>
    exact (hanswered (Member.books_answerAppend run)).imp_right .inl
  | answerInstall sent here body run =>
    exact (hanswered (Member.books_answerInstall run)).imp_right .inl
  | countVote replied here body run =>
    exact (Member.books_countVote run).imp (congrArg Replica.books) .inl
  | recordReply replied here covered run => exact hcounted replied here covered (.reply run)
  | recordBeat replied here covered run => exact hcounted replied here covered (.beat run)
  | propose admitted fresh run => exact .inl (Member.books_propose run)
  | fetch known run => exact .inl rfl
  | beat run =>
    obtain ⟨rfl, -⟩ := Prod.mk.inj run
    exact .inl (congrArg Replica.books (Member.quiet_heartbeats m).replica)
  | caughtUp => exact .inl rfl
  | giveUp => exact .inl (congrArg Replica.books (Member.quiet_dropWaiter m _).replica)
  | compact run => exact .inl (Member.sameButLog_takeImage run).books

end ReplicatedStore
