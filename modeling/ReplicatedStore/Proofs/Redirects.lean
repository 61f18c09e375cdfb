import ReplicatedStore.Proofs.Roles
/-!
# Whom a member redirects to

A member that does not lead names the leader it has heard from, and clients go there without asking
further. So it must never name itself. `Replica.Candid` says that a replica takes itself for the
leader only while it leads; with the shape of its role (`Replica.Shaped`) it does so exactly then.

`Member.Serves` is one critical section with what other members send, whatever it is and whatever
writes fail, and the error that its caller is given. Every section keeps the replica candid but one
(`Serves.candid`): a member without peers leads as soon as it stands, so when its own vote cannot be
written it steps down from a lead, in the same term, and goes on naming itself
(`lone_candidate_redirects_to_itself`). Members with peers, and lone ones whose votes are written,
never redirect to themselves (`redirects_name_others`).
-/
namespace ReplicatedStore

namespace Replica

variable {r r' : Replica} {v : NodeId}

/-- The replica is that of the member, keeps what belongs to its role, and takes itself for the
leader only while it leads. -/
structure Candid (v : NodeId) (r : Replica) : Prop where
  id : r.id = v
  shaped : r.Shaped
  modest : r.leader = some v → r.role = .leader

theorem role_lead (run : r.lead = .ok r') : r'.role = .leader := by
  obtain ⟨_, _, rfl⟩ := lead_spec run
  rfl

namespace Candid

theorem congr (h : r.Candid v) (same : r'.office = r.office) : r'.Candid v where
  id := (congrArg Office.id same).trans h.id
  shaped := h.shaped.congr same
  modest hleader :=
    (congrArg Office.role same).trans (h.modest ((congrArg Office.leader same).symm.trans hleader))

theorem leader_iff (h : r.Candid v) : r.leader = some v ↔ r.role = .leader :=
  ⟨h.modest, fun hrole => h.id ▸ (h.shaped.leader hrole).leader⟩

/-! ## Changes of role -/

/-- Whoever steps down for a later term knows no leader; in the same term it must not have named
itself. -/
theorem follow (h : r.Candid v) {term : Nat} (forgets : r.term < term ∨ r.leader ≠ some v) :
    (r.follow term).Candid v := by
  refine ⟨(sameLog_follow r term).id.trans h.id, h.shaped.follow term, fun hleader => ?_⟩
  unfold Replica.follow at hleader
  split at hleader
  · cases hleader
  · next hge => exact (forgets.resolve_left hge hleader).elim

theorem accept (h : r.Candid v) (term : Nat) {leader : NodeId} (foreign : leader ≠ v) :
    (r.accept term leader).Candid v :=
  ⟨(sameLog_accept r term leader).id.trans h.id, h.shaped.accept term leader,
    fun hleader => absurd (Option.some.inj hleader) foreign⟩

theorem campaign (h : r.Candid v) {q : VoteRequest} (run : r.campaign = .ok (r', q)) :
    r'.Candid v := by
  refine ⟨(sameLog_campaign run).id.trans h.id, h.shaped.campaign run, fun hleader => ?_⟩
  obtain ⟨r₀, rfl, ⟨rfl, -⟩ | ⟨-, hlead⟩, -⟩ := campaign_cases run
  · cases hleader
  · exact role_lead hlead

theorem countVote (h : r.Candid v) {term : Nat} {granted won : Bool} {sender : NodeId}
    (peer : sender ∈ r.peers) (run : r.countVote term granted sender = .ok (r', won)) :
    r'.Candid v := by
  refine ⟨(sameLog_countVote run).id.trans h.id, h.shaped.countVote peer run, fun hleader => ?_⟩
  rcases countVote_cases run with
    ⟨hlt, rfl⟩ | rfl | ⟨hrole, -, -, r₀, rfl, ⟨rfl, -⟩ | ⟨-, hlead⟩⟩
  · exact (h.follow (.inl hlt)).modest hleader
  · exact h.modest hleader
  · cases (h.shaped.candidate hrole).leader.symm.trans hleader
  · exact role_lead hlead

theorem answerVote (h : r.Candid v) {q : VoteRequest} {granted : Bool}
    (run : r.answerVote q = (r', granted)) : r'.Candid v := by
  refine ⟨(sameLog_answerVote run).id.trans h.id, h.shaped.answerVote run, fun hleader => ?_⟩
  rcases answerVote_cases run with ⟨-, rfl, -⟩ | ⟨-, ⟨vote, heq⟩, -⟩
  · exact h.modest hleader
  by_cases hlt : r.term < q.term
  · rw [if_pos hlt] at heq
    subst heq
    exact (h.follow (.inl hlt)).modest hleader
  · rw [if_neg hlt] at heq
    subst heq
    exact h.modest hleader

/-! ## Requests and answers -/

theorem takeEntries (h : r.Candid v) {q : AppendRequest} {o : AppendOutcome}
    (foreign : q.leader ≠ v) (run : r.takeEntries q = .ok (r', o)) : r'.Candid v := by
  obtain rfl | ⟨log, commit, rfl, -, -⟩ := exists_takeEntries run
  · exact h
  · exact (h.accept q.term foreign).congr rfl

theorem takeImage (h : r.Candid v) {term lastIndex lastTerm : Nat} {leader : NodeId}
    {o : InstallOutcome} (foreign : leader ≠ v)
    (run : r.takeImage term leader lastIndex lastTerm = .ok (r', o)) : r'.Candid v := by
  rcases Member.takeImage_cases run with ⟨-, rfl, -⟩ | ⟨-, -, rfl, -⟩ | ⟨-, -, hre, -⟩
  · exact h
  · exact h.accept term foreign
  · obtain ⟨log, rfl⟩ := exists_rebase hre
    exact (h.accept term foreign).congr rfl

theorem advanceCommit (h : r.Candid v) {advanced : Bool}
    (run : r.advanceCommit = .ok (r', advanced)) : r'.Candid v := by
  rcases advanceCommit_spec run with ⟨rfl, -⟩ | ⟨-, -, i, -, -, -, rfl⟩
  · exact h
  · exact h.congr rfl

theorem recordAppend (h : r.Candid v) {term lastSent : Nat} {success advanced : Bool}
    {sender : NodeId} (peer : sender ∈ r.peers)
    (run : r.recordAppend term success sender lastSent = .ok (r', advanced)) : r'.Candid v := by
  have ha : r.role = .leader → (r.answered success sender lastSent).Candid v := fun hrole =>
    ⟨(sameLog_answered r success sender lastSent).id.trans h.id,
      h.shaped.answered hrole success peer lastSent, fun _ => role_answered hrole ..⟩
  rcases recordAppend_spec run with
    ⟨hlt, rfl, -⟩ | ⟨rfl, -⟩ | ⟨hrole, -, ⟨-, hadv⟩ | ⟨-, rfl, -⟩⟩
  · exact h.follow (.inl hlt)
  · exact h
  · exact (ha hrole).advanceCommit hadv
  · exact ha hrole

end Candid

/-- A member with a peer is no majority by itself. -/
theorem one_lt_quorum (listed : r.id ∈ r.members) (peers : r.peers ≠ []) : 1 < r.quorum := by
  obtain ⟨p, hp⟩ := List.exists_mem_of_ne_nil _ peers
  obtain ⟨hknown, hne⟩ := List.mem_filter.1 hp
  have hpair : [r.id, p].Nodup := by
    rw [List.nodup_cons, List.mem_singleton]
    exact ⟨(of_decide_eq_true hne).symm, List.nodup_singleton p⟩
  have hsub : [r.id, p] ⊆ r.members := by
    intro u hu
    rcases List.mem_cons.1 hu with rfl | hu
    · exact listed
    · exact List.mem_singleton.1 hu ▸ hknown
  have hlength : 2 ≤ r.members.length := (hpair.subperm hsub).length_le
  simp only [quorum]
  omega

/-- A leader has something to send to each of its peers. -/
theorem LeaderShape.exists_request (h : r.LeaderShape) (role : r.role = .leader) {peer : NodeId}
    (known : peer ∈ r.peers) (hneeds : r.needsImage peer = false) :
    r.appendRequest? peer ≠ .ok none := by
  obtain ⟨next, hnext⟩ := Option.isSome_iff_exists.1 ((h.next peer).2 known)
  have hsend : r.sendable? peer = some next := sendable?_eq_some_iff.2 ⟨role, hneeds, hnext⟩
  intro hq
  rw [appendRequest?, hsend] at hq
  obtain ⟨es, -, hq⟩ := bind_eq_ok.1 hq
  cases hq

end Replica

/-- The error that a result is, if it is one. -/
def refusal? {α : Type} : Except ServiceError α → Option ServiceError
  | .ok _ => none
  | .error e => some e

namespace Member

variable {C : Member MemoryDisk → Prop} {m m' m₀ : Member MemoryDisk} {v : NodeId}

/-! ## Sections -/

/-- A request that is not made in the name of the member itself. -/
def Foreign (v : NodeId) : Message → Prop
  | .appendRequest q => q.leader ≠ v
  | .installRequest q => q.leader ≠ v
  | _ => True

/-- One critical section, and the error that its caller is given. Requests and answers are those of
other members; the election timer fires only where the condition holds. -/
inductive Serves (C : Member MemoryDisk → Prop) (m : Member MemoryDisk) :
    Member MemoryDisk → Option ServiceError → Prop
  | timeout {m' q} (may : C m) (run : m.campaign = .ok (m', q)) : Serves C m m' none
  | answer {now message m' reply} (foreign : Foreign m.replica.id message)
      (run : m.answer now message = .ok (m', reply)) : Serves C m m' (refusal? reply)
  | countVote {campaign peer term granted m' more} (known : peer ∈ m.replica.peers)
      (run : m.countVote campaign peer term granted = .ok (m', more)) : Serves C m m' none
  | recordReply {peer through reply now m' more} (known : peer ∈ m.replica.peers)
      (run : m.recordReply now peer through reply = .ok (m', more)) :
      Serves C m m' (if m'.replica.leads then none else some m'.notLeader)
  | recordBeat {peer through reply now m'} (known : peer ∈ m.replica.peers)
      (run : m.recordBeat now peer through reply = .ok m') : Serves C m m' none
  | propose {command ticket now m' result}
      (run : m.propose now command ticket = .ok (m', result)) : Serves C m m' (refusal? result)
  | fetch {peer target result} (known : peer ∈ m.replica.peers)
      (run : m.nextRequest peer target = .ok result) : Serves C m m (refusal? result)
  | beat {m' beats} (run : m.heartbeats = (m', beats)) : Serves C m m' none
  | caughtUp {peer} : Serves C m (m.caughtUp peer) none
  | giveUp {index} : Serves C m (m.dropWaiter index) none
  | shutDown : Serves C m m.shutDown none

/-- Any number of sections, also after the member has stopped. What a section wants done outside may
be done after it. -/
inductive Serving (C : Member MemoryDisk → Prop) : Member MemoryDisk → Member MemoryDisk → Prop
  | refl (m : Member MemoryDisk) : Serving C m m
  | act {m m' m'' : Member MemoryDisk} {e : Option ServiceError} (run : Serving C m m')
      (serves : Serves C m' m'' e) : Serving C m m''
  | drain {m m' : Member MemoryDisk} (run : Serving C m m') : Serving C m { m' with outbox := [] }

/-- The member has no peers, and a vote for itself could not be written now. -/
def Thwarted (m : Member MemoryDisk) : Prop :=
  m.replica.peers = [] ∧
    m.disk.fails m.disk.tried (.ballot ⟨m.replica.term + 1, some m.replica.id⟩) = true

/-! ## What a section makes of the replica -/

/-- A candidacy that is given up was not that of a member without peers, so it had not led. -/
theorem candid_campaign (h : m.replica.Candid v) (may : ¬ m.Thwarted) {q : Option VoteRequest}
    (run : m.campaign = .ok (m', q)) : m'.replica.Candid v := by
  rcases replica_campaign run with rfl | ⟨r, request, hr, rfl | ⟨hfollow, hfails⟩⟩
  · exact h
  · exact h.campaign hr
  have hballot := (Replica.campaign_spec hr).2.2.1
  rw [hballot] at hfails
  have hquorum : 1 < m.replica.quorum :=
    Replica.one_lt_quorum h.shaped.listed fun hnil => may ⟨hnil, hfails⟩
  rw [hfollow]
  refine (h.campaign hr).follow (.inr ?_)
  obtain ⟨r₀, rfl, ⟨rfl, -⟩ | ⟨hmajority, -⟩, -⟩ := Replica.campaign_cases hr
  · exact Option.some_ne_none v |>.symm
  · exact absurd hmajority (Nat.not_le.2 hquorum)

theorem candid_recordReply (h : m.replica.Candid v) {now : Instant} {peer : NodeId}
    {through : Nat} {reply : Message} {more : Bool} (known : peer ∈ m.replica.peers)
    (run : m.recordReply now peer through reply = .ok (m', more)) : m'.replica.Candid v := by
  obtain rfl | ⟨term, success, r, advanced, accepted, -, hr, hrun⟩ := recordReply_cases run
  · exact h
  · exact (h.recordAppend known hr).congr (sameButLog_recorded hrun).office

theorem candid_answer (h : m.replica.Candid v) {now : Instant} {message : Message}
    {reply : Except ServiceError Message} (foreign : Foreign m.replica.id message)
    (run : m.answer now message = .ok (m', reply)) : m'.replica.Candid v := by
  rw [h.id] at foreign
  cases message with
  | voteRequest q =>
    obtain ⟨granted, hr⟩ := replica_answerVote (Except.ok.inj run)
    exact h.answerVote hr
  | appendRequest q =>
    obtain ⟨r, o, hr, hsame⟩ := sameButLog_answerAppend run
    exact (h.takeEntries foreign hr).congr hsame.office
  | installRequest q =>
    obtain ⟨o, hr⟩ := replica_answerInstall run
    exact h.takeImage foreign hr
  | voteReply | appendReply | installReply =>
    cases run
    exact h

theorem candid_propose (h : m.replica.Candid v) {now : Instant} {command : Command} {ticket : Nat}
    {result : Except ServiceError Nat} (run : m.propose now command ticket = .ok (m', result)) :
    m'.replica.Candid v := by
  rcases sameButLog_propose run with hsame | ⟨r, e, r', advanced, hp, hadvance, hsame⟩
  · rw [hsame]
    exact h
  · have hr : r.Candid v := by
      rcases Replica.propose_cases hp with ⟨-, hnone⟩ | ⟨-, -, hsome⟩
      · cases hnone
      · cases hsome
        exact h.congr rfl
    exact (hr.advanceCommit hadvance).congr hsame.office

/-- **One section.** -/
theorem Serves.candid {e : Option ServiceError} (h : m.replica.Candid v)
    (serves : Serves (¬ Thwarted ·) m m' e) : m'.replica.Candid v := by
  cases serves with
  | timeout may run => exact candid_campaign h may run
  | answer foreign run => exact candid_answer h foreign run
  | countVote known run =>
    obtain ⟨won, hr⟩ := replica_countVote run
    exact h.countVote known hr
  | recordReply known run => exact candid_recordReply h known run
  | recordBeat known run =>
    obtain ⟨m₁, more, hrecord, hbegins⟩ := recordBeat_cases run
    exact hbegins.quiet.replica ▸ candid_recordReply h known hrecord
  | propose run => exact candid_propose h run
  | fetch | caughtUp => exact h
  | beat run =>
    obtain rfl : m' = m.heartbeats.1 := congrArg Prod.fst run.symm
    exact (quiet_heartbeats m).replica ▸ h
  | giveUp => exact (quiet_dropWaiter m _).replica ▸ h
  | shutDown => exact (quiet_shutDown m).replica ▸ h

/-- **Any number of sections.** -/
theorem Serving.candid (run : Serving (¬ Thwarted ·) m₀ m) (h : m₀.replica.Candid v) :
    m.replica.Candid v := by
  induction run with
  | refl => exact h
  | act _ serves ih => exact serves.candid ih
  | drain _ ih => exact ih

/-- A member that has started follows, and knows no leader. -/
theorem candid_start {s : MemberSettings} {d : MemoryDisk} {now : Instant}
    (run : start s d now = .ok (.ok m)) : m.replica.Candid s.id := by
  have hground : (grounded s d).replica.office =
      ((Replica.create s.id (s.peers ++ [s.id]) s.config).withBallot d.contents.ballot).office := by
    unfold grounded
    cases d.contents.image <;> rfl
  have hrecovered : Replica.Recovered s.id (s.peers ++ [s.id]) s.config false
      ((Replica.create s.id (s.peers ++ [s.id]) s.config).withBallot d.contents.ballot) :=
    .ballot d.contents.ballot .created
  obtain ⟨-, m₁, m₂, hload, happ, rfl⟩ := start_cases run
  obtain ⟨-, log, -, rfl⟩ := exists_loaded hload
  have hcandid : (grounded s d).replica.Candid s.id :=
    Replica.Candid.congr ⟨rfl, hrecovered.shaped.1, nofun⟩ hground
  exact (hcandid.congr rfl).congr (sameButLog_applyCommitted happ).office

/-! ## Redirects -/

theorem refusal?_eq_some {α : Type} {x : Except ServiceError α} {e : ServiceError}
    (h : refusal? x = some e) : x = .error e := by
  cases x <;> cases h
  rfl

/-- Requests of members are not redirected. -/
theorem answer_ne_notLeader {now : Instant} {message : Message} {hint : Option NodeId} :
    m.answer now message ≠ .ok (m', .error (.notLeader hint)) := by
  intro run
  cases message with
  | voteRequest q =>
    have run : m.answerVote q = _ := Except.ok.inj run
    unfold answerVote at run
    simp only at run
    split at run <;> cases run
  | appendRequest q =>
    obtain ⟨⟨r, o⟩, -, run⟩ := bind_eq_ok.1 run
    obtain ⟨⟨m₁, e⟩, -, run⟩ := bind_eq_ok.1 run
    cases e with
    | some e => cases run
    | none =>
      obtain ⟨m₂, -, run⟩ := sameButLog_settle run
      simp only at run
      split at run <;> cases run
  | installRequest q =>
    obtain ⟨⟨r, o⟩, -, run⟩ := bind_eq_ok.1 run
    simp only at run
    split at run <;> cases run
  | voteReply | appendReply | installReply => cases run

/-- A proposal is redirected by a member that does not lead. -/
theorem hint_propose {now : Instant} {command : Command} {ticket : Nat} {hint : Option NodeId}
    (run : m.propose now command ticket = .ok (m', .error (.notLeader hint))) :
    m.replica.role ≠ .leader ∧ hint = m.replica.leader := by
  obtain ⟨proposed, hp, run⟩ := bind_eq_ok.1 run
  rcases Replica.propose_cases hp with ⟨hrole, rfl⟩ | ⟨-, -, rfl⟩
  · cases run
    exact ⟨hrole, rfl⟩
  · simp only at run
    split at run
    · cases run
    · obtain ⟨⟨r, advanced⟩, -, run⟩ := bind_eq_ok.1 run
      obtain ⟨m₁, -, run⟩ := sameButLog_settle run
      cases run

/-- Whoever brings a peer up is redirected by a member that does not lead: a leader has a request
for each of its peers. -/
theorem hint_nextRequest (h : m.replica.Shaped) {peer : NodeId} {target : Nat}
    {hint : Option NodeId} (known : peer ∈ m.replica.peers)
    (run : m.nextRequest peer target = .ok (.error (.notLeader hint))) :
    m.replica.role ≠ .leader ∧ hint = m.replica.leader := by
  by_cases hleads : m.replica.leads
  · have hrole : m.replica.role = .leader := of_decide_eq_true hleads
    rw [nextRequest, if_neg (by rw [hleads]; decide)] at run
    split at run
    · cases run
    obtain ⟨result, hresult, run⟩ := bind_eq_ok.1 run
    cases result with
    | ok q => cases run
    | error e =>
      cases run
      unfold requestFor at hresult
      split at hresult
      · split at hresult
        · cases hresult
        · rw [Replica.installRequest?, if_pos hleads] at hresult
          cases hresult
      · next hneeds =>
        have hneeds := Bool.eq_false_of_not_eq_true hneeds
        obtain ⟨q?, hq, hresult⟩ := bind_eq_ok.1 hresult
        cases q? with
        | some q => cases hresult
        | none => exact absurd hq ((h.leader hrole).exists_request hrole known hneeds)
  · rw [nextRequest, if_pos (by simpa using hleads)] at run
    cases run
    exact ⟨fun hrole => hleads (decide_eq_true hrole), rfl⟩

/-- **Who redirects does not lead**, and names the leader that it has heard from. -/
theorem Serves.hint {hint : Option NodeId} (h : m.replica.Shaped)
    (serves : Serves C m m' (some (.notLeader hint))) :
    (m.replica.role ≠ .leader ∧ hint = m.replica.leader) ∨
      (m'.replica.role ≠ .leader ∧ hint = m'.replica.leader) := by
  generalize he : some (ServiceError.notLeader hint) = e at serves
  cases serves with
  | timeout | countVote | recordBeat | beat | caughtUp | giveUp | shutDown => cases he
  | answer _ run =>
    rw [refusal?_eq_some he.symm] at run
    exact absurd run answer_ne_notLeader
  | recordReply _ run =>
    split at he
    · cases he
    · next hleads =>
      cases he
      exact .inr ⟨fun hrole => hleads (decide_eq_true hrole), rfl⟩
  | propose run =>
    rw [refusal?_eq_some he.symm] at run
    exact .inl (hint_propose run)
  | fetch known run =>
    rw [refusal?_eq_some he.symm] at run
    exact .inl (hint_nextRequest h known run)

end Member

/-- **A member never redirects to itself.** Whatever is on its disk and whatever writes fail, in any
sequence of timeouts, proposals, and requests and replies of other members: at the end of every
section it names itself as the leader exactly while it leads, and whoever it tells that it does not
lead is sent elsewhere. The exception is the candidacy of a member without peers whose own vote
cannot be written. -/
theorem redirects_name_others {s : MemberSettings} {d : MemoryDisk} {now : Instant}
    {m₀ m : Member MemoryDisk} (started : Member.start s d now = .ok (.ok m₀))
    (run : Member.Serving (¬ Member.Thwarted ·) m₀ m) :
    (m.replica.leader = some s.id ↔ m.replica.role = .leader) ∧
    ∀ m' hint, Member.Serves (¬ Member.Thwarted ·) m m' (some (.notLeader hint)) →
      hint ≠ some s.id := by
  have h := run.candid (Member.candid_start started)
  refine ⟨h.leader_iff, fun m' hint serves => ?_⟩
  rintro rfl
  rcases serves.hint h.shaped with ⟨hrole, hleader⟩ | ⟨hrole, hleader⟩
  · exact hrole (h.modest hleader.symm)
  · exact hrole ((serves.candid h).modest hleader.symm)

/-- A member at rest whose disk has taken so many writes, of all but the second. -/
def forgetful (r : Replica) (saved : Ballot) (tried : Nat) : Member MemoryDisk where
  replica := r
  disk := { contents := { ballot := saved }, tried := tried, fails := fun n _ => n == 1 }
  machine := .empty
  image := none
  pending := .empty
  beating := false
  catchingUp := []
  saved := saved
  stopped := false
  published := r.status
  outbox := []

/-- The first of three members. -/
def firstOfThree : Replica := .create 1 [2, 3, 1] {}

/-- The first of three members cannot write its vote for itself and gives its candidacy up. Then it
hears from the second one as the leader of the same term, and redirects a proposal there. -/
theorem redirects_name_others_forgetful : ∃ m₀ m : Member MemoryDisk,
    Member.start ⟨1, [2, 3], {}⟩ (forgetful firstOfThree ⟨0, none⟩ 0).disk (.ofMillis 0) =
      .ok (.ok m₀) ∧
    Member.Serving (¬ Member.Thwarted ·) m₀ m ∧
    m.Serves (¬ Member.Thwarted ·) m (some (.notLeader (some 2))) ∧
    (m.replica.leader = some 1 ↔ m.replica.role = .leader) ∧ some 2 ≠ (some 1 : Option NodeId) := by
  let aside : Replica := { firstOfThree with term := 1, vote := some 1 }
  let informed : Replica := { aside with leader := some 2 }
  have hstart : Member.start ⟨1, [2, 3], {}⟩ (forgetful firstOfThree ⟨0, none⟩ 0).disk
      (.ofMillis 0) = .ok (.ok (forgetful firstOfThree ⟨0, none⟩ 1)) := rfl
  have hcampaign : (forgetful firstOfThree ⟨0, none⟩ 1).campaign =
      .ok (forgetful aside ⟨0, none⟩ 2, none) := rfl
  have happend : (forgetful aside ⟨0, none⟩ 2).answer (.ofMillis 0)
      (.appendRequest ⟨1, 2, 0, 0, [], 0⟩) = .ok ({ forgetful informed ⟨1, some 1⟩ 3 with
        outbox := [.resetElectionTimer] }, .ok (.appendReply 1 true)) := rfl
  have hpropose : (forgetful informed ⟨1, some 1⟩ 3).propose (.ofMillis 0) (.put "a" "1") 7 =
      .ok (forgetful informed ⟨1, some 1⟩ 3, .error (.notLeader (some 2))) := rfl
  have hmay : ¬ (forgetful firstOfThree ⟨0, none⟩ 1).Thwarted := fun h => nomatch h.1
  have hforeign : Member.Foreign 1 (.appendRequest ⟨1, 2, 0, 0, [], 0⟩) :=
    show (2 : NodeId) ≠ 1 by decide
  have hrun := ((Member.Serving.refl (C := (¬ Member.Thwarted ·)) _).act
    (.timeout hmay hcampaign)).act (.answer hforeign happend)
  have hserves : (forgetful informed ⟨1, some 1⟩ 3).Serves (¬ Member.Thwarted ·) _
    (some (.notLeader (some 2))) := .propose hpropose
  have hothers := redirects_name_others hstart hrun.drain
  exact ⟨_, _, hstart, hrun.drain, hserves, hothers.1, hothers.2 _ _ hserves⟩

/-- The member without peers. -/
def soleMember : Replica := .create 1 [1] {}

/-- A member without peers whose vote for itself cannot be written gives its candidacy up when it
has won it already. It follows from then on, and redirects proposals to itself. -/
theorem lone_candidate_redirects_to_itself : ∃ m₀ m : Member MemoryDisk,
    Member.start ⟨1, [], {}⟩ (forgetful soleMember ⟨0, none⟩ 0).disk (.ofMillis 0) =
      .ok (.ok m₀) ∧
    Member.Serving (fun _ => True) m₀ m ∧ m.replica.role = .follower ∧
    m.replica.leader = some 1 ∧ m.Serves (fun _ => True) m (some (.notLeader (some 1))) := by
  let deposed : Replica := { soleMember with term := 1, vote := some 1, leader := some 1 }
  have hstart : Member.start ⟨1, [], {}⟩ (forgetful soleMember ⟨0, none⟩ 0).disk
      (.ofMillis 0) = .ok (.ok (forgetful soleMember ⟨0, none⟩ 1)) := rfl
  have hcampaign : (forgetful soleMember ⟨0, none⟩ 1).campaign =
      .ok (forgetful deposed ⟨0, none⟩ 2, none) := rfl
  have hpropose : (forgetful deposed ⟨0, none⟩ 2).propose (.ofMillis 0) (.put "a" "1") 7 =
      .ok (forgetful deposed ⟨0, none⟩ 2, .error (.notLeader (some 1))) := rfl
  exact ⟨_, _, hstart, (Member.Serving.refl _).act (.timeout trivial hcampaign), rfl, rfl,
    .propose hpropose⟩

end ReplicatedStore
