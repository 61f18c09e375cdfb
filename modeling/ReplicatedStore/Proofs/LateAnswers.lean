import ReplicatedStore.Proofs.FalteringSections
import ReplicatedStore.Proofs.RecordedRuns
/-!
# Answers of members that have stopped

A member that has stopped lets no request in, but one that was let in before may still wait for its
section. What such a section answers to peers is `Deed.Late`: an append request never, a vote only
when it is on the disk (`stopped_answers`). An image is answered when it was written, but also when
the member counts its entries as committed, and that it does before it writes. So a member that
halted because it could not write an image confirms the image to whoever asks again
(`unwritten_image_confirmed`).
-/
namespace ReplicatedStore

namespace Member

variable {m m' : Member MemoryDisk}

/-! ## Stopping is for good -/

theorem stopped_finish (h : m.stopped = true) : m.finish.stopped = true :=
  (gist_eq_iff.1 (gist_finish m)).2.trans h

theorem stopped_takeImage {now : Instant} {e : Option ServiceError}
    (run : m.takeImage now = .ok (m', e)) (h : m.stopped = true) : m'.stopped = true := by
  obtain ⟨r, removed, -, ⟨-, rfl⟩ | ⟨n, image, -, -, rfl | ⟨-, contents, rfl, -⟩⟩⟩ :=
    compaction_cases run <;> exact h

theorem stopped_applyCommitted {now : Instant} {e : Option ServiceError}
    (run : m.applyCommitted now = .ok (m', e)) (h : m.stopped = true) : m'.stopped = true := by
  unfold applyCommitted at run
  split at run
  · next hw =>
    cases run
    exact (writes_write hw).stopped.trans h
  · next m₁ hw =>
    have h₁ := (writes_write hw).stopped.trans h
    simp only at run
    split at run
    · cases run
      exact h₁
    · obtain ⟨m₂, err, happ, -, hstopped, -⟩ := applyAll_cases
        { m₁ with replica := m₁.replica.takeCommitted.1 } m₁.replica.takeCommitted.2
      rw [happ] at run
      have h₂ := hstopped.trans h₁
      cases err with
      | some err =>
        cases run
        exact h₂
      | none =>
        simp only at run
        split at run
        · exact stopped_takeImage run h₂
        · cases run
          exact h₂

theorem stopped_applyOrHalt {now : Instant} (run : m.applyOrHalt now = .ok m')
    (h : m.stopped = true) : m'.stopped = true := by
  unfold applyOrHalt at run
  obtain ⟨⟨m₁, e⟩, happ, run⟩ := bind_eq_ok.1 run
  cases e with
  | none =>
    cases run
    exact stopped_applyCommitted happ h
  | some err =>
    cases run
    rfl

theorem stopped_shutDown (m : Member MemoryDisk) : m.shutDown.stopped = true :=
  (gist_eq_iff.1 (gist_stopHeartbeat { m with stopped := true })).2

/-! ## Sections -/

theorem stopped_answerVote {q : VoteRequest} {reply : Except ServiceError Message}
    (run : m.answerVote q = (m', reply)) (h : m.stopped = true) : m'.stopped = true := by
  unfold answerVote at run
  simp only at run
  split at run
  · next hsave =>
    cases run
    exact stopped_finish ((writes_saveBallot hsave).stopped.trans h)
  · next hsave =>
    cases run
    have h₁ := stopped_finish ((writes_saveBallot hsave).stopped.trans h)
    split <;> exact h₁

/-- What is answered to a vote request is a vote. -/
theorem voteReply_of_answerVote {q : VoteRequest} {reply : Except ServiceError Message}
    {message : Message} (run : m.answerVote q = (m', reply)) (h : reply = .ok message) :
    ∃ term granted, message = .voteReply term granted := by
  unfold answerVote at run
  simp only at run
  split at run <;> cases run <;> cases h
  exact ⟨_, _, rfl⟩

/-- A stopped member answers no append request. -/
theorem stopped_answerAppend {now : Instant} {q : AppendRequest}
    {reply : Except ServiceError Message} (run : m.answerAppend now q = .ok (m', reply))
    (h : m.stopped = true) : m'.stopped = true ∧ ∃ e, reply = .error e := by
  unfold answerAppend at run
  obtain ⟨⟨r, o⟩, -, run⟩ := bind_eq_ok.1 run
  obtain ⟨⟨m₁, e⟩, hpersist, run⟩ := bind_eq_ok.1 run
  have hnote := gist_noteLeader { m with replica := r } o.resetTimer
  have h₁ := (writes_persistEntries hpersist).stopped.trans ((gist_eq_iff.1 hnote).2.trans h)
  cases e with
  | some err =>
    cases run
    exact ⟨(halted m₁ _ _).2, _, rfl⟩
  | none =>
    simp only at run
    split at run
    · obtain ⟨m₂, happ, run⟩ := bind_eq_ok.1 run
      cases run
      have h₂ := stopped_finish (stopped_applyOrHalt happ h₁)
      exact ⟨h₂, .shutdown, if_pos h₂⟩
    · cases run
      have h₂ := stopped_finish h₁
      exact ⟨h₂, .shutdown, if_pos h₂⟩

/-- An image that a stopped member answers is on its disk, or it was not taken. -/
theorem stopped_answerInstall {now : Instant} {q : InstallRequest}
    {reply : Except ServiceError Message} (run : m.answerInstall now q = .ok (m', reply))
    (h : m.stopped = true) (hstored : m.disk.contents.ballot = m.saved) :
    m'.stopped = true ∧ ∀ message, reply = .ok message → (∃ term, message = .installReply term) ∧
      (q.term < m.replica.term ∨ q.lastIndex ≤ m.replica.commitIndex ∨
        m'.disk.contents.image = some ⟨q.entries, q.lastIndex, q.lastTerm, now⟩) := by
  obtain ⟨r, o, m₁, m₂, e, hr, hg, hp, ha⟩ := answerInstall_cases run
  obtain ⟨hc, hstop⟩ := gist_eq_iff.1 hg
  obtain ⟨-, hd, -, -, hs⟩ := core_eq_iff.1 hc
  obtain ⟨_, _, hwrites⟩ := writes_persistImage hp
  have h₂ : m₂.stopped = true := hwrites.stopped.trans (hstop.trans h)
  rcases ha with ⟨rfl, rfl, rfl⟩ | ⟨-, cause, rfl, rfl⟩
  · refine ⟨stopped_finish h₂, fun message hmessage => ?_⟩
    cases hmessage
    refine ⟨⟨_, rfl⟩, ?_⟩
    rw [(quiet_finish m₂).disk]
    rcases takeImage_cases hr with ⟨hlt, -⟩ | ⟨-, hle, -⟩ | ⟨-, -, -, ho⟩
    · exact .inl hlt
    · exact .inr (.inl hle)
    · rcases persistImage_cases hp (by rw [hd, hs]; exact hstored) with
        ⟨-, n, ⟨hfalse, -⟩ | ⟨-, rfl⟩⟩ | ⟨hne, -⟩
      · cases ho.symm.trans hfalse
      · exact .inr (.inr rfl)
      · exact absurd rfl hne
  · exact ⟨(halted m₂ _ _).2, nofun⟩

theorem stopped_campaign {q : Option VoteRequest} (run : m.campaign = .ok (m', q))
    (h : m.stopped = true) : m'.stopped = true := by
  unfold campaign at run
  split at run
  · cases run
    exact h
  · obtain ⟨⟨r, request⟩, -, run⟩ := bind_eq_ok.1 run
    simp only at run
    split at run <;>
    · next m₁ hsave =>
      cases run
      have h₁ := (writes_saveBallot hsave).stopped.trans h
      exact stopped_finish h₁

theorem stopped_countVote {campaign term : Nat} {peer : NodeId} {granted more : Bool}
    (run : m.countVote campaign peer term granted = .ok (m', more)) (h : m.stopped = true) :
    m'.stopped = true := by
  unfold countVote at run
  obtain ⟨⟨r, won⟩, -, run⟩ := bind_eq_ok.1 run
  simp only at run
  split at run
  · cases run
    exact (halted _ _ _).2
  · next hsave =>
    cases run
    exact stopped_finish ((writes_saveBallot hsave).stopped.trans h)

theorem stopped_recordReply {now : Instant} {peer : NodeId} {through : Nat} {reply : Message}
    {accepted : Bool} (run : m.recordReply now peer through reply = .ok (m', accepted))
    (h : m.stopped = true) : m'.stopped = true := by
  obtain rfl | ⟨_, _, r, advanced, _, -, -, run⟩ := recordReply_cases run
  · exact h
  · unfold recorded at run
    split at run
    · cases run
      exact (halted _ _ _).2
    · next hsave =>
      have h₁ := (writes_saveBallot hsave).stopped.trans h
      simp only at run
      split at run
      · obtain ⟨m₂, happ, run⟩ := bind_eq_ok.1 run
        cases run
        exact stopped_finish (stopped_applyOrHalt happ h₁)
      · cases run
        exact stopped_finish h₁

theorem stopped_recordBeat {now : Instant} {peer : NodeId} {through : Nat} {reply : Message}
    (run : m.recordBeat now peer through reply = .ok m') (h : m.stopped = true) :
    m'.stopped = true := by
  obtain ⟨m₁, _, hrecord, hbegins⟩ := recordBeat_cases run
  exact (gist_eq_iff.1 hbegins.gist).2.trans (stopped_recordReply hrecord h)

theorem stopped_propose {now : Instant} {command : Command} {ticket : Nat}
    {result : Except ServiceError Nat} (run : m.propose now command ticket = .ok (m', result))
    (h : m.stopped = true) : m'.stopped = true := by
  unfold propose at run
  obtain ⟨proposed, -, run⟩ := bind_eq_ok.1 run
  cases proposed with
  | none =>
    cases run
    exact h
  | some p =>
    obtain ⟨r, e⟩ := p
    simp only at run
    split at run
    · next hw =>
      cases run
      exact (writes_write hw).stopped.trans h
    · next m₁ hw =>
      obtain ⟨⟨r', advanced⟩, -, run⟩ := bind_eq_ok.1 run
      have hw' := (writes_write hw).stopped.trans h
      have hawait := gist_await { m₁ with replica := r } e.index ⟨e.term, ticket⟩
      have h₁ := (gist_eq_iff.1 hawait).2.trans hw'
      simp only at run
      split at run
      · obtain ⟨m₂, happ, run⟩ := bind_eq_ok.1 run
        cases run
        exact stopped_finish (stopped_applyOrHalt happ h₁)
      · cases run
        exact stopped_finish h₁

end Member

/-! ## What is still answered -/

/-- What a section does when the member had stopped before, as far as its peers can tell. It answers
no append request. A vote that it gives is on the disk. An image that it confirms is on the disk
too, or it is of an earlier term, or the member counts what it covers as committed.

What clients are told is left open. A proposal that was let in before still has its section, which
appends, counts and executes as at any other member, since only the end of an append request looks
at `stopped` again; then its caller sees both the stop and the result, and may return either. The
section is an `Act` like any other, so where no write fails a result that is returned is worth what
`acknowledgement_soundness` says. -/
structure Deed.Late (m : Member MemoryDisk) (d : Deed) : Prop where
  stopped : d.member.stopped = true
  appends : ∀ r term success, (r, .appendReply term success) ∉ d.replies
  votes : ∀ r term, (r, .voteReply term true) ∈ d.replies → ∃ q, r.body = .voteRequest q ∧
    d.member.disk.contents.ballot = ⟨term, some q.candidate⟩
  images : ∀ r term, (r, .installReply term) ∈ d.replies → ∃ q, r.body = .installRequest q ∧
    (q.term < m.replica.term ∨ q.lastIndex ≤ m.replica.commitIndex ∨
      ∃ now, d.member.disk.contents.image = some ⟨q.entries, q.lastIndex, q.lastTerm, now⟩)

/-- A section that answers nothing. -/
theorem Deed.Late.of_stopped {m : Member MemoryDisk} {d : Deed} (h : d.member.stopped = true)
    (hr : d.replies = []) : d.Late m where
  stopped := h
  appends _ _ _ hmem := by
    rw [hr] at hmem
    cases hmem
  votes _ _ hmem := by
    rw [hr] at hmem
    cases hmem
  images _ _ hmem := by
    rw [hr] at hmem
    cases hmem

/-- **What a stopped member still answers.** Take any run from empty disks, whatever writes fail in
it and whatever is under way when a member stops, and any section of a member that has stopped. The
member stays stopped, and what it answers is on its disk, but for images that it does not take. -/
theorem stopped_answers {c : Conditions} {w : World} (h : Reachable c w) {v : NodeId}
    {m : Member MemoryDisk} (up : w.sites v = .up m) (stopped : m.stopped = true) {d : Deed}
    (act : Act c w v m d) : d.Late m := by
  obtain ⟨P, -, he⟩ := (Elections.initial c).roughRun h.rough
  have hsworn := (he.sworn v m up).1
  cases act with
  | shutDown => exact .of_stopped (Member.stopped_shutDown m) rfl
  | timeout run => exact .of_stopped (Member.stopped_campaign run stopped) rfl
  | answerVote sent here body run =>
    refine ⟨Member.stopped_answerVote run stopped, fun r' term success hmem => ?_,
      fun r' term hmem => ?_, fun r' term hmem => ?_⟩ <;>
      obtain ⟨rfl, hreply⟩ := Elections.mem_answer.1 hmem
    · obtain ⟨_, _, heq⟩ := Member.voteReply_of_answerVote run hreply
      cases heq
    · exact ⟨_, body, (hsworn.answerVote run).2 term hreply⟩
    · obtain ⟨_, _, heq⟩ := Member.voteReply_of_answerVote run hreply
      cases heq
  | answerAppend sent here body run =>
    obtain ⟨hstopped, e, rfl⟩ := Member.stopped_answerAppend run stopped
    exact .of_stopped hstopped rfl
  | @answerInstall r q now m' reply sent here body run =>
    obtain ⟨hstopped, hanswer⟩ := Member.stopped_answerInstall run stopped hsworn.stored
    refine ⟨hstopped, fun r' term success hmem => ?_, fun r' term hmem => ?_,
      fun r' term hmem => ?_⟩ <;>
      obtain ⟨rfl, hreply⟩ := Elections.mem_answer.1 hmem
    · obtain ⟨⟨_, heq⟩, -⟩ := hanswer _ hreply
      cases heq
    · obtain ⟨⟨_, heq⟩, -⟩ := hanswer _ hreply
      cases heq
    · exact ⟨q, body, (hanswer _ hreply).2.imp_right (Or.imp_right fun h => ⟨now, h⟩)⟩
  | countVote replied here body run => exact .of_stopped (Member.stopped_countVote run stopped) rfl
  | recordReply replied here covered run =>
    exact .of_stopped (Member.stopped_recordReply run stopped) rfl
  | recordBeat replied here covered run =>
    exact .of_stopped (Member.stopped_recordBeat run stopped) rfl
  | propose admitted fresh run => exact .of_stopped (Member.stopped_propose run stopped) rfl
  | fetch known run => exact .of_stopped stopped rfl
  | beat run =>
    have hg := (Member.begins_heartbeats m).gist
    rw [run] at hg
    exact .of_stopped ((Member.gist_eq_iff.1 hg).2.trans stopped) rfl
  | caughtUp => exact .of_stopped stopped rfl
  | @giveUp index =>
    exact .of_stopped ((Member.gist_eq_iff.1 (Member.gist_dropWaiter m index)).2.trans stopped) rfl
  | compact run => exact .of_stopped (Member.stopped_takeImage run stopped) rfl

/-! ## An image that cannot be written

Node 1 leads three nodes. It has compacted its log when it turns to node 3, whose disk takes no
image. -/

namespace Trio

/-- The disk of node 3 takes no image. -/
def refuses : NodeId → Nat → DiskWrite → Bool
  | 3, _, .image _ => true
  | _, _, _ => false

def conditions : Conditions where
  members := [1, 2, 3]
  distinct := by decide
  admits := Command.Valued
  fails := refuses

def peers : NodeId → List NodeId
  | 1 => [2, 3]
  | 2 => [1, 3]
  | _ => [1, 2]

def member (v : NodeId) (r : Replica) (contents : DiskContents) (tried : Nat) :
    Member MemoryDisk :=
  { Duo.member r contents tried with
    disk := { contents := contents, tried := tried, fails := refuses v } }

def blank (v : NodeId) : Replica := .create v (peers v ++ [v]) (Duo.config v)

def started (v : NodeId) : Member MemoryDisk := member v (blank v) {} 1

/-- A node that votes for node 1 in term 1. -/
def voting (v : NodeId) : Replica := { blank v with term := 1, vote := some 1 }

def candidate : Member MemoryDisk :=
  member 1 { voting 1 with role := .candidate, votes := [1] } { ballot := ⟨1, some 1⟩ } 2

def voter : Member MemoryDisk := member 2 (voting 2) { ballot := ⟨1, some 1⟩ } 2

/-- Node 1 as the leader, when node 2 holds so many of its entries. -/
def leading (held : Nat) : Replica :=
  { voting 1 with
    role := .leader
    leader := some 1
    next := .ofList [(2, held + 1), (3, 1)]
    matched := .ofList [(2, held), (3, 0)] }

def leader : Member MemoryDisk := member 1 (leading 0) { ballot := ⟨1, some 1⟩ } 2

/-- Node 1 waiting for its peers. -/
def proposer : Member MemoryDisk :=
  { member 1 { leading 0 with log := [Duo.entry] }
      { ballot := ⟨1, some 1⟩, log := [Duo.entry] } 3 with
    pending := .ofList [(1, ⟨1, 7⟩)] }

/-- Node 2 holding the entry. -/
def holder : Member MemoryDisk :=
  member 2 { voting 2 with leader := some 1, log := [Duo.entry] }
    { ballot := ⟨1, some 1⟩, log := [Duo.entry] } 3

/-- Node 1 when it has compacted its log. -/
def compacted : Member MemoryDisk :=
  { member 1 { leading 1 with
      snapshotIndex := 1, snapshotTerm := 1, commitIndex := 1, lastApplied := 1 }
      { ballot := ⟨1, some 1⟩, commit := 1, image := some Duo.image } 6 with
    machine := .ofList [("k", "v")]
    image := some Duo.image }

def install : InstallRequest := ⟨1, 1, 1, 1, [Duo.entry]⟩

/-- The request with which node 1 ships its image to node 3. -/
def shipped : Request := ⟨1, 3, .installRequest install⟩

/-- Node 3 when it has halted: it counts the entry as committed, and its disk has nothing of it. -/
def halted : Member MemoryDisk :=
  { member 3 { blank 3 with
      term := 1, leader := some 1, snapshotIndex := 1, snapshotTerm := 1, commitIndex := 1
      lastApplied := 1 } { ballot := ⟨1, none⟩ } 3 with
    stopped := true }

/-- Node 1 is elected by node 2. -/
theorem exists_leader : ∃ w, Reachable conditions w ∧ w.sites 1 = .up leader ∧
    w.sites 2 = .up voter ∧ w.sites 3 = .up (started 3) ∧ w.calls = fun _ => none := by
  have hstart : ∀ v ∈ [1, 2, 3], Member.start ⟨v, peers v, Duo.config v⟩ { fails := refuses v }
      (.ofMillis 0) = .ok (.ok (started v)) := by
    simp only [List.forall_mem_cons, List.not_mem_nil, false_implies, implies_true, and_true]
    exact ⟨rfl, rfl, rfl⟩
  have hask : (started 1).campaign = .ok (candidate, some ⟨1, 1, 0, 0⟩) := rfl
  have hvote : (started 2).answerVote ⟨1, 1, 0, 0⟩ =
      ({ voter with outbox := [.resetElectionTimer] }, .ok (.voteReply 1 true)) := rfl
  have hcount : candidate.countVote 1 2 1 true =
      .ok ({ leader with outbox := [.startHeartbeat] }, false) := rfl
  have h₁ : Reachable conditions _ := .single ⟨1, .start rfl (.refl _) (hstart 1 (by decide))⟩
  have h₂ := h₁.tail ⟨2, .start rfl (.swap ..) (hstart 2 (by decide))⟩
  have h₃ := h₂.tail ⟨3, .start rfl (by decide) (hstart 3 (by decide))⟩
  have h₄ := h₃.tail ⟨1, .act rfl (.timeout hask)⟩
  have h₅ := h₄.tail ⟨2, .act rfl (.answerVote (.head _) rfl rfl hvote)⟩
  have h₆ := h₅.tail ⟨1, .act rfl (.countVote (.head _) rfl rfl hcount)⟩
  exact ⟨_, h₆, rfl, rfl, rfl, rfl⟩

theorem proposes : leader.propose (.ofMillis 0) Duo.entry.command 7 = .ok (proposer, .ok 1) := by
  cbv

/-- Node 1 commits an entry with node 2, and compacts its log. -/
theorem exists_compacted : ∃ w, Reachable conditions w ∧ w.sites 1 = .up compacted ∧
    w.sites 3 = .up (started 3) := by
  obtain ⟨w, h, hleader, hvoter, hlate, hcalls⟩ := exists_leader
  have hfetch : proposer.nextRequest 2 1 = .ok (.ok (some (.appendRequest Duo.append))) := rfl
  have happend : voter.answerAppend (.ofMillis 0) Duo.append =
      .ok ({ holder with outbox := [.resetElectionTimer] }, .ok (.appendReply 1 true)) := rfl
  have hrecord : proposer.recordReply (.ofMillis 0) 2 1 (.appendReply 1 true) =
      .ok ({ compacted with outbox := [.settle 7 (.ok .done)] }, true) := by
    cbv
  have h₁ := h.tail ⟨1, .act hleader (.propose (fun _ => rfl) (congrFun hcalls 7) proposes)⟩
  have h₂ := h₁.tail ⟨1, .act rfl (.fetch (.head _) hfetch)⟩
  have h₃ := h₂.tail ⟨2, .act hvoter (.answerAppend
    (List.mem_append_right _ (.head _)) rfl rfl happend)⟩
  have h₄ := h₃.tail ⟨1, .act rfl (.recordReply
    (List.mem_append_right _ (.head _)) rfl rfl hrecord)⟩
  exact ⟨_, h₄, rfl, hlate⟩

/-- Node 1 ships its image to node 3, which halts. -/
theorem exists_halted : ∃ w w', Reachable conditions w ∧ shipped ∈ w.requests ∧
    w.sites 3 = .up (started 3) ∧ Step conditions 3 w w' ∧ w'.sites 3 = .up halted ∧
    shipped ∈ w'.requests := by
  obtain ⟨w, h, hleader, hlate⟩ := exists_compacted
  have hship : compacted.nextRequest 3 1 = .ok (.ok (some (.installRequest install))) := rfl
  have hrefuse : (started 3).answerInstall (.ofMillis 0) install =
      .ok ({ halted with outbox := [.resetElectionTimer] }, .error (.storage .diskFull)) := rfl
  have h₁ := h.tail ⟨1, .act hleader (.fetch (.tail _ (.head _)) hship)⟩
  have hsent : shipped ∈ (w.after 1 { member := compacted, requests := [shipped] }).requests :=
    List.mem_append_right _ (.head _)
  exact ⟨_, _, h₁, hsent, hlate, .act hlate (.answerInstall hsent rfl rfl hrefuse), rfl,
    List.mem_append_left _ hsent⟩

/-- The section of the second request. -/
def confirmation : Deed where
  member := { halted with outbox := [.resetElectionTimer] }
  replies := [(shipped, .installReply 1)]

theorem confirms {w : World} (sent : shipped ∈ w.requests) :
    Act conditions w 3 halted confirmation :=
  .answerInstall sent rfl rfl
    (show halted.answerInstall (.ofMillis 0) install = _ from rfl)

end Trio

/-- Node 3 of `Trio` still answers the second request, for an entry that it counts as committed. -/
theorem stopped_answers_trio : ∃ w, Reachable Trio.conditions w ∧
    w.sites 3 = .up Trio.halted ∧ Trio.halted.stopped = true ∧
    Act Trio.conditions w 3 Trio.halted Trio.confirmation ∧
    Trio.halted.replica.commitIndex = 1 ∧ Trio.confirmation.Late Trio.halted := by
  obtain ⟨w, w', h, -, -, hstep, up, sent⟩ := Trio.exists_halted
  have h' : Reachable Trio.conditions w' := h.tail ⟨3, hstep⟩
  have act := Trio.confirms sent
  exact ⟨w', h', up, rfl, act, rfl, stopped_answers h' up rfl act⟩

/-- **An unwritten image is confirmed.** Node 1 of `Trio` ships its image to node 3, by two requests
that are both let in. Node 3 cannot write the image for the first and halts. Then it answers the
second, with nothing of the image on its disk. -/
theorem unwritten_image_confirmed : ∃ w w', Reachable Trio.conditions w ∧
    Trio.shipped ∈ w.requests ∧ w.sites 3 = .up (Trio.started 3) ∧
    (Trio.started 3).stopped = false ∧ Step Trio.conditions 3 w w' ∧
    w'.sites 3 = .up Trio.halted ∧ Trio.halted.stopped = true ∧
    Act Trio.conditions w' 3 Trio.halted Trio.confirmation ∧
    (Trio.shipped, .installReply 1) ∈ Trio.confirmation.replies ∧
    Trio.confirmation.member.disk.contents.image = none ∧
    Trio.confirmation.member.disk.contents.log = [] := by
  obtain ⟨w, w', h, sent, up, hstep, up', sent'⟩ := Trio.exists_halted
  exact ⟨w, w', h, sent, up, rfl, hstep, up', rfl, Trio.confirms sent', .head _, rfl, rfl⟩

end ReplicatedStore
