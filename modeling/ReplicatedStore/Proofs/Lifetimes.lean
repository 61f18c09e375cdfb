import ReplicatedStore.Proofs.ReplicaRuns
/-!
# The life of a replica

A replica is asked in any order and by anybody, and still some of its fields go one way only: its
ballot, and the three positions up to which its log is committed, applied and compacted
(`Replica.Precedes`). No call takes one of them back (`Regular.precedes`), so no run does
(`Reached.precedes_runAll`).

Only for an image this takes more than the guard of the call. An image moves all three positions to
where it ends, but that is compared with the committed one alone. The other two are below that one
in every replica that can be reached (`Replica.Regular`).

As its ballot never goes back, a replica votes for one candidate a term (`one_vote_a_term`).
-/
namespace ReplicatedStore

namespace Replica

variable {id : NodeId} {members : List NodeId} {config : Config}
variable {Allowed : Replica → Call → Prop} {r r' r'' : Replica}

/-- A replica may go from the first state to the second. -/
structure Precedes (r r' : Replica) : Prop where
  ballot : r.ballot.Precedes r'.ballot
  committed : r.commitIndex ≤ r'.commitIndex
  applied : r.lastApplied ≤ r'.lastApplied
  base : r.snapshotIndex ≤ r'.snapshotIndex

namespace Precedes

theorem refl (r : Replica) : r.Precedes r :=
  ⟨.refl _, Nat.le_refl _, Nat.le_refl _, Nat.le_refl _⟩

theorem trans (h : r.Precedes r') (h' : r'.Precedes r'') : r.Precedes r'' where
  ballot := h.ballot.trans h'.ballot
  committed := h.committed.trans h'.committed
  applied := h.applied.trans h'.applied
  base := h.base.trans h'.base

/-- The log is left alone. -/
theorem of_sameLog (hs : SameLog r r') (ballot : r.ballot.Precedes r'.ballot) : r.Precedes r' where
  ballot := ballot
  committed := hs.commit.ge
  applied := hs.applied.ge
  base := hs.base.ge

/-- Another vote is the first one, or one of a later term. -/
theorem vote (h : r.Precedes r') : r'.vote = r.vote ∨ r.vote = none ∨ r.term < r'.term := by
  rcases h.ballot with hlater | ⟨-, hnone | hsame⟩
  · exact .inr (.inr hlater)
  · exact .inr (.inl hnone)
  · exact .inl hsame.symm

end Precedes

/-! ## Votes -/

/-- What a replica answers to a vote request, as it is sent. -/
def voteReply (r : Replica) (q : VoteRequest) : Message :=
  .voteReply (r.answerVote q).1.term (r.answerVote q).2

/-- A member sends no other answer. -/
theorem eq_voteReply_of_answerVote {δ : Type} [Disk δ] {m : Member δ} {q : VoteRequest}
    {reply : Message} (h : (m.answerVote q).2 = .ok reply) : reply = m.replica.voteReply q := by
  unfold Member.answerVote at h
  simp only at h
  split at h
  · cases h
  · exact (Except.ok.inj h).symm

/-- Whoever asks, a vote is added to a ballot without one, or given again. If it is given, it is in
the ballot, in the term of the request. -/
theorem ballot_answerVote (r : Replica) (q : VoteRequest) :
    r.ballot.Precedes (r.answerVote q).1.ballot ∧
      ((r.answerVote q).2 = true → (r.answerVote q).1.ballot = ⟨q.term, some q.candidate⟩) := by
  obtain ⟨⟨r', granted⟩, h⟩ : ∃ p, r.answerVote q = p := ⟨_, rfl⟩
  rw [h]
  unfold answerVote at h
  split at h
  · cases h
    exact ⟨.refl _, nofun⟩
  · obtain ⟨r₁, hr₁⟩ : ∃ r₁, r₁ = if r.term < q.term then r.follow q.term else r := ⟨_, rfl⟩
    have hbefore : r.ballot.Precedes r₁.ballot ∧ r₁.term = q.term := by
      rw [hr₁]
      split
      · exact ⟨(heeds_follow r q.term).ballot, by rw [term_follow]; omega⟩
      · exact ⟨.refl _, by omega⟩
    obtain ⟨hbefore, hterm⟩ := hbefore
    simp only [← hr₁] at h
    split at h
    · next hfree =>
      cases h
      refine ⟨hbefore.trans (.inr ⟨rfl, ?_⟩), fun _ => by rw [← hterm]; rfl⟩
      rw [Bool.and_eq_true] at hfree
      cases hvote : r₁.vote with
      | none => exact .inl hvote
      | some u => simp_all [ballot]
    · cases h
      exact ⟨hbefore, nofun⟩

/-! ## Calls -/

/-- An append request moves the commit index up, and nothing else. -/
theorem precedes_takeEntries {q : AppendRequest} {o : AppendOutcome}
    (run : r.takeEntries q = .ok (r', o)) : r.Precedes r' := by
  have hballot := (heeds_takeEntries run).ballot
  have hs := sameLog_accept r q.term q.leader
  obtain rfl | ⟨log, commit, rfl, hcommit, -⟩ := exists_takeEntries run
  · exact .refl _
  · exact ⟨hballot, hcommit, hs.applied.ge, hs.base.ge⟩

theorem precedes_advanceCommit {advanced : Bool} (run : r.advanceCommit = .ok (r', advanced)) :
    r.Precedes r' := by
  rcases advanceCommit_spec run with ⟨rfl, -⟩ | ⟨-, -, i, -, hlt, -, rfl⟩
  · exact .refl _
  · exact ⟨.refl _, Nat.le_of_lt hlt, Nat.le_refl _, Nat.le_refl _⟩

theorem precedes_recordAppend {term lastSent : Nat} {success advanced : Bool} {sender : NodeId}
    (run : r.recordAppend term success sender lastSent = .ok (r', advanced)) : r.Precedes r' := by
  have hballot := (heeds_recordAppend run).ballot
  have hanswered := sameLog_answered r success sender lastSent
  rcases recordAppend_spec run with ⟨-, rfl, -⟩ | ⟨rfl, -⟩ | ⟨-, -, ⟨-, hadv⟩ | ⟨-, rfl, -⟩⟩
  · exact .of_sameLog (sameLog_follow r term) hballot
  · exact .refl _
  · have hadvance := precedes_advanceCommit hadv
    exact ⟨hballot, hanswered.commit ▸ hadvance.committed, hanswered.applied ▸ hadvance.applied,
      hanswered.base ▸ hadvance.base⟩
  · exact .of_sameLog hanswered hballot

namespace Regular

/-- An image that is not ignored ends above what is committed, so above everything. -/
theorem precedes_takeImage (h : r.Regular) {term lastIndex lastTerm : Nat} {leader : NodeId}
    {o : InstallOutcome} (run : r.takeImage term leader lastIndex lastTerm = .ok (r', o)) :
    r.Precedes r' := by
  have hballot := (heeds_takeImage run).ballot
  have hs := sameLog_accept r term leader
  rcases Member.takeImage_cases run with ⟨-, rfl, -⟩ | ⟨-, -, rfl, -⟩ | ⟨-, hnew, hre, -⟩
  · exact .refl _
  · exact .of_sameLog hs hballot
  · have happlied := h.applied
    have hcommitted := h.committed
    obtain ⟨log, rfl⟩ := exists_rebase hre
    refine ⟨hballot, ?_, ?_, ?_⟩ <;> simp only <;> omega

theorem precedes_compact (h : r.Regular) {through : Nat} {removed : List Entry}
    (run : r.compact through = .ok (r', removed)) : r.Precedes r' := by
  obtain ⟨-, rfl⟩ | ⟨-, n, -, -, -, rfl⟩ := h.sourced.compact_cases run
  · exact .refl _
  · exact ⟨.refl _, Nat.le_refl _, Nat.le_refl _, Nat.le_add_right _ _⟩

/-- **No call takes anything back.** -/
theorem precedes (h : r.Regular) {c : Call} (run : r.run c = .ok r') : r.Precedes r' := by
  cases ran_of_run run with
  | campaign hcampaign =>
    obtain ⟨-, -, hballot, -⟩ := campaign_spec hcampaign
    exact .of_sameLog (sameLog_campaign hcampaign) (hballot ▸ .inl (Nat.lt_succ_self _))
  | lead hlead =>
    have hs := SameLog.lead hlead
    obtain ⟨next, matched, rfl⟩ := lead_spec hlead
    exact .of_sameLog hs (.refl _)
  | follow term => exact .of_sameLog (sameLog_follow r term) (heeds_follow r term).ballot
  | answerVote q => exact .of_sameLog (sameLog_answerVote rfl) (ballot_answerVote r q).1
  | countVote hcount =>
    refine .of_sameLog (sameLog_countVote hcount) ?_
    rcases countVote_spec hcount with hheeds | ⟨-, -, -, -, -, hballot, -⟩
    · exact hheeds.ballot
    · exact hballot ▸ .refl _
  | proposed hpropose =>
    obtain ⟨-, -, -, -, rfl⟩ := h.sourced.propose hpropose
    exact ⟨.refl _, Nat.le_refl _, Nat.le_refl _, Nat.le_refl _⟩
  | declined | appendRequest | heartbeat | installRequest => exact .refl _
  | takeEntries htake => exact precedes_takeEntries htake
  | recordAppend hrecord => exact precedes_recordAppend hrecord
  | takeImage htake => exact h.precedes_takeImage htake
  | recordInstall hrecord => exact precedes_recordAppend hrecord
  | takeCommitted => exact ⟨.refl _, Nat.le_refl _, Nat.le_max_left _ _, Nat.le_refl _⟩
  | compact hcompact => exact h.precedes_compact hcompact
  | advanceCommit hadvance => exact precedes_advanceCommit hadvance

end Regular

/-- **No run takes anything back.** -/
theorem Reached.precedes_runAll {cs : List Call} (h : Reached id members config Allowed r)
    (hallowed : ∀ c ∈ cs, ∀ r, Allowed r c) (run : r.runAll cs = .ok r') : r.Precedes r' := by
  induction cs generalizing r with
  | nil =>
    cases run
    exact .refl _
  | cons c cs ih =>
    rw [Replica.runAll, List.foldlM_cons] at run
    obtain ⟨r₁, hc, run⟩ := bind_eq_ok.1 run
    have hstep : Reached id members config Allowed r₁ :=
      .call h (hallowed c List.mem_cons_self r) hc
    exact (h.regular.precedes hc).trans
      (ih hstep (fun c' hc' => hallowed c' (List.mem_cons_of_mem _ hc')) run)

/-- **A replica votes for one candidate a term**, whatever it is asked between two requests. -/
theorem one_vote_a_term {q q' : VoteRequest} {cs : List Call}
    (h : Reached id members config (fun _ _ => True) r) (granted : (r.answerVote q).2 = true)
    (run : (r.answerVote q).1.runAll cs = .ok r') (granted' : (r'.answerVote q').2 = true)
    (term : q'.term = q.term) : q'.candidate = q.candidate := by
  obtain ⟨-, hfirst⟩ := ballot_answerVote r q
  obtain ⟨hprecedes, hsecond⟩ := ballot_answerVote r' q'
  have hvoted : Reached id members config (fun _ _ => True) (r.answerVote q).1 :=
    .call (c := .answerVote q) h trivial rfl
  have hballot := (hvoted.precedes_runAll (fun _ _ _ => trivial) run).ballot.trans hprecedes
  rw [hfirst granted, hsecond granted', term] at hballot
  exact Option.some.inj hballot.eq_of_vote

/-- **Nothing goes back.** Whatever a replica was recovered from and asked since, no call lowers its
term or the positions up to which its log is committed, applied and compacted. Its vote changes only
where there was none or the term rises, and an answer that gives the vote carries the term of the
request and leaves the vote with its candidate. -/
theorem nothing_goes_back (h : Reached id members config (fun _ _ => True) r) {c : Call}
    (run : r.run c = .ok r') :
    r.term ≤ r'.term ∧ r.commitIndex ≤ r'.commitIndex ∧ r.lastApplied ≤ r'.lastApplied ∧
      r.snapshotIndex ≤ r'.snapshotIndex ∧
      (r'.vote = r.vote ∨ r.vote = none ∨ r.term < r'.term) ∧
      ∀ q term, c = .answerVote q → r.voteReply q = .voteReply term true →
        term = q.term ∧ r'.vote = some q.candidate := by
  have hprecedes := h.regular.precedes run
  refine ⟨hprecedes.ballot.term_le, hprecedes.committed, hprecedes.applied, hprecedes.base,
    hprecedes.vote, fun q term hc hreply => ?_⟩
  subst hc
  cases run
  obtain ⟨rfl, hgranted⟩ := Message.voteReply.inj hreply
  have hballot := (ballot_answerVote r q).2 hgranted
  exact ⟨congrArg Ballot.term hballot, congrArg Ballot.vote hballot⟩

/-- A member of three that has found an image of three entries on its disk, and a ballot without a
vote. -/
def rejoining : Replica := ((create 1 [1, 2, 3] {}).withBallot ⟨2, none⟩).restoreBase 3 2

/-- Another member asks it for its vote in the next term, and gets it. -/
theorem nothing_goes_back_rejoining : ∃ r',
    rejoining.run (.answerVote ⟨3, 2, 3, 2⟩) = .ok r' ∧
      rejoining.term ≤ r'.term ∧ rejoining.commitIndex ≤ r'.commitIndex ∧
      rejoining.lastApplied ≤ r'.lastApplied ∧ rejoining.snapshotIndex ≤ r'.snapshotIndex ∧
      (r'.vote = rejoining.vote ∨ rejoining.vote = none ∨ rejoining.term < r'.term) ∧
      rejoining.voteReply ⟨3, 2, 3, 2⟩ = .voteReply 3 true ∧ r'.vote = some 2 := by
  have hreached : Reached 1 [1, 2, 3] {} (fun _ _ => True) rejoining :=
    .recovered (.image 3 2 (by decide) (.ballot ⟨2, none⟩ .created))
  have hrun : rejoining.run (.answerVote ⟨3, 2, 3, 2⟩) =
      .ok { rejoining with term := 3, vote := some 2 } := rfl
  have hreply : rejoining.voteReply ⟨3, 2, 3, 2⟩ = .voteReply 3 true := rfl
  obtain ⟨hterm, hcommit, happlied, hbase, hvote, hgranted⟩ := nothing_goes_back hreached hrun
  exact ⟨_, hrun, hterm, hcommit, happlied, hbase, hvote, hreply, (hgranted _ 3 rfl hreply).2⟩

end Replica

end ReplicatedStore
