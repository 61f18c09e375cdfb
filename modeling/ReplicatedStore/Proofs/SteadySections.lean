import ReplicatedStore.Proofs.Leading
import ReplicatedStore.Proofs.Standing
import ReplicatedStore.Proofs.Steady
/-!
# Sections on reliable disks

What each section makes of a member that is steady with a history: which history it has then, and
what its replica is (`Member.Becomes`). The history changes in three sections only: a proposal adds
an entry, and a request from a leader makes the member adopt a prefix of the leader's history.

Whatever a section did to the replica, it ends in one of two ways: the ballot is written
(`Steady.saveBallot`), or what is committed is applied as well (`Holds.settle`).
-/
namespace ReplicatedStore

open History

namespace Replica

/-! ## The log in elections -/

theorem SameLog.lead {r r' : Replica} (h : r.lead = .ok r') : SameLog r r' := by
  obtain ⟨next, matched, rfl⟩ := lead_spec h
  exact ⟨rfl, rfl, rfl, rfl, rfl, rfl, rfl, rfl⟩

theorem sameLog_campaign {r r' : Replica} {q : VoteRequest} (h : r.campaign = .ok (r', q)) :
    SameLog r r' := by
  obtain ⟨r₀, rfl, ⟨rfl, -⟩ | ⟨-, hlead⟩, -⟩ := campaign_cases h
  · exact ⟨rfl, rfl, rfl, rfl, rfl, rfl, rfl, rfl⟩
  · have hl := SameLog.lead hlead
    exact ⟨hl.id, hl.members, hl.config, hl.log, hl.base, hl.baseTerm, hl.commit, hl.applied⟩

theorem sameLog_answerVote {r r' : Replica} {q : VoteRequest} {granted : Bool}
    (h : r.answerVote q = (r', granted)) : SameLog r r' := by
  rcases answerVote_cases h with ⟨-, rfl, -⟩ | ⟨-, ⟨vote, rfl⟩, -⟩
  · exact .refl r'
  · split
    · exact (sameLog_follow r q.term).trans ⟨rfl, rfl, rfl, rfl, rfl, rfl, rfl, rfl⟩
    · exact ⟨rfl, rfl, rfl, rfl, rfl, rfl, rfl, rfl⟩

theorem sameLog_countVote {r r' : Replica} {term : Nat} {granted won : Bool} {sender : NodeId}
    (h : r.countVote term granted sender = .ok (r', won)) : SameLog r r' := by
  rcases countVote_cases h with ⟨-, rfl⟩ | rfl | ⟨-, -, -, r₀, rfl, ⟨rfl, -⟩ | ⟨-, hlead⟩⟩
  · exact sameLog_follow r term
  · exact .refl r'
  · exact ⟨rfl, rfl, rfl, rfl, rfl, rfl, rfl, rfl⟩
  · have hl := SameLog.lead hlead
    exact ⟨hl.id, hl.members, hl.config, hl.log, hl.base, hl.baseTerm, hl.commit, hl.applied⟩

/-- Whoever accepts a leader follows in the leader's term. -/
theorem accept_spec {r : Replica} {term : Nat} (h : r.term ≤ term) (leader : NodeId) :
    (r.accept term leader).role = .follower ∧ (r.accept term leader).term = term := by
  unfold accept
  split
  · exact ⟨rfl, by simp only [term_follow]; omega⟩
  · next hcond =>
    simp only [not_or, Decidable.not_not] at hcond
    exact ⟨hcond.2, by simp only; omega⟩

/-- Everything but the standing and the commit index is the same, and that went no way back. -/
structure Advances (r r' : Replica) : Prop where
  same : SameLog r { r' with commitIndex := r.commitIndex }
  commit : r.commitIndex ≤ r'.commitIndex

theorem SameLog.advances {r r' : Replica} (h : SameLog r r') : Advances r r' :=
  ⟨⟨h.id, h.members, h.config, h.log, h.base, h.baseTerm, rfl, h.applied⟩,
    Nat.le_of_eq h.commit.symm⟩

theorem SameLog.trans_advances {r r' r'' : Replica} (h : SameLog r r') (h' : Advances r' r'') :
    Advances r r'' :=
  ⟨⟨h'.same.id.trans h.id, h'.same.members.trans h.members, h'.same.config.trans h.config,
    h'.same.log.trans h.log, h'.same.base.trans h.base, h'.same.baseTerm.trans h.baseTerm, rfl,
    h'.same.applied.trans h.applied⟩, h.commit ▸ h'.commit⟩

theorem sameLog_answered (r : Replica) (success : Bool) (sender : NodeId) (lastSent : Nat) :
    SameLog r (r.answered success sender lastSent) := by
  unfold answered
  split <;> exact ⟨rfl, rfl, rfl, rfl, rfl, rfl, rfl, rfl⟩

theorem stance_answered (r : Replica) (success : Bool) (sender : NodeId) (lastSent : Nat) :
    (r.answered success sender lastSent).stance = r.stance := by
  unfold answered
  split <;> rfl

end Replica

namespace Member

variable {m m' m₁ m₂ : Member MemoryDisk} {x y : History}

/-! ## The end of a section -/

/-- After a section the member has the history, and its replica is the given one but for what was
applied. -/
structure Becomes (m : Member MemoryDisk) (r : Replica) (m' : Member MemoryDisk) (x : History) :
    Prop where
  steady : m'.Steady x
  replica : Replica.SameButLog r m'.replica
  credits : Credits m m' x m'.replica.commitIndex

theorem Becomes.quiet {r : Replica} (h : Becomes m r m₁ x) (hq : m₁.Quiet m') :
    Becomes m r m' x := by
  refine ⟨h.steady.quiet hq, hq.replica ▸ h.replica, ?_⟩
  rw [hq.replica]
  exact h.credits.trans (hq.credits x _)

theorem Becomes.after {r : Replica} (h : Becomes m₁ r m' x)
    (hc : Credits m m₁ x m'.replica.commitIndex) : Becomes m r m' x :=
  ⟨h.steady, h.replica, hc.trans h.credits⟩

theorem Steady.becomes (h : m.Steady x) : Becomes m m.replica m x :=
  ⟨h, .refl _, .refl m x _⟩

/-- The log and the commit index move on, what is applied stays. -/
theorem Holds.move (h : m.Holds x) (hxy : x.take m.replica.commitIndex <+: y)
    (hr : m'.replica.Spans y) (hbase : m'.replica.snapshotIndex = m.replica.snapshotIndex)
    (happlied : m'.replica.lastApplied = m.replica.lastApplied)
    (hc : m.replica.commitIndex ≤ m'.replica.commitIndex)
    (hb : m'.replica.commitIndex ≤ y.length) (hm : m'.machine = m.machine)
    (hi : m'.image = m.image) (hlog : m'.disk.contents.log = m'.replica.log)
    (himage : m'.disk.contents.image = m.disk.contents.image)
    (hfails : m'.disk.fails = m.disk.fails) : m'.Holds y := by
  have happ : x.take m.replica.lastApplied <+: y :=
    (take_prefix_take h.committed).trans hxy
  have hlen : m.replica.lastApplied ≤ x.length := Nat.le_trans h.committed h.bounded
  constructor
  · exact hr
  · rw [hbase, happlied]; exact h.applied
  · rw [happlied]; exact Nat.le_trans h.committed hc
  · exact hb
  · have htake := take_of_isPrefix happ (Nat.le_of_eq (List.length_take_of_le hlen).symm)
    rw [List.take_take, Nat.min_self] at htake
    rw [hm, happlied, ← htake]
    exact h.machine
  · rw [hi, hbase]
    exact h.image.congr h.spans.base ((take_prefix_take h.applied).trans happ)
  · exact hlog
  · rw [himage, hi]; exact h.pictured
  · rw [hfails]; exact h.reliable

/-- The same history with another standing and commit index. -/
theorem Holds.advance (h : m.Holds x) {r : Replica} (hr : m.replica.Advances r)
    (hb : r.commitIndex ≤ x.length) :
    (show Member MemoryDisk from { m with replica := r }).Holds x :=
  h.move (List.take_prefix _ _) (h.spans.congr hr.same.log hr.same.base hr.same.baseTerm)
    hr.same.base hr.same.applied hr.commit hb rfl rfl (h.stored.trans hr.same.log.symm) rfl rfl

/-- The ballot is written and nothing else happens. -/
theorem saveBallot_calm {e : Option IoError} (run : m.saveBallot = (m', e))
    (hrel : ∀ n w, m.disk.fails n w = false) (hstored : m.disk.contents.ballot = m.saved) :
    e = none ∧ ∃ n, m' = { m with
      saved := m.replica.ballot
      disk := { m.disk with
        tried := n, contents := { m.disk.contents with ballot := m.replica.ballot } } } := by
  unfold saveBallot at run
  split at run
  · next heq =>
    cases run
    refine ⟨rfl, m.disk.tried, ?_⟩
    have hballot : m.replica.ballot = m.disk.contents.ballot := heq.trans hstored.symm
    cases m
    simp only at heq hballot ⊢
    subst heq
    rw [hballot]
  · split at run
    · next m₁ hw =>
      cases run
      obtain ⟨-, n, rfl⟩ := write_spec hw hrel
      exact ⟨rfl, n, rfl⟩
    · next m₁ err hw => cases (write_spec hw hrel).1

/-- What is committed is applied if that is more than before. A member that cannot stops. -/
theorem Holds.settle {β : Type} (h : m.Holds x) (hsaved : m.saved = m.replica.ballot)
    (hballot : m.disk.contents.ballot = m.replica.ballot) {advanced : Bool}
    (hidle : advanced = false → m.replica.lastApplied = m.replica.commitIndex ∧
      m.disk.contents.commit = m.replica.commitIndex)
    {now : Instant} {f : Member MemoryDisk → Except Fault β} {b : β}
    (run : (if advanced then m.applyOrHalt now >>= f else f m) = .ok b) :
    ∃ m₁, Becomes m m.replica m₁ x ∧ f m₁ = .ok b := by
  split at run
  · obtain ⟨m₁, hm₁, run⟩ := bind_eq_ok.1 run
    refine ⟨m₁, ?_, run⟩
    unfold applyOrHalt at hm₁
    obtain ⟨⟨m₂, e⟩, hm₂, hm₁⟩ := bind_eq_ok.1 hm₁
    obtain ⟨hholds, happ, hsettled, hcommit⟩ := h.applyCommitted hm₂
    have hsame : m₂.replica.ballot = m.replica.ballot := happ.replica.ballot
    have hbecomes : Becomes m m.replica m₂ x := by
      refine ⟨⟨hholds, hsettled, hcommit, ?_, ?_⟩, happ.replica, ?_⟩
      · rw [happ.ballot, hballot, hsame]
      · rw [happ.saved, hsaved, hsame]
      · rw [happ.replica.commit]
        exact happ.credits
    cases e with
    | none =>
      cases hm₁
      exact hbecomes
    | some e =>
      cases hm₁
      exact hbecomes.quiet (quiet_halt m₂ .applyEntries e)
  · next hfalse =>
    obtain ⟨hsettled, hcommit⟩ := hidle (Bool.not_eq_true _ ▸ hfalse)
    exact ⟨m, (Steady.mk h hsettled hcommit hballot hsaved).becomes, run⟩

/-! ## Elections -/

/-- The ballot of a replica with the same log is on disk. -/
theorem Steady.rebind (h : m.Steady x) {r : Replica} (hr : Replica.SameLog m.replica r)
    (hcore : m₁.core = core { m with replica := r }) (n : Nat) :
    Steady { m₁ with
      saved := r.ballot
      disk := { m₁.disk with
        tried := n, contents := { m₁.disk.contents with ballot := r.ballot } } } x := by
  obtain ⟨hr₁, hd₁, hm₁, hi₁, -⟩ := core_eq_iff.1 hcore
  have hcommit : r.commitIndex ≤ x.length := Nat.le_trans (Nat.le_of_eq hr.commit) h.bounded
  refine ⟨?_, ?_, ?_, ?_, ?_⟩
  · refine h.toHolds.move (List.take_prefix _ _) ?_ ?_ ?_ ?_ ?_ hm₁ hi₁ ?_ ?_ ?_ <;>
      simp only [hr₁, hd₁]
    · exact h.spans.of_sameLog hr
    · exact hr.base
    · exact hr.applied
    · exact Nat.le_of_eq hr.commit.symm
    · exact hcommit
    · exact h.stored.trans hr.log.symm
  · simp only [hr₁]
    exact hr.applied.trans (h.settled.trans hr.commit.symm)
  · simp only [hr₁, hd₁]
    exact h.commit.trans hr.commit.symm
  · simp only [hr₁]
  · simp only [hr₁]

/-- A section that touches the standing only. -/
theorem Steady.saveBallot (h : m.Steady x) {r : Replica} (hr : Replica.SameLog m.replica r)
    {e : Option IoError} (run : Member.saveBallot { m with replica := r } = (m', e)) :
    e = none ∧ Becomes m r m' x := by
  obtain ⟨rfl, n, rfl⟩ := saveBallot_calm run h.reliable (h.ballot.trans h.saved.symm)
  exact ⟨rfl, h.rebind hr rfl n, .refl r, .of_eq rfl rfl⟩

theorem Steady.campaign (h : m.Steady x) {q : Option VoteRequest}
    (run : m.campaign = .ok (m', q)) :
    (m' = m ∧ q = none) ∨
      ∃ r request, m.replica.campaign = .ok (r, request) ∧ Becomes m r m' x ∧
        ∀ q', q = some q' → q' = request := by
  unfold Member.campaign at run
  split at run
  · cases run
    exact .inl ⟨rfl, rfl⟩
  · obtain ⟨⟨r, request⟩, hr, run⟩ := bind_eq_ok.1 run
    refine .inr ⟨r, request, hr, ?_⟩
    have hsame := Replica.sameLog_campaign hr
    simp only at run
    split at run
    · next m₁ err hsave => cases (h.saveBallot hsame hsave).1
    · next m₁ hsave =>
      cases run
      refine ⟨(h.saveBallot hsame hsave).2.quiet (quiet_finish m₁), fun q' hq' => ?_⟩
      split at hq'
      · cases hq'
      · exact (Option.some.inj hq').symm

theorem Steady.answerVote (h : m.Steady x) {q : VoteRequest} {reply : Except ServiceError Message}
    (run : m.answerVote q = (m', reply)) :
    ∃ r granted, m.replica.answerVote q = (r, granted) ∧ Becomes m r m' x ∧
      reply = .ok (.voteReply r.term granted) := by
  unfold Member.answerVote at run
  cases hr : m.replica.answerVote q with
  | mk r granted =>
    have hsame := Replica.sameLog_answerVote hr
    refine ⟨r, granted, rfl, ?_⟩
    simp only [hr] at run
    split at run
    · next m₁ err hsave => cases (h.saveBallot hsame hsave).1
    · next m₁ hsave =>
      cases run
      refine ⟨(h.saveBallot hsame hsave).2.quiet ?_, rfl⟩
      split
      · exact (quiet_finish m₁).emit .resetElectionTimer nofun
      · exact quiet_finish m₁

theorem Steady.countVote (h : m.Steady x) {campaign term : Nat} {peer : NodeId}
    {granted more : Bool} (run : m.countVote campaign peer term granted = .ok (m', more)) :
    ∃ r won, m.replica.countVote term granted peer = .ok (r, won) ∧ Becomes m r m' x := by
  unfold Member.countVote at run
  obtain ⟨⟨r, won⟩, hr, hrun⟩ := bind_eq_ok.1 run
  clear run
  have hsame := Replica.sameLog_countVote hr
  refine ⟨r, won, hr, ?_⟩
  simp only at hrun
  split at hrun
  · next m₁ err hsave => cases (h.saveBallot hsame hsave).1
  · next m₁ hsave =>
    cases hrun
    exact (h.saveBallot hsame hsave).2.quiet (quiet_finish m₁)

/-! ## Leading -/

theorem Steady.recorded (h : m.Steady x) {r : Replica} {now : Instant}
    {advanced accepted more : Bool} (hr : m.replica.Advances r) (hb : r.commitIndex ≤ x.length)
    (hidle : advanced = false → r.commitIndex = m.replica.commitIndex)
    (run : m.recorded now r advanced accepted = .ok (m', more)) : Becomes m r m' x := by
  have hballot : m.disk.contents.ballot = m.saved := h.ballot.trans h.saved.symm
  have hholds := h.toHolds.advance hr hb
  unfold Member.recorded at run
  split at run
  · next m₁ err hsave => cases (saveBallot_calm hsave h.reliable hballot).1
  · next m₁ hsave =>
    obtain ⟨-, n, rfl⟩ := saveBallot_calm hsave h.reliable hballot
    have hholds' : Holds { m with
        replica := r
        saved := r.ballot
        disk := { m.disk with
          tried := n, contents := { m.disk.contents with ballot := r.ballot } } } x :=
      hholds.move (List.take_prefix _ _) hholds.spans rfl rfl (Nat.le_refl _) hb rfl rfl
        hholds.stored rfl rfl
    obtain ⟨m₂, hm₂, run⟩ := hholds'.settle rfl rfl (fun hfalse =>
      ⟨hr.same.applied.trans (h.settled.trans (hidle hfalse).symm),
        h.commit.trans (hidle hfalse).symm⟩) run
    cases run
    refine Becomes.quiet (r := r) ?_ (quiet_finish m₂)
    exact hm₂.after (.of_eq rfl rfl)

/-- One more proposal waits, and the one that waited there is told that it was dropped. -/
theorem credits_await (m : Member MemoryDisk) (index : Nat) (w : Waiter) (x : History) (n : Nat) :
    Credits { m with pending := m.pending.insert index w } (m.await index w) x n := by
  have hq := quiet_dropWaiter m index
  refine ⟨fun i w' hw => ?_, fun e he => (hq.outbox e he).imp_right fun hm => hm.earned _ x n⟩
  simp only [await, Table.get?_insert] at hw ⊢
  split
  · next heq => rwa [if_pos heq] at hw
  · next hne =>
    rw [if_neg hne] at hw
    exact hq.pending i w' hw

theorem advances_advanceCommit {r r' : Replica} {advanced : Bool}
    (h : r.advanceCommit = .ok (r', advanced)) :
    r.Advances r' ∧ (advanced = false → r'.commitIndex = r.commitIndex) := by
  rcases Replica.advanceCommit_spec h with ⟨rfl, -⟩ | ⟨rfl, -, i, -, hlt, -, rfl⟩
  · exact ⟨(Replica.SameLog.refl _).advances, fun _ => rfl⟩
  · exact ⟨⟨⟨rfl, rfl, rfl, rfl, rfl, rfl, rfl, rfl⟩, Nat.le_of_lt hlt⟩, nofun⟩

/-- The rest of a proposal, once its entry is in the log. -/
theorem Steady.enlist {β : Type} (h : m.Steady x) {index : Nat} {w : Waiter} {r : Replica}
    {advanced : Bool} (hadv : (m.await index w).replica.advanceCommit = .ok (r, advanced))
    (hb : m.replica.advanceCommit = .ok (r, advanced) → r.commitIndex ≤ x.length)
    {now : Instant} {f : Member MemoryDisk → Except Fault β} {b : β}
    (run : (if advanced then applyOrHalt { m.await index w with replica := r } now >>= f
      else f { m.await index w with replica := r }) = .ok b) :
    m.replica.advanceCommit = .ok (r, advanced) ∧
      ∃ m₁, Becomes { m with pending := m.pending.insert index w } r m₁ x ∧ f m₁ = .ok b := by
  have hcore := core_await m index w
  have hcred := credits_await m index w x
  generalize m.await index w = m₀ at hadv run hcore hcred
  have h₀ := h.of_core hcore
  have hadv' : m.replica.advanceCommit = .ok (r, advanced) := (core_eq_iff.1 hcore).1 ▸ hadv
  obtain ⟨hsame, hidle⟩ := advances_advanceCommit hadv
  have hballot : r.ballot = m₀.replica.ballot :=
    (Replica.stance_eq_iff.1 (Replica.stance_advanceCommit hadv)).2.2.2.1
  obtain ⟨m₁, hm₁, hf⟩ := (h₀.toHolds.advance hsame (hb hadv')).settle (h₀.saved.trans hballot.symm)
    (h₀.ballot.trans hballot.symm) (fun hfalse =>
      ⟨hsame.same.applied.trans (h₀.settled.trans (hidle hfalse).symm),
        h₀.commit.trans (hidle hfalse).symm⟩) run
  refine ⟨hadv', m₁, ?_, hf⟩
  have hcred := hcred m₁.replica.commitIndex
  exact hm₁.after ⟨hcred.pending, hcred.outbox⟩

/-- An entry is at the end of the log, in memory and on disk. -/
theorem Steady.concat (h : m.Steady x) {e : Entry} (hs : Sane (x ++ [e])) (n : Nat) :
    Steady { m with
      disk := { m.disk with tried := n, contents := m.disk.contents.after (.append [e]) }
      replica := { m.replica with log := m.replica.log ++ [e] } } (x ++ [e]) := by
  have hlen : (x ++ [e]).length = x.length + 1 := by
    rw [List.length_append, List.length_singleton]
  have hpre : x.take m.replica.commitIndex <+: x ++ [e] :=
    (List.take_prefix _ _).trans (List.prefix_append _ _)
  refine ⟨h.toHolds.move hpre (h.spans.concat hs) rfl rfl (Nat.le_refl _) ?_ rfl rfl ?_ rfl rfl,
    h.settled, h.commit, h.ballot, h.saved⟩
  · have := h.bounded
    simp only [hlen]
    omega
  · simp only [DiskContents.after, h.stored]

/-- A proposal is refused and changes nothing, or its entry is at the end of the history and its
caller waits there. -/
theorem Steady.propose (h : m.Steady x) {now : Instant} {command : Command} {ticket : Nat}
    {result : Except ServiceError Nat}
    (hpos : m.replica.role = .leader → 0 < m.replica.term)
    (hb : m.replica.role = .leader → ∀ r advanced, Replica.advanceCommit { m.replica with
      log := m.replica.log ++ [⟨m.replica.term, x.length + 1, command⟩] } = .ok (r, advanced) →
        r.commitIndex ≤ x.length + 1)
    (run : m.propose now command ticket = .ok (m', result)) :
    (m' = m ∧ ∃ e, result = .error e) ∨
      (m.replica.role = .leader ∧ result = .ok (x.length + 1) ∧
        ∃ r advanced, Replica.advanceCommit { m.replica with
          log := m.replica.log ++ [⟨m.replica.term, x.length + 1, command⟩] } = .ok (r, advanced) ∧
        Becomes { m with pending := m.pending.insert (x.length + 1) ⟨m.replica.term, ticket⟩ } r m'
          (x ++ [⟨m.replica.term, x.length + 1, command⟩])) := by
  unfold Member.propose at run
  obtain ⟨proposed, hp, run⟩ := bind_eq_ok.1 run
  rcases Replica.propose_cases hp with ⟨-, rfl⟩ | ⟨hrole, -, rfl⟩
  · cases run
    exact .inl ⟨rfl, _, rfl⟩
  · rw [h.spans.lastIndex_eq] at run
    simp only at run
    split at run
    · next m₁ err hw => cases (write_spec hw h.reliable).1
    · next m₁ hw =>
      obtain ⟨-, n, rfl⟩ := write_spec hw h.reliable
      obtain ⟨⟨r, advanced⟩, hadv, run⟩ := bind_eq_ok.1 run
      generalize he : (⟨m.replica.term, x.length + 1, command⟩ : Entry) = e at hadv run hb ⊢
      have hterm : e.term = m.replica.term := he ▸ rfl
      have hindex : e.index = x.length + 1 := he ▸ rfl
      have hsane : Sane (x ++ [e]) :=
        h.spans.sane.concat hindex (hterm ▸ hpos hrole)
      have hlen : (x ++ [e]).length = x.length + 1 := by
        rw [List.length_append, List.length_singleton]
      obtain ⟨hadv, m₂, hm₂, run⟩ := (h.concat hsane n).enlist hadv
        (fun hadv => by rw [hlen]; exact hb hrole r advanced hadv) run
      cases run
      refine .inr ⟨hrole, rfl, r, advanced, hadv, Becomes.quiet (r := r) ?_ (quiet_finish m₂)⟩
      exact hm₂.after (.of_eq rfl rfl)

theorem Steady.takeImage (h : m.Steady x) {now : Instant} {e : Option ServiceError}
    (run : m.takeImage now = .ok (m', e)) : Becomes m m.replica m' x := by
  obtain ⟨-, hholds, hsame, happlied, hsaved, hballot, hcommit, hp, ho⟩ := h.toHolds.takeImage run
  have hballot' : m'.replica.ballot = m.replica.ballot := hsame.ballot
  refine ⟨⟨hholds, ?_, ?_, ?_, ?_⟩, hsame, .of_eq hp ho⟩
  · rw [happlied, h.settled, hsame.commit]
  · rw [hcommit, h.commit, hsame.commit]
  · rw [hballot, h.ballot, hballot']
  · rw [hsaved, h.saved, hballot']

/-! ## Following -/

/-- The ballot and the log are written, however the log changed. -/
theorem persistEntries_calm {change : Option LogChange} {e : Option IoError}
    (run : m.persistEntries change = .ok (m', e)) (hrel : ∀ n w, m.disk.fails n w = false)
    (hballot : m.disk.contents.ballot = m.saved) (hs : m.replica.Spans y)
    (hr : Replica.Reports x y change) (hb : m.replica.snapshotIndex ≤ x.length)
    (hlog : m.disk.contents.log = x.drop m.replica.snapshotIndex) :
    e = none ∧ ∃ n, m' = { m with
      saved := m.replica.ballot
      disk := { m.disk with
        tried := n
        contents :=
          { m.disk.contents with ballot := m.replica.ballot, log := m.replica.log } } } := by
  unfold Member.persistEntries at run
  split at run
  · next m₁ err hsave => cases (saveBallot_calm hsave hrel hballot).1
  · next m₁ hsave =>
    obtain ⟨-, n, rfl⟩ := saveBallot_calm hsave hrel hballot
    split at run
    · obtain rfl : y = x := hr
      cases run
      refine ⟨rfl, n, ?_⟩
      rw [hs.log, ← hlog]
    · next start =>
      obtain ⟨rfl, hpre⟩ := hr
      obtain ⟨es, hes, run⟩ := bind_eq_ok.1 run
      have hes' : es = y.drop x.length := by
        have hlt : m.replica.snapshotIndex < x.length + 1 := Nat.lt_succ_of_le hb
        have hes := hs.entriesFrom_eq hlt hes
        rwa [Nat.add_sub_cancel] at hes
      obtain ⟨rfl, n', rfl⟩ := write_spec (Except.ok.inj run) hrel
      refine ⟨rfl, n', ?_⟩
      -- what was there, and what is new
      have happend : x.drop m.replica.snapshotIndex ++ es = m.replica.log := by
        obtain ⟨t, rfl⟩ := hpre
        rw [hes', hs.log, List.drop_left, List.drop_append_of_le_length hb]
      simp only [DiskContents.after, hlog, happend]
    · obtain ⟨rfl, n', rfl⟩ := write_spec (Except.ok.inj run) hrel
      exact ⟨rfl, n', rfl⟩

theorem credits_noteLeader (m : Member MemoryDisk) (r : Replica) (resetTimer : Bool) (x : History)
    (n : Nat) : Credits m (noteLeader { m with replica := r } resetTimer) x n :=
  have h := (quiet_noteLeader { m with replica := r } resetTimer).credits x n
  ⟨h.pending, h.outbox⟩

/-- The rest of an append request, once it is known what it made of the log. -/
theorem Steady.merge (h : m.Steady x) {r : Replica} {o : AppendOutcome} {now : Instant}
    {q : AppendRequest} {reply : Except ServiceError Message}
    (hr : m.replica.takeEntries q = .ok (r, o)) (hs : r.Spans y)
    (hbase : r.snapshotIndex = m.replica.snapshotIndex)
    (happlied : r.lastApplied = m.replica.lastApplied)
    (hxy : x.take m.replica.commitIndex <+: y) (hc : m.replica.commitIndex ≤ r.commitIndex)
    (hb : r.commitIndex ≤ y.length) (hreports : Replica.Reports x y o.change)
    (hidle : o.commitAdvanced = false → r.commitIndex = m.replica.commitIndex)
    (run : m.answerAppend now q = .ok (m', reply)) :
    Becomes m r m' y ∧
      ∀ message, reply = .ok message → message = .appendReply r.term o.success := by
  unfold Member.answerAppend at run
  obtain ⟨⟨r', o'⟩, hr', run⟩ := bind_eq_ok.1 run
  obtain ⟨rfl, rfl⟩ : r = r' ∧ o = o' := by simpa using hr.symm.trans hr'
  obtain ⟨⟨m₂, e⟩, hm₂, run⟩ := bind_eq_ok.1 run
  have hq := quiet_noteLeader { m with replica := r } o.resetTimer
  obtain ⟨hr₁, hd₁, hmach₁, hi₁, hs₁⟩ := core_eq_iff.1 hq.core
  have hcred := credits_noteLeader m r o.resetTimer
  generalize noteLeader { m with replica := r } o.resetTimer = m₁
    at hm₂ hr₁ hd₁ hmach₁ hi₁ hs₁ hcred
  obtain ⟨rfl, n, rfl⟩ := persistEntries_calm hm₂ (by rw [hd₁]; exact h.reliable)
    (by rw [hd₁, hs₁]; exact h.ballot.trans h.saved.symm) (by rw [hr₁]; exact hs) hreports
    (by rw [hr₁, hbase]; exact h.spans.base)
    (by rw [hr₁, hd₁, h.stored, h.spans.log, hbase])
  have hholds : Holds { m₁ with
      saved := m₁.replica.ballot
      disk := { m₁.disk with
        tried := n
        contents := { m₁.disk.contents with
          ballot := m₁.replica.ballot, log := m₁.replica.log } } } y := by
    refine h.toHolds.move hxy ?_ ?_ ?_ ?_ ?_ hmach₁ hi₁ rfl ?_ ?_ <;>
      simp only [hr₁, hd₁] <;> assumption
  obtain ⟨m₃, hm₃, run⟩ := hholds.settle rfl rfl (fun hfalse => by
    simp only [hr₁, hd₁, hidle hfalse, happlied]
    exact ⟨h.settled, h.commit⟩) run
  cases run
  have hbecomes : Becomes m m₁.replica m₃ y := hm₃.after ((hcred y _).trans (.of_eq rfl rfl))
  rw [hr₁] at hbecomes
  refine ⟨hbecomes.quiet (quiet_finish m₃), fun message hm => ?_⟩
  split at hm
  · cases hm
  · exact (Except.ok.inj hm).symm

/-- An append request of an old term, or without an anchor, changes no entry; any other makes the
member adopt the leader's history up to the window's end. -/
theorem Steady.answerAppend (h : m.Steady x) {now : Instant} {q : AppendRequest}
    {reply : Except ServiceError Message} (hm : Replica.Matching x y) (hy : Sane y)
    (hq : Replica.Shows q y)
    (hc : m.replica.term ≤ q.term → x.take m.replica.commitIndex <+: y)
    (run : m.answerAppend now q = .ok (m', reply)) :
    (q.term < m.replica.term ∧ Becomes m m.replica m' x ∧
      ∀ message, reply = .ok message → message = .appendReply m.replica.term false) ∨
    (m.replica.term ≤ q.term ∧ Becomes m (m.replica.accept q.term q.leader) m' x ∧
      ∀ message, reply = .ok message → message = .appendReply q.term false) ∨
    (m.replica.term ≤ q.term ∧ ∃ commit, m.replica.commitIndex ≤ commit ∧
      (commit = m.replica.commitIndex ∨
        commit ≤ min q.leaderCommit (q.prevIndex + q.entries.length)) ∧
      Becomes m { m.replica.accept q.term q.leader with commitIndex := commit } m'
        (adopt x (y.take (q.prevIndex + q.entries.length))) ∧
      ∀ message, reply = .ok message → message = .appendReply q.term true) := by
  obtain ⟨⟨r, o⟩, hr, -⟩ := bind_eq_ok.1 run
  rcases Nat.lt_or_ge q.term m.replica.term with hlt | hge
  · have hstale : m.replica.takeEntries q = .ok (m.replica, ⟨false, false, none, false⟩) :=
      if_pos hlt
    exact .inl ⟨hlt, h.merge hstale h.spans rfl rfl (List.take_prefix _ _) (Nat.le_refl _) h.bounded
      rfl (fun _ => rfl) run⟩
  · have hacc := Replica.sameLog_accept m.replica q.term q.leader
    have hterm := (Replica.accept_spec hge q.leader).2
    rcases h.spans.takeEntries hm hy hq
      ((take_prefix_take (Nat.le_trans h.applied h.committed)).trans (hc hge)) hr with
      ⟨hlt, -⟩ | ⟨-, rfl, rfl⟩ | ⟨-, ⟨log, commit, rfl⟩, hs, hsuccess, hreports, hfollowed⟩
    · omega
    · have hkept := h.merge hr (h.spans.of_sameLog hacc) hacc.base hacc.applied
        (List.take_prefix _ _) (Nat.le_of_eq hacc.commit.symm)
        (Nat.le_trans (Nat.le_of_eq hacc.commit) h.bounded) rfl (fun _ => hacc.commit) run
      rw [hterm] at hkept
      exact .inr (.inl ⟨hge, hkept⟩)
    · have hpre := (List.take_prefix (q.prevIndex + q.entries.length) y)
      have hxy := prefix_adopt_of_common hpre (List.take_prefix _ x) (hc hge)
      have hlen : (x.take m.replica.commitIndex).length = m.replica.commitIndex :=
        List.length_take_of_le h.bounded
      have hlen' : (y.take (q.prevIndex + q.entries.length)).length =
        q.prevIndex + q.entries.length := List.length_take_of_le hq.fits
      have hle := hxy.length_le
      have hle' := (prefix_adopt x (y.take (q.prevIndex + q.entries.length))).length_le
      have hcommit : m.replica.commitIndex ≤ commit ∧ (commit = m.replica.commitIndex ∨
          commit ≤ min q.leaderCommit (q.prevIndex + q.entries.length)) ∧
          (o.commitAdvanced = false → commit = m.replica.commitIndex) := by
        rcases hfollowed with ⟨-, heq⟩ | ⟨hadv, hlt, hbound⟩
        · exact ⟨Nat.le_of_eq heq.symm, .inl heq, fun _ => heq⟩
        · exact ⟨Nat.le_of_lt hlt, .inr hbound, fun hfalse => nomatch hadv.symm.trans hfalse⟩
      obtain ⟨hlow, hhigh, hidle⟩ := hcommit
      obtain ⟨hbecomes, hreply⟩ := h.merge hr hs hacc.base hacc.applied hxy hlow
        (by simp only; omega) hreports hidle run
      refine .inr (.inr ⟨hge, commit, hlow, hhigh, ?_, ?_⟩)
      · exact ⟨hbecomes.steady, .trans ⟨log, _, _, _, rfl⟩ hbecomes.replica, hbecomes.credits⟩
      · rw [hsuccess] at hreply
        exact hterm ▸ hreply

/-- An image is written whole: the contents, the log above it and the commit index. -/
theorem install_calm {image : Image} {e : Option IoError} (run : m.install image = (m', e))
    (hrel : ∀ n w, m.disk.fails n w = false) :
    e = none ∧ ∃ n, m' = { m with
      machine := Image.restore image.entries
      image := some image
      disk := { m.disk with
        tried := n
        contents := { m.disk.contents with
          image := some image, log := m.replica.log, commit := m.replica.commitIndex } } } := by
  unfold Member.install at run
  split at run
  · next m₁ err hw => cases (write_spec hw hrel).1
  · next m₁ hw =>
    obtain ⟨-, n₁, rfl⟩ := write_spec hw hrel
    simp only at run
    split at run
    · next m₂ err hw' => cases (write_spec hw' hrel).1
    · next m₂ hw' =>
      obtain ⟨-, n₂, rfl⟩ := write_spec hw' hrel
      split at run
      · next m₃ err hw'' => cases (write_spec hw'' hrel).1
      · next m₃ hw'' =>
        obtain ⟨-, n₃, rfl⟩ := write_spec hw'' hrel
        cases run
        exact ⟨rfl, n₃, rfl⟩

theorem persistImage_calm {installed : Bool} {image : Image} {e : Option IoError}
    (run : m.persistImage installed image = (m', e)) (hrel : ∀ n w, m.disk.fails n w = false)
    (hballot : m.disk.contents.ballot = m.saved) :
    e = none ∧ ∃ n,
      (installed = false ∧ m' = { m with
        saved := m.replica.ballot
        disk := { m.disk with
          tried := n, contents := { m.disk.contents with ballot := m.replica.ballot } } }) ∨
      (installed = true ∧ m' = { m with
        saved := m.replica.ballot
        machine := Image.restore image.entries
        image := some image
        disk := { m.disk with
          tried := n
          contents :=
            ⟨m.replica.ballot, m.replica.log, m.replica.commitIndex, some image⟩ } }) := by
  unfold Member.persistImage at run
  split at run
  · next m₁ err hsave => cases (saveBallot_calm hsave hrel hballot).1
  · next m₁ hsave =>
    obtain ⟨-, n, rfl⟩ := saveBallot_calm hsave hrel hballot
    split at run
    · next htrue =>
      obtain ⟨rfl, n', rfl⟩ := install_calm run hrel
      exact ⟨rfl, n', .inr ⟨htrue, rfl⟩⟩
    · next hfalse =>
      cases run
      exact ⟨rfl, n, .inl ⟨Bool.not_eq_true _ ▸ hfalse, rfl⟩⟩

/-- A member that has nothing but an image and the log above it. -/
theorem Steady.of_image {r : Replica} {image : Image} {k n : Nat} (hs : r.Spans x)
    (hbase : r.snapshotIndex = k) (happlied : r.lastApplied = k) (hc : r.commitIndex = k)
    (hk : k ≤ x.length) (hi : Pictures (some image) x k)
    (hrel : ∀ n w, m.disk.fails n w = false) :
    Steady { m with
      replica := r
      saved := r.ballot
      machine := Image.restore image.entries
      image := some image
      disk := { m.disk with
        tried := n, contents := ⟨r.ballot, r.log, r.commitIndex, some image⟩ } } x := by
  refine ⟨⟨hs, ?_, ?_, ?_, ?_, ?_, rfl, rfl, hrel⟩, ?_, rfl, rfl, rfl⟩
  · exact Nat.le_of_eq (hbase.trans happlied.symm)
  · exact Nat.le_of_eq (happlied.trans hc.symm)
  · exact Nat.le_trans (Nat.le_of_eq hc) hk
  · simp only [happlied, hi.2.2, Image.restore_fold, List.nil_append]
    exact fun _ => trivial
  · simp only [hbase]
    exact hi
  · exact happlied.trans hc.symm

/-- A replica that takes an image, after it was accepted: it ignores what is committed, or makes
room. -/
theorem takeImage_cases {r r' : Replica} {term lastIndex lastTerm : Nat} {leader : NodeId}
    {o : InstallOutcome} (h : r.takeImage term leader lastIndex lastTerm = .ok (r', o)) :
    (term < r.term ∧ r' = r ∧ o.installed = false) ∨
    (r.term ≤ term ∧ lastIndex ≤ r.commitIndex ∧ r' = r.accept term leader ∧
      o.installed = false) ∨
    (r.term ≤ term ∧ r.commitIndex < lastIndex ∧
      (r.accept term leader).rebase lastIndex lastTerm = .ok r' ∧ o.installed = true) := by
  have hcommit := (Replica.sameLog_accept r term leader).commit
  unfold Replica.takeImage at h
  split at h
  · next hlt =>
    cases h
    exact .inl ⟨hlt, rfl, rfl⟩
  · next hge =>
    simp only at h
    split at h
    · next hle =>
      cases h
      exact .inr (.inl ⟨Nat.not_lt.1 hge, hcommit ▸ hle, rfl, rfl⟩)
    · next hgt =>
      obtain ⟨r₁, hr₁, h⟩ := bind_eq_ok.1 h
      cases h
      exact .inr (.inr ⟨Nat.not_lt.1 hge, hcommit ▸ Nat.not_le.1 hgt, hr₁, rfl⟩)

/-- A replica that makes room for an image adopts the history up to the image. -/
theorem Steady.adoptImage (h : m.Steady x) {r : Replica} (image : Image) (n : Nat)
    (hm : Replica.Matching x y) (hy : Sane y) (hn : image.lastIndex ≤ y.length)
    (ht : image.lastTerm = y.termAt image.lastIndex)
    (he : image.entries = Image.fold [] (y.take image.lastIndex))
    (hlt : m.replica.commitIndex < image.lastIndex) (term : Nat) (leader : NodeId)
    (hr : (m.replica.accept term leader).rebase image.lastIndex image.lastTerm = .ok r)
    (hrel : ∀ n w, m₁.disk.fails n w = false) :
    Replica.SameButLog { m.replica.accept term leader with commitIndex := image.lastIndex } r ∧
    Steady { m₁ with
      replica := r
      saved := r.ballot
      machine := Image.restore image.entries
      image := some image
      disk := { m₁.disk with
        tried := n, contents := ⟨r.ballot, r.log, r.commitIndex, some image⟩ } }
      (adopt x (y.take image.lastIndex)) := by
  have hacc := Replica.sameLog_accept m.replica term leader
  have hbase : m.replica.snapshotIndex < image.lastIndex :=
    Nat.lt_of_le_of_lt (Nat.le_trans h.applied h.committed) hlt
  rw [ht] at hr
  obtain ⟨⟨log, rfl⟩, hs⟩ := (h.spans.of_sameLog hacc).rebase hm hy hn
    (by rw [hacc.base]; exact hbase) hr
  have hadopted := prefix_adopt x (y.take image.lastIndex)
  have hlen : (y.take image.lastIndex).length = image.lastIndex := List.length_take_of_le hn
  have hle : image.lastIndex ≤ (adopt x (y.take image.lastIndex)).length :=
    Nat.le_trans (Nat.le_of_eq hlen.symm) hadopted.length_le
  have hpictures : Pictures (some image) y image.lastIndex := ⟨rfl, ht, he⟩
  exact ⟨⟨_, _, _, _, rfl⟩, .of_image hs rfl rfl rfl hle (hpictures.congr hn hadopted) hrel⟩

/-- An install request of an old term, or of what is committed, changes no entry; any other makes
the member adopt the leader's history up to the image. -/
theorem Steady.answerInstall (h : m.Steady x) {now : Instant} {q : InstallRequest}
    {reply : Except ServiceError Message} (hm : Replica.Matching x y) (hy : Sane y)
    (hn : q.lastIndex ≤ y.length) (ht : q.lastTerm = y.termAt q.lastIndex)
    (he : q.entries = Image.fold [] (y.take q.lastIndex))
    (run : m.answerInstall now q = .ok (m', reply)) :
    (q.term < m.replica.term ∧ Becomes m m.replica m' x ∧
      reply = .ok (.installReply m.replica.term)) ∨
    (m.replica.term ≤ q.term ∧ q.lastIndex ≤ m.replica.commitIndex ∧
      Becomes m (m.replica.accept q.term q.leader) m' x ∧ reply = .ok (.installReply q.term)) ∨
    (m.replica.term ≤ q.term ∧ m.replica.commitIndex < q.lastIndex ∧
      Becomes m { m.replica.accept q.term q.leader with commitIndex := q.lastIndex } m'
        (adopt x (y.take q.lastIndex)) ∧ reply = .ok (.installReply q.term)) := by
  unfold Member.answerInstall at run
  obtain ⟨⟨r, o⟩, hr, hrun⟩ := bind_eq_ok.1 run
  clear run
  have hcore := (quiet_noteLeader { m with replica := r } o.resetTimer).core
  have hcred := credits_noteLeader m r o.resetTimer
  simp only at hrun hcore
  generalize noteLeader { m with replica := r } o.resetTimer = m₁ at hrun hcore hcred
  obtain ⟨hr₁, hd₁, -, -, hs₁⟩ := core_eq_iff.1 hcore
  simp only at hr₁ hd₁ hs₁
  have hrel : ∀ n w, m₁.disk.fails n w = false := hd₁ ▸ h.reliable
  have hballot : m₁.disk.contents.ballot = m₁.saved := by
    rw [hd₁, hs₁]
    exact h.ballot.trans h.saved.symm
  split at hrun
  · next m₂ err hp => cases (persistImage_calm hp hrel hballot).1
  · next m₂ hp =>
    obtain ⟨-, n, hp⟩ := persistImage_calm hp hrel hballot
    cases hrun
    have hkept : o.installed = false → Replica.SameLog m.replica r → Becomes m r m₂.finish x := by
      intro hfalse hsame
      obtain ⟨-, rfl⟩ | ⟨htrue, -⟩ := hp
      · have hsteady := h.rebind hsame hcore n
        rw [← hr₁] at hsteady ⊢
        exact Becomes.quiet ⟨hsteady, .refl _, (hcred x _).trans (.of_eq rfl rfl)⟩ (quiet_finish _)
      · cases hfalse.symm.trans htrue
    rcases takeImage_cases hr with
      ⟨hlt, rfl, hfalse⟩ | ⟨hge, hle, rfl, hfalse⟩ | ⟨hge, hlt, hre, htrue⟩
    · exact .inl ⟨hlt, hkept hfalse (.refl _), rfl⟩
    · have hterm := (Replica.accept_spec hge q.leader).2
      exact .inr (.inl ⟨hge, hle, hkept hfalse (Replica.sameLog_accept _ _ _), by rw [hterm]⟩)
    · obtain ⟨hfalse, -⟩ | ⟨-, rfl⟩ := hp
      · cases hfalse.symm.trans htrue
      obtain ⟨hsame, hsteady⟩ := h.adoptImage ⟨q.entries, q.lastIndex, q.lastTerm, now⟩ n hm hy hn
        ht he hlt q.term q.leader hre hrel
      have hterm : r.term = q.term := hsame.term.trans (Replica.accept_spec hge q.leader).2
      rw [← hr₁] at hsteady hsame
      refine .inr (.inr ⟨hge, hlt, Becomes.quiet ⟨hsteady, hsame, ?_⟩ (quiet_finish _), ?_⟩)
      · exact (hcred _ _).trans (.of_eq rfl rfl)
      · rw [hterm]

end Member

end ReplicatedStore
