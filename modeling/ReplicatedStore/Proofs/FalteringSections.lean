import ReplicatedStore.Proofs.Faltering
/-!
# Sections on disks that falter

What each section makes of a firm member, whatever writes fail. A section that writes the ballot and
no more leaves the member firm, with a ballot that was stored or refused. Any other ends as
`Member.Finishes` says: the member is firm with a history and a replica, or it has stopped and its
disk yields that history.

Two writes can fail between the image and the log after it, and these alone leave a history that the
member never had: the image's, followed by what was in the log above it (`Firm.answerInstall`).
-/
namespace ReplicatedStore

open History

/-- The replica has come from one history to another, which has what was committed in common. -/
structure Replica.Moves (r r' : Replica) (x y : History) : Prop where
  spans : r'.Spans y
  base : r'.snapshotIndex = r.snapshotIndex
  applied : r'.lastApplied = r.lastApplied
  common : x.take r.commitIndex <+: y
  commit : r.commitIndex ≤ r'.commitIndex
  bounded : r'.commitIndex ≤ y.length

/-- All that is committed of the history is in the image, and the log has the rest. -/
structure Replica.Imaged (r : Replica) (x : History) (image : Image) : Prop where
  spans : r.Spans x
  pictured : Pictures (some image) x image.lastIndex
  base : r.snapshotIndex = image.lastIndex
  applied : r.lastApplied = image.lastIndex
  commit : r.commitIndex = image.lastIndex

namespace Member

variable {m m' m₁ m₂ : Member MemoryDisk} {x y : History}

/-! ## The end of a section -/

/-- The disk yields the history, and the member has stopped or is firm with it and with the replica,
whose ballot is stored. -/
structure Finishes (r : Replica) (m' : Member MemoryDisk) (x : History) : Prop where
  stored : m'.disk.contents.ballot = m'.saved
  leaves : m'.disk.Leaves x r.snapshotIndex r.commitIndex
  runs : m'.stopped = false → m'.saved = r.ballot ∧ m'.Firm x ∧ Replica.SameButLog r m'.replica

theorem Finishes.of_gist {r : Replica} (h : Finishes r m₁ x) (hg : m'.gist = m₁.gist) :
    Finishes r m' x := by
  obtain ⟨hc, hstop⟩ := gist_eq_iff.1 hg
  obtain ⟨hr, hd, -, -, hs⟩ := core_eq_iff.1 hc
  refine ⟨by rw [hd, hs]; exact h.stored, hd ▸ h.leaves, fun hrun => ?_⟩
  obtain ⟨hsaved, hfirm, hsame⟩ := h.runs (hstop ▸ hrun)
  exact ⟨hs.trans hsaved, hfirm.of_core hc, hr ▸ hsame⟩

/-- A member that halts leaves its disk as it is. -/
theorem Finishes.of_halted {r : Replica} (step : CriticalStep) (cause : ServiceError)
    (hstored : m.disk.contents.ballot = m.saved)
    (hl : m.disk.Leaves x r.snapshotIndex r.commitIndex) :
    Finishes r (m.halt step cause).finish x ∧ (m.halt step cause).finish.saved = m.saved := by
  obtain ⟨hc, hstop⟩ := halted m step cause
  obtain ⟨-, hd, -, -, hs⟩ := core_eq_iff.1 hc
  exact ⟨⟨by rw [hd, hs]; exact hstored, hd ▸ hl, fun hrun => nomatch hstop.symm.trans hrun⟩, hs⟩

theorem Firm.finishes {r : Replica} (h : m.Firm x) (hsaved : m.saved = m.replica.ballot)
    (hr : Replica.SameButLog r m.replica) (hbase : r.snapshotIndex ≤ m.replica.snapshotIndex) :
    Finishes r m x :=
  ⟨h.stored, h.leaves.mono hbase (Nat.le_of_eq hr.commit),
    fun _ => ⟨hsaved.trans hr.ballot, h, hr⟩⟩

/-- A member that halts when at most its ballot was written. -/
theorem Firm.halts (h : m.Firm x) {r : Replica} (hr : Replica.SameLog m.replica r)
    (step : CriticalStep) (cause : ServiceError) (hu : m₁.disk.unreadable = m.disk.unreadable)
    (hd : m₁.disk.contents = { m.disk.contents with ballot := m₁.saved }) :
    Finishes r (m₁.halt step cause).finish x ∧
      (m₁.halt step cause).finish.saved = m₁.saved := by
  refine Finishes.of_halted step cause (by rw [hd]) ?_
  rw [hr.base, hr.commit]
  exact h.leaves.rebind hu hd

/-- The same history with another standing and commit index. -/
theorem Mirrors.advance (h : m.Mirrors x) {r : Replica} (hr : m.replica.Advances r)
    (hb : r.commitIndex ≤ x.length) :
    (show Member MemoryDisk from { m with replica := r }).Mirrors x := by
  have hbase := hr.same.base
  have happlied := hr.same.applied
  have hcommit := hr.commit
  simp only at hbase happlied
  have hcommitted := h.committed
  have hnoted := h.noted
  refine ⟨⟨h.spans.congr hr.same.log hr.same.base hr.same.baseTerm, ?_, ?_, hb, ?_, ?_, ?_⟩,
    h.yields, h.pictured, Nat.le_trans hnoted hcommit, h.stored, h.readable⟩ <;>
    simp only [hbase, happlied]
  · exact h.applied
  · omega
  · exact h.machine
  · exact h.executed
  · exact h.image

/-- What is committed is applied if that is more than before. A member that cannot stops. -/
theorem Mirrors.settle {β : Type} (h : m.Mirrors x) (hsaved : m.saved = m.replica.ballot)
    {advanced : Bool}
    (hidle : advanced = false → m.CaughtUp) {now : Instant}
    {f : Member MemoryDisk → Except Fault β} {b : β}
    (run : (if advanced then m.applyOrHalt now >>= f else f m) = .ok b) :
    ∃ m₁, Finishes m.replica m₁ x ∧ m₁.saved = m.saved ∧ f m₁ = .ok b := by
  split at run
  · obtain ⟨m₁, hm₁, run⟩ := bind_eq_ok.1 run
    unfold applyOrHalt at hm₁
    obtain ⟨⟨m₂, e⟩, hm₂, hm₁⟩ := bind_eq_ok.1 hm₁
    obtain ⟨happlied, hnone⟩ := h.applyCommitted hm₂
    have hspares := happlied.spares
    have hstored : m₂.disk.contents.ballot = m₂.saved := by
      rw [hspares.ballot, hspares.saved]
      exact h.stored
    cases e with
    | none =>
      cases hm₁
      obtain ⟨hmirrors, hall, hcommit⟩ := hnone rfl
      have hballot := happlied.replica.ballot.trans (hsaved.symm.trans hspares.saved.symm)
      exact ⟨_, ⟨hstored, happlied.leaves, fun _ => ⟨hspares.saved.trans hsaved,
        ⟨hmirrors, hall, hcommit, .inl hballot⟩, happlied.replica⟩⟩, hspares.saved, run⟩
    | some e =>
      cases hm₁
      have hd : (m₂.halt .applyEntries e).disk = m₂.disk := (quiet_halt m₂ _ e).disk
      have hs : (m₂.halt .applyEntries e).saved = m₂.saved :=
        congrArg Core.saved (quiet_halt m₂ .applyEntries e).core
      exact ⟨_, ⟨by rw [hd, hs]; exact hstored, hd ▸ happlied.leaves,
        fun hlive => nomatch (hlive : true = false)⟩, hs.trans hspares.saved, run⟩
  · next hfalse =>
    obtain ⟨hall, hcommit⟩ := hidle (Bool.not_eq_true _ ▸ hfalse)
    have hfirm : m.Firm x := ⟨h, hall, hcommit, .inl hsaved.symm⟩
    exact ⟨m, hfirm.finishes hsaved (.refl _) (Nat.le_refl _), rfl, run⟩

/-! ## Ballots -/

/-- The ballot is stored before anything else happens, or it is refused. -/
theorem Mirrors.saveBallot (h : m.Mirrors x) {e : Option IoError}
    (run : m.saveBallot = (m', e)) :
    m'.Mirrors x ∧ m'.replica = m.replica ∧ m'.stopped = m.stopped ∧ m'.Offered ∧
      m'.disk.contents.commit = m.disk.contents.commit ∧
      (e = none → m'.saved = m.replica.ballot) ∧ (e ≠ none → m'.saved = m.saved) := by
  obtain ⟨n, -, ⟨rfl, rfl⟩ | ⟨hne, hoffered, rfl⟩⟩ := saveBallot_cases run h.stored
  · exact ⟨⟨h.toKnows.congr rfl rfl rfl, h.yields.rebind _, h.pictured, h.noted, rfl, h.readable⟩,
      rfl, rfl, .inl rfl, rfl, fun _ => rfl, fun hne => absurd rfl hne⟩
  · exact ⟨⟨h.toKnows.congr rfl rfl rfl, h.yields, h.pictured, h.noted, h.stored, h.readable⟩,
      rfl, rfl, hoffered, rfl, fun hnone => absurd hnone hne, fun _ => rfl⟩

/-- A section that touches the standing only. -/
theorem Firm.saveBallot (h : m.Firm x) {r : Replica} (hr : Replica.SameLog m.replica r)
    {e : Option IoError} (run : Member.saveBallot { m with replica := r } = (m', e)) :
    m'.Firm x ∧ m'.replica = r ∧ m'.stopped = m.stopped ∧
      (e = none → m'.saved = r.ballot) ∧ (e ≠ none → m'.saved = m.saved) := by
  have hmirrors := h.toMirrors.advance hr.advances (Nat.le_trans (Nat.le_of_eq hr.commit) h.bounded)
  obtain ⟨hmirrors', hreplica, hstopped, hoffered, hcommit, hsaved, hunsaved⟩ :=
    hmirrors.saveBallot run
  simp only at hreplica
  refine ⟨⟨hmirrors', ?_, ?_, hoffered⟩, hreplica, hstopped, hsaved, hunsaved⟩
  · rw [hreplica, hr.applied, hr.commit]
    exact h.settled
  · rw [hcommit, hreplica, hr.commit]
    exact h.commit

/-- A candidacy whose vote is stored, or one that does not stand. -/
theorem Firm.campaign (h : m.Firm x) {q : Option VoteRequest} (run : m.campaign = .ok (m', q)) :
    (m' = m ∧ q = none) ∨
      ∃ r request, m.replica.campaign = .ok (r, request) ∧ m'.Firm x ∧ m'.stopped = m.stopped ∧
        ((m'.saved = r.ballot ∧ m'.replica = r ∧ ∀ q', q = some q' → q' = request) ∨
          (m'.saved = m.saved ∧ m'.replica = r.follow r.term ∧ q = none)) := by
  unfold Member.campaign at run
  split at run
  · cases run
    exact .inl ⟨rfl, rfl⟩
  · obtain ⟨⟨r, request⟩, hr, run⟩ := bind_eq_ok.1 run
    refine .inr ⟨r, request, hr, ?_⟩
    have hsame := Replica.sameLog_campaign hr
    simp only at run
    split at run
    · next m₁ err hsave =>
      cases run
      obtain ⟨hfirm, rfl, hstopped, -, hsaved⟩ := h.saveBallot hsame hsave
      have hfollow := Replica.sameLog_follow m₁.replica m₁.replica.term
      obtain ⟨hc, hstop⟩ := gist_eq_iff.1
        (gist_finish { m₁ with replica := m₁.replica.follow m₁.replica.term })
      obtain ⟨hr', -, -, -, hs'⟩ := core_eq_iff.1 hc
      have hballot : (m₁.replica.follow m₁.replica.term).ballot = m₁.replica.ballot := by
        unfold Replica.follow
        rw [if_neg (Nat.lt_irrefl _)]
        rfl
      refine ⟨Firm.of_core ⟨hfirm.toMirrors.advance hfollow.advances ?_, ?_, ?_, ?_⟩ hc,
        hstop.trans hstopped, .inr ⟨hs'.trans (hsaved nofun), hr', rfl⟩⟩
      · exact Nat.le_trans (Nat.le_of_eq hfollow.commit) hfirm.bounded
      · exact hfollow.applied.trans (hfirm.settled.trans hfollow.commit.symm)
      · exact hfirm.commit.trans hfollow.commit.symm
      · have hoffered := hfirm.offered
        unfold Offered at hoffered ⊢
        rw [hballot]
        exact hoffered
    · next m₁ hsave =>
      cases run
      obtain ⟨hfirm, hr', hstopped, hsaved, -⟩ := h.saveBallot hsame hsave
      obtain ⟨hc, hstop⟩ := gist_eq_iff.1 (gist_finish m₁)
      obtain ⟨hr'', -, -, -, hs'⟩ := core_eq_iff.1 hc
      refine ⟨hfirm.of_core hc, hstop.trans hstopped,
        .inl ⟨hs'.trans (hsaved rfl), hr''.trans hr', fun q' hq' => ?_⟩⟩
      split at hq'
      · cases hq'
      · exact (Option.some.inj hq').symm

/-- A vote is given once it is stored; one that is refused is not given. -/
theorem Firm.answerVote (h : m.Firm x) {q : VoteRequest} {reply : Except ServiceError Message}
    (run : m.answerVote q = (m', reply)) :
    ∃ r granted, m.replica.answerVote q = (r, granted) ∧ m'.Firm x ∧ m'.replica = r ∧
      m'.stopped = m.stopped ∧
      ((m'.saved = r.ballot ∧ reply = .ok (.voteReply r.term granted)) ∨
        (m'.saved = m.saved ∧ ∃ e, reply = .error e)) := by
  unfold Member.answerVote at run
  cases hr : m.replica.answerVote q with
  | mk r granted =>
    have hsame := Replica.sameLog_answerVote hr
    refine ⟨r, granted, rfl, ?_⟩
    simp only [hr] at run
    split at run
    · next m₁ err hsave =>
      cases run
      obtain ⟨hfirm, hr', hstopped, -, hsaved⟩ := h.saveBallot hsame hsave
      obtain ⟨hc, hstop⟩ := gist_eq_iff.1 (gist_finish m₁)
      obtain ⟨hr'', -, -, -, hs'⟩ := core_eq_iff.1 hc
      exact ⟨hfirm.of_core hc, hr''.trans hr', hstop.trans hstopped,
        .inr ⟨hs'.trans (hsaved nofun), _, rfl⟩⟩
    · next m₁ hsave =>
      cases run
      obtain ⟨hfirm, hr', hstopped, hsaved, -⟩ := h.saveBallot hsame hsave
      have hg : (if granted then m₁.finish.emit .resetElectionTimer else m₁.finish).gist =
          m₁.gist := by
        split
        · exact gist_finish m₁
        · exact gist_finish m₁
      obtain ⟨hc, hstop⟩ := gist_eq_iff.1 hg
      obtain ⟨hr'', -, -, -, hs'⟩ := core_eq_iff.1 hc
      exact ⟨hfirm.of_core hc, hr''.trans hr', hstop.trans hstopped,
        .inl ⟨hs'.trans (hsaved rfl), rfl⟩⟩

/-- A member that cannot store a ballot stops, with its history on its disk. -/
theorem Firm.halts_unsaved (h : m.Firm x) {r : Replica} (hr : m.replica.Advances r)
    (hb : r.commitIndex ≤ x.length) {e : IoError} {step : CriticalStep}
    (run : Member.saveBallot { m with replica := r } = (m₁, some e)) :
    Finishes r (m₁.halt step (.storage e)).finish x ∧
      (m₁.halt step (.storage e)).finish.saved = m.saved ∧
      (m₁.halt step (.storage e)).finish.stopped = true := by
  obtain ⟨hmirrors, hr', -, -, -, -, hsaved⟩ := (h.toMirrors.advance hr hb).saveBallot run
  have hl := hmirrors.leaves
  rw [hr'] at hl
  obtain ⟨hfinishes, hs⟩ := Finishes.of_halted (r := r) step (.storage e)
    hmirrors.stored hl
  exact ⟨hfinishes, hs.trans (hsaved nofun), (halted m₁ step (.storage e)).2⟩

theorem Firm.countVote (h : m.Firm x) {campaign term : Nat} {peer : NodeId} {granted more : Bool}
    (run : m.countVote campaign peer term granted = .ok (m', more)) :
    ∃ r won, m.replica.countVote term granted peer = .ok (r, won) ∧ Finishes r m' x ∧
      (m'.saved = m.saved ∨ m'.saved = r.ballot) := by
  unfold Member.countVote at run
  obtain ⟨⟨r, won⟩, hr, hrun'⟩ := bind_eq_ok.1 run
  clear run
  have hsame := Replica.sameLog_countVote hr
  refine ⟨r, won, hr, ?_⟩
  simp only at hrun'
  split at hrun'
  · next m₁ err hsave =>
    cases hrun'
    obtain ⟨hfinishes, hsaved, -⟩ := h.halts_unsaved hsame.advances
      (Nat.le_trans (Nat.le_of_eq hsame.commit) h.bounded) hsave
    exact ⟨hfinishes, .inl hsaved⟩
  · next m₁ hsave =>
    cases hrun'
    obtain ⟨hfirm, rfl, hstopped, hsaved, -⟩ := h.saveBallot hsame hsave
    have hfinishes := hfirm.finishes (hsaved rfl) (.refl _) (Nat.le_refl _)
    have hg := gist_finish m₁
    exact ⟨hfinishes.of_gist hg,
      .inr ((congrArg Core.saved (gist_eq_iff.1 hg).1).trans (hsaved rfl))⟩

/-! ## Leading -/

theorem Firm.recorded (h : m.Firm x) {r : Replica} {now : Instant}
    {advanced accepted more : Bool} (hr : m.replica.Advances r) (hb : r.commitIndex ≤ x.length)
    (hidle : advanced = false → r.commitIndex = m.replica.commitIndex)
    (run : m.recorded now r advanced accepted = .ok (m', more)) :
    Finishes r m' x ∧ (m'.saved = m.saved ∨ m'.saved = r.ballot) := by
  unfold Member.recorded at run
  split at run
  · next m₁ err hsave =>
    cases run
    obtain ⟨hfinishes, hsaved, -⟩ := h.halts_unsaved hr hb hsave
    exact ⟨hfinishes, .inl hsaved⟩
  · next m₁ hsave =>
    obtain ⟨hmirrors, rfl, hstopped, -, hcommit, hsaved, -⟩ :=
      (h.toMirrors.advance hr hb).saveBallot hsave
    obtain ⟨m₂, hfinishes, hsaved', run⟩ := hmirrors.settle (hsaved rfl)
      (fun hfalse => ⟨hr.same.applied.trans (h.settled.trans (hidle hfalse).symm),
        hcommit.trans (h.commit.trans (hidle hfalse).symm)⟩) run
    cases run
    have hg := gist_finish m₂
    exact ⟨hfinishes.of_gist hg, .inr ((congrArg Core.saved (gist_eq_iff.1 hg).1).trans
      (hsaved'.trans (hsaved rfl)))⟩

/-- The log and the commit index move on in memory, what is applied stays. -/
theorem Knows.move (h : m.Knows x) (hr : m.replica.Moves m'.replica x y)
    (hm : m'.machine = m.machine) (hi : m'.image = m.image) : m'.Knows y := by
  have happ : x.take m.replica.lastApplied <+: y := (take_prefix_take h.committed).trans hr.common
  have hlen : m.replica.lastApplied ≤ x.length := Nat.le_trans h.committed h.bounded
  have htake := take_of_isPrefix happ (Nat.le_of_eq (List.length_take_of_le hlen).symm)
  rw [List.take_take, Nat.min_self] at htake
  constructor
  · exact hr.spans
  · rw [hr.base, hr.applied]; exact h.applied
  · rw [hr.applied]; exact Nat.le_trans h.committed hr.commit
  · exact hr.bounded
  · rw [hm, hr.applied, ← htake]; exact h.machine
  · rw [hr.applied, hr.base, ← htake]; exact h.executed
  · rw [hi, hr.base]
    exact h.image.congr h.spans.base ((take_prefix_take h.applied).trans happ)

/-- An entry is at the end of the log, in memory and on disk. -/
theorem Mirrors.concat (h : m.Mirrors x) {e : Entry} (hs : Sane (x ++ [e])) (n : Nat) :
    Mirrors { m with
      disk := { m.disk with tried := n, contents := m.disk.contents.after (.append [e]) }
      replica := { m.replica with log := m.replica.log ++ [e] } } (x ++ [e]) := by
  have hlen : x.length ≤ (x ++ [e]).length := by
    rw [List.length_append]
    exact Nat.le_add_right _ _
  have hpre : ∀ k, x.take k <+: x ++ [e] := fun k =>
    (List.take_prefix _ _).trans (List.prefix_append _ _)
  refine ⟨h.toKnows.move ⟨h.spans.concat hs, rfl, rfl, hpre _, Nat.le_refl _,
    Nat.le_trans h.bounded hlen⟩ rfl rfl, ?_, h.pictured, h.noted, h.stored, h.readable⟩
  refine h.yields.move hs (hpre _) (Nat.le_trans h.yields.bounded hlen) (.inr ⟨[e], rfl, ?_⟩)
  rw [List.drop_append_of_le_length h.yields.reached]

/-- The rest of a proposal, once its entry is in the log. -/
theorem Mirrors.enlist {β : Type} (h : m.Mirrors x) (hsaved : m.saved = m.replica.ballot)
    (hcaught : m.CaughtUp) {index : Nat} {w : Waiter}
    {r : Replica} {advanced : Bool}
    (hadv : (m.await index w).replica.advanceCommit = .ok (r, advanced))
    (hb : m.replica.advanceCommit = .ok (r, advanced) → r.commitIndex ≤ x.length)
    {now : Instant} {f : Member MemoryDisk → Except Fault β} {b : β}
    (run : (if advanced then applyOrHalt { m.await index w with replica := r } now >>= f
      else f { m.await index w with replica := r }) = .ok b) :
    m.replica.advanceCommit = .ok (r, advanced) ∧
      ∃ m₁, Finishes r m₁ x ∧ m₁.saved = m.saved ∧ f m₁ = .ok b := by
  obtain ⟨hc, hstop⟩ := gist_eq_iff.1 (gist_await m index w)
  generalize m.await index w = m₀ at hadv run hc hstop
  obtain ⟨hr₀, hd₀, -, -, hs₀⟩ := core_eq_iff.1 hc
  have hadv' : m.replica.advanceCommit = .ok (r, advanced) := hr₀ ▸ hadv
  obtain ⟨hadvances, hidle⟩ := advances_advanceCommit hadv
  have hballot : r.ballot = m.replica.ballot :=
    (Replica.stance_eq_iff.1 (Replica.stance_advanceCommit hadv')).2.2.2.1
  obtain ⟨happlied, hcommit⟩ := hcaught
  obtain ⟨m₁, hfinishes, hsaved', run⟩ := ((h.of_core hc).advance hadvances (hb hadv')).settle
    (hs₀.trans (hsaved.trans hballot.symm)) (fun hfalse => by
      have hsame := (hidle hfalse).trans (congrArg Replica.commitIndex hr₀)
      refine ⟨?_, ?_⟩
      · exact hadvances.same.applied.trans
          ((congrArg Replica.lastApplied hr₀).trans (happlied.trans hsame.symm))
      · simp only [hd₀]
        exact hcommit.trans hsame.symm) run
  exact ⟨hadv', m₁, hfinishes, hsaved'.trans hs₀, run⟩

/-- A proposal is refused and changes no entry, or its entry is at the end of the history. -/
theorem Firm.propose (h : m.Firm x) {now : Instant} {command : Command} {ticket : Nat}
    {result : Except ServiceError Nat}
    (hpos : m.replica.role = .leader → 0 < m.replica.term)
    (hsworn : m.replica.role = .leader → m.saved = m.replica.ballot)
    (hb : m.replica.role = .leader → ∀ r advanced, Replica.advanceCommit { m.replica with
      log := m.replica.log ++ [⟨m.replica.term, x.length + 1, command⟩] } = .ok (r, advanced) →
        r.commitIndex ≤ x.length + 1)
    (run : m.propose now command ticket = .ok (m', result)) :
    (m'.Firm x ∧ m'.replica = m.replica ∧ m'.saved = m.saved ∧ m'.stopped = m.stopped) ∨
      (m.replica.role = .leader ∧ x.length + 1 ≤ maxWord ∧
        ∃ r advanced, Replica.advanceCommit { m.replica with
          log := m.replica.log ++ [⟨m.replica.term, x.length + 1, command⟩] } = .ok (r, advanced) ∧
        Finishes r m' (x ++ [⟨m.replica.term, x.length + 1, command⟩]) ∧ m'.saved = m.saved) := by
  unfold Member.propose at run
  obtain ⟨proposed, hp, run⟩ := bind_eq_ok.1 run
  rcases Replica.propose_cases hp with ⟨-, rfl⟩ | ⟨hrole, hword, rfl⟩
  · cases run
    exact .inl ⟨h, rfl, rfl, rfl⟩
  · rw [h.spans.lastIndex_eq] at run hword
    simp only at run
    split at run
    · next m₁ err hw =>
      cases run
      rcases write_cases hw with ⟨hnone, -⟩ | ⟨-, -, rfl⟩
      · cases hnone
      · have hspares : Spares m { m with disk := { m.disk with tried := m.disk.tried + 1 } } :=
          ⟨rfl, rfl, rfl, Nat.le_succ _, rfl, rfl⟩
        exact .inl ⟨⟨⟨h.toKnows.congr rfl rfl rfl, h.yields, h.pictured, h.noted, h.stored,
          h.readable⟩, h.settled, h.commit, h.offered.spares hspares rfl⟩, rfl, rfl, rfl⟩
    · next m₁ hw =>
      obtain rfl := write_ok hw
      obtain ⟨⟨r, advanced⟩, hadv, run⟩ := bind_eq_ok.1 run
      generalize he : (⟨m.replica.term, x.length + 1, command⟩ : Entry) = e at hadv run hb ⊢
      have hterm : e.term = m.replica.term := he ▸ rfl
      have hindex : e.index = x.length + 1 := he ▸ rfl
      have hsane : Sane (x ++ [e]) := h.spans.sane.concat hindex (hterm ▸ hpos hrole)
      have hmirrors := h.toMirrors.concat hsane (m.disk.tried + 1)
      obtain ⟨hadv, m₂, hfinishes, hsaved, run⟩ := hmirrors.enlist (hsworn hrole)
        ⟨h.settled, h.commit⟩ hadv (fun hadv => by
          rw [List.length_append, List.length_singleton]
          exact hb hrole r advanced hadv) run
      cases run
      have hg := gist_finish m₂
      exact .inr ⟨hrole, hword, r, advanced, hadv, hfinishes.of_gist hg,
        (congrArg Core.saved (gist_eq_iff.1 hg).1).trans hsaved⟩

/-- A compaction that gets through. -/
theorem Firm.takeImage (h : m.Firm x) {now : Instant} (run : m.takeImage now = .ok (m', none)) :
    m'.Firm x ∧ Replica.SameButLog m.replica m'.replica ∧
      m.replica.snapshotIndex ≤ m'.replica.snapshotIndex ∧ Spares m m' := by
  obtain ⟨hcompacts, hnone⟩ := h.toMirrors.takeImage run
  have hmirrors := hnone rfl
  have hsame := hcompacts.replica
  refine ⟨⟨hmirrors, ?_, ?_, h.offered.spares hcompacts.spares hsame.ballot⟩, hsame, ?_,
    hcompacts.spares⟩
  · exact hcompacts.applied.trans (h.settled.trans hsame.commit.symm)
  · exact hcompacts.commit.trans (h.commit.trans hsame.commit.symm)
  · exact hmirrors.base_eq ▸ hcompacts.leaves.low

/-! ## Following -/

/-- The ballot and the log are written, however the log changed, or a write failed and the log is as
it was. -/
theorem persistEntries_cases {change : Option LogChange} {e : Option IoError}
    (run : m.persistEntries change = .ok (m', e)) (hstored : m.disk.contents.ballot = m.saved)
    (hs : m.replica.Spans y) (hr : Replica.Reports x y change)
    (hb : m.replica.snapshotIndex ≤ x.length) :
    ∃ n b log, m' = { m with
        saved := b
        disk := { m.disk with
          tried := n, contents := { m.disk.contents with ballot := b, log := log } } } ∧
      ((e = none ∧ b = m.replica.ballot ∧ (log = y.drop m.replica.snapshotIndex ∨
          ∃ es, log = m.disk.contents.log ++ es ∧
            y.drop m.replica.snapshotIndex = x.drop m.replica.snapshotIndex ++ es)) ∨
        (e ≠ none ∧ (b = m.saved ∨ b = m.replica.ballot) ∧ log = m.disk.contents.log)) := by
  unfold Member.persistEntries at run
  split at run
  · next m₁ err hsave =>
    cases run
    obtain ⟨n, -, ⟨hnone, -⟩ | ⟨hne, -, rfl⟩⟩ := saveBallot_cases hsave hstored
    · cases hnone
    · refine ⟨n, m.saved, m.disk.contents.log, ?_, .inr ⟨hne, .inl rfl, rfl⟩⟩
      rw [← hstored]
  · next m₁ hsave =>
    obtain ⟨n, -, ⟨-, rfl⟩ | ⟨hne, -⟩⟩ := saveBallot_cases hsave hstored
    swap
    · exact absurd rfl hne
    split at run
    · obtain rfl : y = x := hr
      cases run
      exact ⟨n, _, m.disk.contents.log, rfl,
        .inl ⟨rfl, rfl, .inr ⟨[], (List.append_nil _).symm, (List.append_nil _).symm⟩⟩⟩
    · next start =>
      obtain ⟨rfl, hpre⟩ := hr
      obtain ⟨es, hes, run⟩ := bind_eq_ok.1 run
      have hes' : es = y.drop x.length := by
        have hlt : m.replica.snapshotIndex < x.length + 1 := Nat.lt_succ_of_le hb
        have hes := hs.entriesFrom_eq hlt hes
        rwa [Nat.add_sub_cancel] at hes
      rcases write_cases (Except.ok.inj run) with ⟨rfl, rfl⟩ | ⟨hne, -, rfl⟩
      · refine ⟨n + 1, _, _, rfl, .inl ⟨rfl, rfl, .inr ⟨es, rfl, ?_⟩⟩⟩
        -- what was there, and what is new
        obtain ⟨t, rfl⟩ := hpre
        rw [hes', List.drop_left, List.drop_append_of_le_length hb]
      · exact ⟨n + 1, _, _, rfl, .inr ⟨hne, .inr rfl, rfl⟩⟩
    · rcases write_cases (Except.ok.inj run) with ⟨rfl, rfl⟩ | ⟨hne, -, rfl⟩
      · exact ⟨n + 1, _, _, rfl, .inl ⟨rfl, rfl, .inl hs.log⟩⟩
      · exact ⟨n + 1, _, _, rfl, .inr ⟨hne, .inr rfl, rfl⟩⟩

/-- What a request leaves that changes no entry: the history is what it was, and a member that
answers has not stopped. -/
structure Declines (m : Member MemoryDisk) (r : Replica) (m' : Member MemoryDisk) (x : History)
    (reply : Except ServiceError Message) (answer : Message) : Prop where
  finishes : Finishes r m' x
  saved : m'.saved = m.saved ∨ m'.saved = r.ballot
  answers : ∀ message, reply = .ok message → m'.stopped = false ∧ message = answer

/-- The member has moved to another history, on its disk too. -/
theorem Mirrors.follow (h : m.Mirrors x) {r : Replica} (hr : m.replica.Moves r x y)
    (hc : m₁.core = core { m with replica := r }) (n : Nat) {log : List Entry}
    (hlog : log = y.drop m.disk.contents.base ∨ ∃ es, log = m.disk.contents.log ++ es ∧
      y.drop m.disk.contents.base = x.drop m.disk.contents.base ++ es) :
    Mirrors { m₁ with
      saved := m₁.replica.ballot
      disk := { m₁.disk with
        tried := n
        contents := { m₁.disk.contents with ballot := m₁.replica.ballot, log := log } } } y := by
  obtain ⟨hr₁, hd₁, hm₁, hi₁, -⟩ := core_eq_iff.1 hc
  simp only at hr₁ hd₁ hm₁ hi₁
  have hpre : x.take m.disk.contents.base <+: y := by
    rw [h.base_eq]
    exact (take_prefix_take (Nat.le_trans h.applied h.committed)).trans hr.common
  have hmoved := h.yields.move hr.spans.sane hpre
    (Nat.le_trans h.noted (Nat.le_trans hr.commit hr.bounded)) hlog
  refine ⟨h.toKnows.move (hr₁ ▸ hr) hm₁ hi₁, ?_, ?_, ?_, rfl, ?_⟩ <;> simp only [hr₁, hd₁, hi₁]
  · exact hmoved.rebind _
  · exact h.pictured
  · exact Nat.le_trans h.noted hr.commit
  · exact h.readable

/-- The window of a request takes the replica to the leader's history, as far as the window goes. -/
theorem Knows.moves (h : m.Knows x) {r : Replica} {q : AppendRequest} {advanced : Bool}
    (hq : Replica.Shows q y) (hc : x.take m.replica.commitIndex <+: y)
    (hr : ∃ log commit,
      r = { m.replica.accept q.term q.leader with log := log, commitIndex := commit })
    (hs : r.Spans (adopt x (y.take (q.prevIndex + q.entries.length))))
    (hf : Replica.CommitFollowed m.replica r (min q.leaderCommit (q.prevIndex + q.entries.length))
      advanced) :
    m.replica.Moves r x (adopt x (y.take (q.prevIndex + q.entries.length))) := by
  have hacc := Replica.sameLog_accept m.replica q.term q.leader
  have hxy : x.take m.replica.commitIndex <+:
      adopt x (y.take (q.prevIndex + q.entries.length)) :=
    prefix_adopt_of_common (List.take_prefix _ y) (List.take_prefix _ x) hc
  have hlen : (x.take m.replica.commitIndex).length = m.replica.commitIndex :=
    List.length_take_of_le h.bounded
  have hlen' : (y.take (q.prevIndex + q.entries.length)).length =
    q.prevIndex + q.entries.length := List.length_take_of_le hq.fits
  have hle := hxy.length_le
  have hle' := (prefix_adopt x (y.take (q.prevIndex + q.entries.length))).length_le
  obtain ⟨log, commit, rfl⟩ := hr
  have hlow : m.replica.commitIndex ≤ commit :=
    hf.elim (fun hf => Nat.le_of_eq hf.2.symm) fun hf => Nat.le_of_lt hf.2.1
  have hhigh : commit ≤ (adopt x (y.take (q.prevIndex + q.entries.length))).length := by
    rcases hf with ⟨-, hf⟩ | ⟨-, -, hf⟩ <;> simp only at hf <;> omega
  exact ⟨hs, hacc.base, hacc.applied, hxy, hlow, hhigh⟩

/-- The ballot and the log of a replica that has moved are written, or a write failed, and at most
the ballot is new. -/
theorem Mirrors.persistEntries (h : m.Mirrors x) {r : Replica} {change : Option LogChange}
    {reset : Bool} {e : Option IoError} (hmoves : m.replica.Moves r x y)
    (hreports : Replica.Reports x y change)
    (run : (noteLeader { m with replica := r } reset).persistEntries change = .ok (m', e)) :
    (e = none ∧ m'.Mirrors y ∧ m'.replica = r ∧ m'.saved = r.ballot ∧
      m'.disk.contents.commit = m.disk.contents.commit) ∨
    (e ≠ none ∧ (m'.saved = m.saved ∨ m'.saved = r.ballot) ∧
      m'.disk.unreadable = m.disk.unreadable ∧
      m'.disk.contents = { m.disk.contents with ballot := m'.saved }) := by
  obtain ⟨hcore, -⟩ := gist_eq_iff.1 (gist_noteLeader { m with replica := r } reset)
  generalize noteLeader { m with replica := r } reset = m₁ at run hcore
  obtain ⟨hr₁, hd₁, -, -, hs₁⟩ := core_eq_iff.1 hcore
  simp only at hr₁ hd₁ hs₁
  have hbase : m₁.replica.snapshotIndex = m.replica.snapshotIndex := by rw [hr₁, hmoves.base]
  obtain ⟨n, b, log, rfl, ⟨rfl, rfl, hlog⟩ | ⟨hne, hb, rfl⟩⟩ := persistEntries_cases run
    (by rw [hd₁, hs₁]; exact h.stored) (by rw [hr₁]; exact hmoves.spans) hreports
    (by rw [hbase]; exact h.spans.base)
  · rw [hbase, ← h.base_eq, hd₁] at hlog
    exact .inl ⟨rfl, h.follow hmoves hcore n hlog, hr₁, by rw [← hr₁], by rw [← hd₁]⟩
  · rw [hr₁, hs₁] at hb
    exact .inr ⟨hne, hb, by rw [← hd₁], by rw [← hd₁]⟩

/-- The rest of an append request, once it is known what it made of the log. If the log was not
written, the member stops with the history that it had. -/
theorem Firm.merge (h : m.Firm x) {r : Replica} {o : AppendOutcome} {now : Instant}
    {q : AppendRequest} {reply : Except ServiceError Message}
    (hr : m.replica.takeEntries q = .ok (r, o)) (hmoves : m.replica.Moves r x y)
    (hreports : Replica.Reports x y o.change)
    (hidle : o.commitAdvanced = false → r.commitIndex = m.replica.commitIndex)
    (run : m.answerAppend now q = .ok (m', reply)) :
    (m'.stopped = true ∧ (∃ e, reply = .error e) ∧ m'.disk.contents.ballot = m'.saved ∧
      (m'.saved = m.saved ∨ m'.saved = r.ballot) ∧
      m'.disk.Leaves x m.replica.snapshotIndex m.replica.commitIndex) ∨
    (Finishes r m' y ∧ m'.saved = r.ballot ∧
      ∀ message, reply = .ok message → m'.stopped = false ∧
        message = .appendReply r.term o.success) := by
  unfold Member.answerAppend at run
  obtain ⟨⟨r', o'⟩, hr', run⟩ := bind_eq_ok.1 run
  obtain ⟨rfl, rfl⟩ : r = r' ∧ o = o' := by simpa using hr.symm.trans hr'
  obtain ⟨⟨m₁, e⟩, hm₁, run⟩ := bind_eq_ok.1 run
  rcases h.toMirrors.persistEntries hmoves hreports hm₁ with
    ⟨rfl, hmirrors, rfl, hsaved₁, hcommit⟩ | ⟨hne, hsaved₁, hu, hd⟩
  · obtain ⟨m₂, hfinishes, hsaved, run⟩ := hmirrors.settle hsaved₁
      (fun hfalse => ⟨hmoves.applied.trans (h.settled.trans (hidle hfalse).symm),
        hcommit.trans (h.commit.trans (hidle hfalse).symm)⟩) run
    cases run
    have hg := gist_finish m₂
    refine .inr ⟨hfinishes.of_gist hg,
      (congrArg Core.saved (gist_eq_iff.1 hg).1).trans (hsaved.trans hsaved₁), fun message hm => ?_⟩
    split at hm
    · cases hm
    · next hlive => exact ⟨Bool.not_eq_true _ ▸ hlive, (Except.ok.inj hm).symm⟩
  · cases e with
    | none => exact absurd rfl hne
    | some err =>
      cases run
      obtain ⟨hf, hsaved⟩ := h.halts (.refl _) .persistEntries (.storage err) hu hd
      exact .inl ⟨(halted m₁ _ _).2, ⟨_, rfl⟩, hf.stored, hsaved ▸ hsaved₁, hf.leaves⟩

/-- A request that changes no entry. -/
theorem Firm.keep (h : m.Firm x) {r : Replica} {o : AppendOutcome} {now : Instant}
    {q : AppendRequest} {reply : Except ServiceError Message}
    (hr : m.replica.takeEntries q = .ok (r, o)) (hsame : Replica.SameLog m.replica r)
    (hchange : o.change = none) (run : m.answerAppend now q = .ok (m', reply)) :
    Declines m r m' x reply (.appendReply r.term o.success) := by
  have hmoves : m.replica.Moves r x x := ⟨h.spans.of_sameLog hsame, hsame.base, hsame.applied,
    List.take_prefix _ _, Nat.le_of_eq hsame.commit.symm,
    Nat.le_trans (Nat.le_of_eq hsame.commit) h.bounded⟩
  rcases h.merge hr hmoves (by rw [hchange]; rfl) (fun _ => hsame.commit) run with
    ⟨hstop, ⟨e, rfl⟩, hstored, hsaved, hl⟩ | ⟨hf, hsaved, hreply⟩
  · rw [← hsame.base, ← hsame.commit] at hl
    exact ⟨⟨hstored, hl, fun hrun => nomatch hstop.symm.trans hrun⟩, hsaved, nofun⟩
  · exact ⟨hf, .inr hsaved, hreply⟩

/-- An append request of an old term, or without an anchor, changes no entry; nor does one that
cannot be written. Any other makes the member adopt the leader's history up to the window's end. -/
theorem Firm.answerAppend (h : m.Firm x) {now : Instant} {q : AppendRequest}
    {reply : Except ServiceError Message} (hm : m.replica.term ≤ q.term → Replica.Matching x y)
    (hy : Sane y) (hq : Replica.Shows q y)
    (hc : m.replica.term ≤ q.term → x.take m.replica.commitIndex <+: y)
    (run : m.answerAppend now q = .ok (m', reply)) :
    (q.term < m.replica.term ∧
      Declines m m.replica m' x reply (.appendReply m.replica.term false)) ∨
    (m.replica.term ≤ q.term ∧
      Declines m (m.replica.accept q.term q.leader) m' x reply (.appendReply q.term false)) ∨
    (m.replica.term ≤ q.term ∧ ∃ commit, m.replica.commitIndex ≤ commit ∧
      (commit = m.replica.commitIndex ∨
        commit ≤ min q.leaderCommit (q.prevIndex + q.entries.length)) ∧
      Finishes { m.replica.accept q.term q.leader with commitIndex := commit } m'
        (adopt x (y.take (q.prevIndex + q.entries.length))) ∧
      m'.saved = (m.replica.accept q.term q.leader).ballot ∧
      ∀ message, reply = .ok message → m'.stopped = false ∧
        message = .appendReply q.term true) := by
  obtain ⟨⟨r, o⟩, hr, -⟩ := bind_eq_ok.1 run
  rcases Nat.lt_or_ge q.term m.replica.term with hlt | hge
  · have hstale : m.replica.takeEntries q = .ok (m.replica, ⟨false, false, none, false⟩) :=
      if_pos hlt
    exact .inl ⟨hlt, h.keep hstale (.refl _) rfl run⟩
  · have hacc := Replica.sameLog_accept m.replica q.term q.leader
    have hterm := (Replica.accept_spec hge q.leader).2
    rcases h.spans.takeEntries (hm hge) hy hq
      ((take_prefix_take (Nat.le_trans h.applied h.committed)).trans (hc hge)) hr with
      ⟨hlt, -⟩ | ⟨-, rfl, rfl⟩ | ⟨-, ⟨log, commit, rfl⟩, hs, hsuccess, hreports, hfollowed⟩
    · omega
    · have hkept := h.keep hr hacc rfl run
      rw [hterm] at hkept
      exact .inr (.inl ⟨hge, hkept⟩)
    · have hmoves := h.toKnows.moves hq (hc hge) ⟨log, commit, rfl⟩ hs hfollowed
      have hcommit : (commit = m.replica.commitIndex ∨
          commit ≤ min q.leaderCommit (q.prevIndex + q.entries.length)) ∧
          (o.commitAdvanced = false → commit = m.replica.commitIndex) := by
        rcases hfollowed with ⟨-, heq⟩ | ⟨hadv, -, hbound⟩
        · exact ⟨.inl heq, fun _ => heq⟩
        · exact ⟨.inr hbound, fun hfalse => nomatch hadv.symm.trans hfalse⟩
      obtain ⟨hhigh, hidle⟩ := hcommit
      rcases h.merge hr hmoves hreports hidle run with
        ⟨hstop, ⟨e, rfl⟩, hstored, hsaved, hl⟩ | ⟨hf, hsaved, hreply⟩
      · rw [← hacc.base, ← hacc.commit] at hl
        exact .inr (.inl ⟨hge, ⟨hstored, hl, fun hrun => nomatch hstop.symm.trans hrun⟩, hsaved,
          nofun⟩)
      · refine .inr (.inr ⟨hge, commit, hmoves.commit, hhigh,
          ⟨hf.stored, hf.leaves, fun hrun => ?_⟩, hsaved, ?_⟩)
        · obtain ⟨hs', hfirm, hsame⟩ := hf.runs hrun
          exact ⟨hs', hfirm, .trans ⟨log, _, _, _, rfl⟩ hsame⟩
        · rw [hsuccess] at hreply
          exact hterm ▸ hreply

/-! ## Images -/

/-- An image is written whole, or its disk has as much of it as came before the write that
failed. -/
theorem install_cases {image : Image} {e : Option IoError} (run : m.install image = (m', e)) :
    (e = none ∧ ∃ n, m' = { m with
      machine := Image.restore image.entries
      image := some image
      disk := { m.disk with
        tried := n
        contents := { m.disk.contents with
          image := some image, log := m.replica.log, commit := m.replica.commitIndex } } }) ∨
    (e ≠ none ∧ m'.saved = m.saved ∧ m'.disk.unreadable = m.disk.unreadable ∧
      (m'.disk.contents = m.disk.contents ∨
        m'.disk.contents = { m.disk.contents with image := some image } ∨
        m'.disk.contents =
          { m.disk.contents with image := some image, log := m.replica.log })) := by
  unfold Member.install at run
  split at run
  · next m₁ err hw =>
    cases run
    rcases write_cases hw with ⟨hnone, -⟩ | ⟨hne, -, rfl⟩
    · cases hnone
    · exact .inr ⟨hne, rfl, rfl, .inl rfl⟩
  · next m₁ hw =>
    obtain rfl := write_ok hw
    simp only at run
    split at run
    · next m₂ err hw' =>
      cases run
      rcases write_cases hw' with ⟨hnone, -⟩ | ⟨hne, -, rfl⟩
      · cases hnone
      · exact .inr ⟨hne, rfl, rfl, .inr (.inl rfl)⟩
    · next m₂ hw' =>
      obtain rfl := write_ok hw'
      split at run
      · next m₃ err hw'' =>
        cases run
        rcases write_cases hw'' with ⟨hnone, -⟩ | ⟨hne, -, rfl⟩
        · cases hnone
        · exact .inr ⟨hne, rfl, rfl, .inr (.inr rfl)⟩
      · next m₃ hw'' =>
        obtain rfl := write_ok hw''
        cases run
        exact .inl ⟨rfl, _, rfl⟩

/-- The ballot, and with it what `install_cases` says of the image. -/
theorem persistImage_cases {installed : Bool} {image : Image} {e : Option IoError}
    (run : m.persistImage installed image = (m', e)) (hstored : m.disk.contents.ballot = m.saved) :
    (e = none ∧ ∃ n, (installed = false ∧ m' = { m with
        saved := m.replica.ballot
        disk := { m.disk with
          tried := n, contents := { m.disk.contents with ballot := m.replica.ballot } } }) ∨
      (installed = true ∧ m' = { m with
        saved := m.replica.ballot
        machine := Image.restore image.entries
        image := some image
        disk := { m.disk with
          tried := n
          contents := ⟨m.replica.ballot, m.replica.log, m.replica.commitIndex, some image⟩ } })) ∨
    (e ≠ none ∧ m'.disk.unreadable = m.disk.unreadable ∧
      (((m'.saved = m.saved ∨ m'.saved = m.replica.ballot) ∧
          m'.disk.contents = { m.disk.contents with ballot := m'.saved }) ∨
        (installed = true ∧ m'.saved = m.replica.ballot ∧
          (m'.disk.contents =
              { m.disk.contents with ballot := m.replica.ballot, image := some image } ∨
            m'.disk.contents = { m.disk.contents with
              ballot := m.replica.ballot, image := some image, log := m.replica.log })))) := by
  unfold Member.persistImage at run
  split at run
  · next m₁ err hsave =>
    cases run
    obtain ⟨n, -, ⟨hnone, -⟩ | ⟨hne, -, rfl⟩⟩ := saveBallot_cases hsave hstored
    · cases hnone
    · refine .inr ⟨hne, rfl, .inl ⟨.inl rfl, ?_⟩⟩
      simp only [← hstored]
  · next m₁ hsave =>
    obtain ⟨n, -, ⟨-, rfl⟩ | ⟨hne, -⟩⟩ := saveBallot_cases hsave hstored
    swap
    · exact absurd rfl hne
    split at run
    · next htrue =>
      rcases install_cases run with ⟨rfl, n', rfl⟩ | ⟨hne, hs, hu, hd | hd⟩
      · exact .inl ⟨rfl, n', .inr ⟨htrue, rfl⟩⟩
      · exact .inr ⟨hne, hu, .inl ⟨.inr hs, by rw [hd, hs]⟩⟩
      · exact .inr ⟨hne, hu, .inr ⟨htrue, hs, hd⟩⟩
    · next hfalse =>
      cases run
      exact .inl ⟨rfl, n, .inl ⟨Bool.not_eq_true _ ▸ hfalse, rfl⟩⟩

/-- Making room for an image of the leader's history gives the replica that history. -/
theorem Knows.rebase (h : m.Knows x) {r : Replica} {term : Nat} {leader : NodeId} {image : Image}
    (hm : Replica.Matching x y) (hy : Sane y) (hn : image.lastIndex ≤ y.length)
    (hi : Pictures (some image) y image.lastIndex) (hlt : m.replica.commitIndex < image.lastIndex)
    (hr : (m.replica.accept term leader).rebase image.lastIndex image.lastTerm = .ok r) :
    r.Imaged (adopt x (y.take image.lastIndex)) image ∧
      Replica.SameButLog
        { m.replica.accept term leader with commitIndex := image.lastIndex } r := by
  have hacc := Replica.sameLog_accept m.replica term leader
  have hbase : (m.replica.accept term leader).snapshotIndex < image.lastIndex := by
    rw [hacc.base]
    exact Nat.lt_of_le_of_lt (Nat.le_trans h.applied h.committed) hlt
  have hterm : image.lastTerm = y.termAt image.lastIndex := hi.2.1
  rw [hterm] at hr
  obtain ⟨⟨log, rfl⟩, hs⟩ := (h.spans.of_sameLog hacc).rebase hm hy hn hbase hr
  exact ⟨⟨hs, hi.congr hn (prefix_adopt x (y.take image.lastIndex)), rfl, rfl, rfl⟩,
    _, _, _, _, rfl⟩

/-- A member that has nothing but an image and the log above it. -/
theorem Firm.of_image {image : Image} {n : Nat} (h : m.replica.Imaged x image)
    (hu : m.disk.unreadable = false) :
    Firm { m with
      saved := m.replica.ballot
      machine := Image.restore image.entries
      image := some image
      disk := { m.disk with
        tried := n
        contents := ⟨m.replica.ballot, m.replica.log, m.replica.commitIndex, some image⟩ } } x := by
  have hi := h.pictured
  have hk : image.lastIndex ≤ x.length := h.base ▸ h.spans.base
  refine ⟨⟨⟨h.spans, ?_, ?_, ?_, ?_, ?_, ?_⟩, ⟨h.spans.sane, hk, ?_, hi, [], nofun, ?_⟩, rfl,
    Nat.le_refl _, rfl, hu⟩, ?_, rfl, .inl rfl⟩
  · exact Nat.le_of_eq (h.base.trans h.applied.symm)
  · exact Nat.le_of_eq (h.applied.trans h.commit.symm)
  · exact Nat.le_trans (Nat.le_of_eq h.commit) hk
  · simp only [h.applied, hi.2.2, Image.restore_fold, List.nil_append]
  · intro e he
    simp only [h.applied, h.base] at he
    rw [List.drop_eq_nil_of_le (List.length_take_le _ _)] at he
    cases he
  · simp only [h.base]
    exact hi
  · exact Nat.le_trans (Nat.le_of_eq h.commit) hk
  · rw [List.nil_append]
    exact h.spans.log.trans (congrArg x.drop h.base)
  · exact h.applied.trans h.commit.symm

/-- The image is on the disk, and the log that was there before. -/
theorem Firm.leaves_image (h : m.Firm x) {image : Image} {b : Ballot} {d : MemoryDisk} (hy : Sane y)
    (hn : image.lastIndex ≤ y.length) (hi : Pictures (some image) y image.lastIndex)
    (hlt : m.replica.commitIndex < image.lastIndex) (hu : d.unreadable = false)
    (hd : d.contents = { m.disk.contents with ballot := b, image := some image }) :
    d.Leaves (graft x (y.take image.lastIndex)) image.lastIndex image.lastIndex := by
  have hlen : (y.take image.lastIndex).length = image.lastIndex := List.length_take_of_le hn
  have hpre := prefix_graft x (y.take image.lastIndex)
  have hle := hpre.length_le
  have hbase : m.disk.contents.base = m.replica.snapshotIndex := h.base_eq
  have hcommit := h.commit
  have happlied := h.applied
  have hcommitted := h.committed
  have hover := h.yields.overlay (i := image) (by omega)
    (h.spans.sane.graft (hy.of_isPrefix (List.take_prefix image.lastIndex y))) (by omega) (by omega)
    (hi.congr hn hpre) (drop_graft x _ (Nat.le_of_eq hlen))
  refine ⟨?_, ?_, ?_, hu⟩ <;> rw [hd]
  · exact hover.rebind b
  · exact Nat.le_refl _
  · have hreach : max image.lastIndex m.disk.contents.commit ≤ image.lastIndex := by omega
    exact hreach

/-- The image and the log above it are on the disk, and the commit index that was there before. -/
theorem Firm.leaves_log (h : m.Firm x) {r : Replica} {image : Image} {b : Ballot} {d : MemoryDisk}
    (hr : r.Imaged y image) (hlt : m.replica.commitIndex < image.lastIndex)
    (hu : d.unreadable = false)
    (hd : d.contents = { m.disk.contents with ballot := b, image := some image, log := r.log }) :
    d.Leaves y image.lastIndex image.lastIndex := by
  have hcommit := h.commit
  have hn : image.lastIndex ≤ y.length := hr.base ▸ hr.spans.base
  have hlog : r.log = y.drop image.lastIndex := hr.spans.log.trans (congrArg y.drop hr.base)
  refine ⟨?_, ?_, ?_, hu⟩ <;> rw [hd]
  · have hbounded : m.disk.contents.commit ≤ y.length := by omega
    exact ⟨hr.spans.sane, hn, hbounded, hr.pictured, [], nofun, hlog⟩
  · exact Nat.le_refl _
  · have hreach : max image.lastIndex m.disk.contents.commit ≤ image.lastIndex := by omega
    exact hreach

/-- A member that has the ballot of a replica with its log. -/
theorem Firm.rebind (h : m.Firm x) {r : Replica} (hr : Replica.SameLog m.replica r)
    (hc : m₁.core = core { m with replica := r }) (n : Nat) :
    Firm { m₁ with
      saved := m₁.replica.ballot
      disk := { m₁.disk with
        tried := n, contents := { m₁.disk.contents with ballot := m₁.replica.ballot } } } x := by
  obtain ⟨hr₁, hd₁, hm₁, hi₁, -⟩ := core_eq_iff.1 hc
  have hmirrors := h.toMirrors.advance hr.advances
    (Nat.le_trans (Nat.le_of_eq hr.commit) h.bounded)
  refine ⟨⟨hmirrors.toKnows.congr hr₁ hm₁ hi₁, ?_, ?_, ?_, rfl, ?_⟩, ?_, ?_, .inl rfl⟩ <;>
    simp only [hr₁, hd₁, hi₁]
  · exact h.yields.rebind _
  · exact h.pictured
  · exact Nat.le_trans h.noted (Nat.le_of_eq hr.commit.symm)
  · exact h.readable
  · exact hr.applied.trans (h.settled.trans hr.commit.symm)
  · exact h.commit.trans hr.commit.symm

/-- The answer is given when nothing has failed, else the member halts. -/
def Answers (m : Member MemoryDisk) (e : Option IoError) (answer : Message)
    (m' : Member MemoryDisk) (reply : Except ServiceError Message) : Prop :=
  (e = none ∧ m' = m.finish ∧ reply = .ok answer) ∨
    (e ≠ none ∧ ∃ cause, m' = (m.halt .persistSnapshot cause).finish ∧ reply = .error cause)

/-- An install request is answered once all that it changed is written. If a write fails, the member
stops. -/
theorem answerInstall_cases {now : Instant} {q : InstallRequest}
    {reply : Except ServiceError Message} (run : m.answerInstall now q = .ok (m', reply)) :
    ∃ r o, ∃ (m₁ m₂ : Member MemoryDisk) (e : Option IoError),
      m.replica.takeImage q.term q.leader q.lastIndex q.lastTerm = .ok (r, o) ∧
      m₁.gist = gist { m with replica := r } ∧
      m₁.persistImage o.installed ⟨q.entries, q.lastIndex, q.lastTerm, now⟩ = (m₂, e) ∧
      Answers m₂ e (.installReply r.term) m' reply := by
  unfold Member.answerInstall at run
  obtain ⟨⟨r, o⟩, hr, run⟩ := bind_eq_ok.1 run
  refine ⟨r, o, noteLeader { m with replica := r } o.resetTimer, ?_⟩
  simp only at run
  split at run
  · next m₂ err hp =>
    cases run
    exact ⟨m₂, some err, hr, gist_noteLeader _ _, hp, .inr ⟨nofun, _, rfl, rfl⟩⟩
  · next m₂ hp =>
    cases run
    exact ⟨m₂, none, hr, gist_noteLeader _ _, hp, .inl ⟨rfl, rfl, rfl⟩⟩

/-- A request that is ignored writes the ballot at most. -/
theorem Firm.ignore (h : m.Firm x) (hrun : m.stopped = false) {r : Replica}
    (hr : Replica.SameLog m.replica r) (hg : m₁.gist = gist { m with replica := r })
    {image : Image} {e : Option IoError} (hp : m₁.persistImage false image = (m₂, e))
    {answer : Message} {reply : Except ServiceError Message} (ha : Answers m₂ e answer m' reply) :
    Declines m r m' x reply answer := by
  obtain ⟨hc, hstop⟩ := gist_eq_iff.1 hg
  obtain ⟨hr₁, hd₁, -, -, hs₁⟩ := core_eq_iff.1 hc
  simp only at hr₁ hd₁ hs₁ hstop
  have hstored : m₁.disk.contents.ballot = m₁.saved := by
    rw [hd₁, hs₁]
    exact h.stored
  rcases persistImage_cases hp hstored with
    ⟨rfl, n, ⟨-, rfl⟩ | ⟨htrue, -⟩⟩ | ⟨hne, hu, ⟨hsaved, hd⟩ | ⟨htrue, -⟩⟩
  · obtain ⟨-, rfl, rfl⟩ := ha.resolve_right fun hne => hne.1 rfl
    have hg' := gist_finish { m₁ with
      saved := m₁.replica.ballot
      disk := { m₁.disk with
        tried := n, contents := { m₁.disk.contents with ballot := m₁.replica.ballot } } }
    obtain ⟨hc', hstop'⟩ := gist_eq_iff.1 hg'
    have hfirm := h.rebind hr hc n
    rw [← hr₁]
    exact ⟨(hfirm.finishes rfl (.refl _) (Nat.le_refl _)).of_gist hg',
      .inr (congrArg Core.saved hc'),
      fun message hm => ⟨hstop'.trans (hstop.trans hrun), (Except.ok.inj hm).symm⟩⟩
  · cases htrue
  · obtain ⟨-, cause, rfl, rfl⟩ := ha.resolve_left fun hnone => hne hnone.1
    rw [hd₁] at hu hd
    rw [hs₁, hr₁] at hsaved
    obtain ⟨hfinishes, hs'⟩ := h.halts hr .persistSnapshot cause hu hd
    exact ⟨hfinishes, by rw [hs']; exact hsaved, nofun⟩
  · cases htrue

/-- A member that makes the leader's image its own. A write that fails leaves the member with what
it had, or its disk with the image and the log of before, or the one of after. -/
theorem Firm.adoptImage (h : m.Firm x) (hrun : m.stopped = false) {q : InstallRequest}
    {now : Instant} (hm : Replica.Matching x y) (hy : Sane y)
    (hn : q.lastIndex ≤ y.length)
    (hi : Pictures (some ⟨q.entries, q.lastIndex, q.lastTerm, now⟩) y q.lastIndex)
    (hge : m.replica.term ≤ q.term) (hlt : m.replica.commitIndex < q.lastIndex) {r : Replica}
    (hr : (m.replica.accept q.term q.leader).rebase q.lastIndex q.lastTerm = .ok r)
    (hg : m₁.gist = gist { m with replica := r }) {e : Option IoError}
    (hp : m₁.persistImage true ⟨q.entries, q.lastIndex, q.lastTerm, now⟩ = (m₂, e))
    {reply : Except ServiceError Message}
    (ha : Answers m₂ e (.installReply r.term) m' reply) :
    Declines m (m.replica.accept q.term q.leader) m' x reply (.installReply q.term) ∨
    (m'.saved = (m.replica.accept q.term q.leader).ballot ∧
      ((m'.stopped = true ∧ (∃ e, reply = .error e) ∧ m'.disk.contents.ballot = m'.saved ∧
          m'.disk.Leaves (graft x (y.take q.lastIndex)) q.lastIndex q.lastIndex) ∨
        (Finishes { m.replica.accept q.term q.leader with commitIndex := q.lastIndex } m'
            (adopt x (y.take q.lastIndex)) ∧
          ∀ message, reply = .ok message → m'.stopped = false ∧
            message = .installReply q.term))) := by
  have hacc := Replica.sameLog_accept m.replica q.term q.leader
  obtain ⟨himaged, hsame⟩ := h.toKnows.rebase hm hy hn hi hlt hr
  have hlow : m.replica.snapshotIndex ≤ q.lastIndex :=
    Nat.le_of_lt (Nat.lt_of_le_of_lt (Nat.le_trans h.applied h.committed) hlt)
  obtain ⟨hcore, hstop⟩ := gist_eq_iff.1 hg
  obtain ⟨hr₁, hd₁, -, -, hs₁⟩ := core_eq_iff.1 hcore
  simp only at hr₁ hd₁ hs₁ hstop
  have hstored : m₁.disk.contents.ballot = m₁.saved := by
    rw [hd₁, hs₁]
    exact h.stored
  have hu₁ : m₁.disk.unreadable = false := by rw [hd₁]; exact h.readable
  rcases persistImage_cases hp hstored with
    ⟨rfl, n, ⟨hfalse, -⟩ | ⟨-, rfl⟩⟩ | ⟨hne, hu, ⟨hsaved, hd⟩ | ⟨-, hsaved, hd⟩⟩
  · cases hfalse
  · -- all was written
    obtain ⟨-, rfl, rfl⟩ := ha.resolve_right fun hne => hne.1 rfl
    rw [← hr₁] at himaged hsame
    have hfinishes := (Firm.of_image (n := n) himaged hu₁).finishes rfl hsame
      (Nat.le_trans (Nat.le_of_eq hacc.base) (Nat.le_trans hlow (Nat.le_of_eq himaged.base.symm)))
    obtain ⟨hc₂, hstop₂⟩ := gist_eq_iff.1 (gist_finish _)
    refine .inr ⟨(congrArg Core.saved hc₂).trans hsame.ballot,
      .inr ⟨hfinishes.of_gist (gist_finish _),
        fun message hm => ⟨hstop₂.trans (hstop.trans hrun), ?_⟩⟩⟩
    rw [← (Replica.accept_spec hge q.leader).2, ← hsame.term, hr₁]
    exact (Except.ok.inj hm).symm
  · obtain ⟨-, cause, rfl, rfl⟩ := ha.resolve_left fun hnone => hne hnone.1
    rw [hd₁] at hu hd
    rw [hs₁, hr₁, hsame.ballot] at hsaved
    obtain ⟨hf, hs'⟩ := h.halts hacc .persistSnapshot cause hu hd
    exact .inl ⟨hf, by rw [hs']; exact hsaved, nofun⟩
  · obtain ⟨-, cause, rfl, rfl⟩ := ha.resolve_left fun hnone => hne hnone.1
    rw [hd₁, hr₁] at hd
    rw [hr₁] at hsaved
    obtain ⟨hc₂, hstop₂⟩ := halted m₂ .persistSnapshot cause
    obtain ⟨-, hd₂, -, -, hs₂⟩ := core_eq_iff.1 hc₂
    refine .inr ⟨hs₂.trans (hsaved.trans hsame.ballot), ?_⟩
    rcases hd with hd | hd
    · refine .inl ⟨hstop₂, ⟨_, rfl⟩, ?_, ?_⟩
      · rw [hd₂, hs₂, hd, hsaved]
      · rw [hd₂]
        exact h.leaves_image hy hn hi hlt (hu.trans hu₁) hd
    · refine .inr ⟨⟨?_, ?_, fun hrun => nomatch hstop₂.symm.trans hrun⟩, nofun⟩
      · rw [hd₂, hs₂, hd, hsaved]
      · rw [hd₂]
        exact (h.leaves_log himaged hlt (hu.trans hu₁) hd).mono
          (Nat.le_trans (Nat.le_of_eq hacc.base) hlow) (Nat.le_refl _)

/-- An install request of an old term, or of what is committed, changes no entry; nor does one whose
image cannot be written. Any other makes the member adopt the leader's history up to the image, or
its disk has the image and the log of before. -/
theorem Firm.answerInstall (h : m.Firm x) (hrun : m.stopped = false) {now : Instant}
    {q : InstallRequest} {reply : Except ServiceError Message}
    (hm : m.replica.term ≤ q.term → Replica.Matching x y) (hy : Sane y)
    (hn : q.lastIndex ≤ y.length) (ht : q.lastTerm = y.termAt q.lastIndex)
    (he : q.entries = Image.fold [] (y.take q.lastIndex))
    (run : m.answerInstall now q = .ok (m', reply)) :
    (q.term < m.replica.term ∧
      Declines m m.replica m' x reply (.installReply m.replica.term)) ∨
    (m.replica.term ≤ q.term ∧
      Declines m (m.replica.accept q.term q.leader) m' x reply (.installReply q.term)) ∨
    (m.replica.term ≤ q.term ∧ m.replica.commitIndex < q.lastIndex ∧
      m'.saved = (m.replica.accept q.term q.leader).ballot ∧
      ((m'.stopped = true ∧ (∃ e, reply = .error e) ∧ m'.disk.contents.ballot = m'.saved ∧
          m'.disk.Leaves (graft x (y.take q.lastIndex)) q.lastIndex q.lastIndex) ∨
        (Finishes { m.replica.accept q.term q.leader with commitIndex := q.lastIndex } m'
            (adopt x (y.take q.lastIndex)) ∧
          ∀ message, reply = .ok message → m'.stopped = false ∧
            message = .installReply q.term))) := by
  obtain ⟨r, o, m₁, m₂, e, hr, hg, hp, ha⟩ := answerInstall_cases run
  rcases takeImage_cases hr with ⟨hlt, rfl, ho⟩ | ⟨hge, -, rfl, ho⟩ | ⟨hge, hlt, hre, ho⟩ <;>
    rw [ho] at hp
  · exact .inl ⟨hlt, h.ignore hrun (.refl _) hg hp ha⟩
  · have hdeclines := h.ignore hrun (Replica.sameLog_accept _ _ _) hg hp ha
    rw [(Replica.accept_spec hge q.leader).2] at hdeclines
    exact .inr (.inl ⟨hge, hdeclines⟩)
  · rcases h.adoptImage hrun (hm hge) hy hn ⟨rfl, ht, he⟩ hge hlt hre hg hp ha with
      hdeclines | ⟨hsaved, hcases⟩
    · exact .inr (.inl ⟨hge, hdeclines⟩)
    · exact .inr (.inr ⟨hge, hlt, hsaved, hcases⟩)

end Member

end ReplicatedStore
