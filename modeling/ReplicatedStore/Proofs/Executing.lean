import ReplicatedStore.Proofs.EnduringRuns
/-!
# Where committed entries are executed

A node executes what is committed when it starts, and in the sections that commit: an append
request, a proposal, the answer of a peer (`World.Applies`). At all these points its disk yields the
history that it has in memory (`Chronicle.Endures.ready_applies`), although the section is not over.
-/
namespace ReplicatedStore

open History

/-- The disk yields the history that memory has, which could be read back whole. -/
structure Member.Ready (m : Member MemoryDisk) (x : History) : Prop extends Mirrors m x where
  valid : m.replica.settings.validate = .ok ()
  fits : x.length ≤ maxWord

/-- The points at which a node executes what is committed: when it has read its disk, and when an
append request, a proposal or an answer has committed something. -/
inductive World.Applies (c : Conditions) (w : World) (v : NodeId) : Member MemoryDisk → Prop
  | starting {d peers config m} (down : w.sites v = .down d)
      (member : (v :: peers).Perm c.members)
      (valid : MemberSettings.validate ⟨v, peers, config⟩ = .ok ())
      (read : (Member.blank ⟨v, peers, config⟩ d).load = .ok (.ok m)) : Applies c w v m
  | following {m r q r' o m₀} (up : w.sites v = .up m) (running : m.stopped = false)
      (sent : r ∈ w.requests) (here : r.receiver = v) (body : r.body = .appendRequest q)
      (taken : m.replica.takeEntries q = .ok (r', o))
      (written : (Member.noteLeader { m with replica := r' } o.resetTimer).persistEntries o.change =
        .ok (m₀, none))
      (advanced : o.commitAdvanced = true) : Applies c w v m₀
  | proposing {m command ticket r e m₀ r'} (up : w.sites v = .up m) (running : m.stopped = false)
      (admitted : c.admits command) (proposed : m.replica.propose command = .ok (some (r, e)))
      (written : m.write (.append [e]) = (m₀, none))
      (counted : (Member.await { m₀ with replica := r } e.index
        ⟨e.term, ticket⟩).replica.advanceCommit = .ok (r', true)) :
      Applies c w v { Member.await { m₀ with replica := r } e.index ⟨e.term, ticket⟩ with
        replica := r' }
  | recording {m r reply through term success r' m₀} (up : w.sites v = .up m)
      (running : m.stopped = false) (replied : (r, reply) ∈ w.replies) (here : r.sender = v)
      (covered : Member.sentThrough r.body = .ok through)
      (answer : reply = .appendReply term success ∨ reply = .installReply term ∧ success = true)
      (recorded : m.replica.recordAppend term success r.receiver through = .ok (r', true))
      (written : Member.saveBallot { m with replica := r' } = (m₀, none)) : Applies c w v m₀

namespace Chronicle.Endures

variable {H : Chronicle} {c : Conditions} {P : NodeId → Ballot → Prop} {w : World} {v : NodeId}
  {m m₀ : Member MemoryDisk} {f : History}

theorem ready (h : H.Endures c P w) (hruns : H.Runs c.members v m f) : m.Ready f :=
  ⟨hruns.firm.toMirrors, hruns.valid, by
    rw [hruns.grafted.length_eq]
    exact h.length_le (h.sound.upright v).rooted⟩

theorem ready_starting (h : H.Endures c P w) {d : MemoryDisk} (down : w.sites v = .down d)
    {s : MemberSettings} (hv : s.validate = .ok ())
    (hload : (Member.blank s d).load = .ok (.ok m)) : ∃ x, m.Ready x := by
  obtain ⟨f, hstores⟩ := h.down v d down
  obtain ⟨hmirrors, -, -, -, hsettings, -⟩ :=
    Member.load_yields hstores.yields hstores.readable hload
  refine ⟨f, hmirrors, ?_, ?_⟩
  · rw [hsettings, Member.settings_blank hv]
    exact hv
  · rw [hstores.grafted.length_eq]
    exact h.length_le (h.sound.upright v).rooted

theorem ready_following (h : H.Endures c P w) (up : w.sites v = .up m)
    (hruns : H.Runs c.members v m f) {req : Request} {q : AppendRequest} {r : Replica}
    {o : AppendOutcome} (sent : req ∈ w.requests) (body : req.body = .appendRequest q)
    (hr : m.replica.takeEntries q = .ok (r, o))
    (hp : (Member.noteLeader { m with replica := r } o.resetTimer).persistEntries o.change =
      .ok (m₀, none)) (hadvanced : o.commitAdvanced = true) : ∃ x, m₀.Ready x := by
  obtain ⟨htold, -⟩ := h.told req sent
  rw [body] at htold
  obtain ⟨R, hR, hshows, -, -⟩ := htold
  have hfirm := hruns.firm
  -- a request of an old term commits nothing
  have hge : m.replica.term ≤ q.term := by
    by_contra hlt
    have hstale : m.replica.takeEntries q = .ok (m.replica, ⟨false, false, none, false⟩) :=
      if_pos (Nat.lt_of_not_le hlt)
    cases hr.symm.trans hstale
    cases hadvanced
  have hcommon : f.take m.replica.commitIndex <+: R.log :=
    h.sound.fixed_reign hruns.fixed (Nat.le_trans (h.behind up hruns) hge) hR
  rcases hfirm.spans.takeEntries (h.matching up hruns hge hR) (h.sound.lawful _ R hR).sane hshows
      ((take_prefix_take (Nat.le_trans hfirm.applied hfirm.committed)).trans hcommon) hr with
    ⟨-, -, rfl⟩ | ⟨-, -, rfl⟩ | ⟨-, hform, hs, -, hreports, hfollowed⟩
  · cases hadvanced
  · cases hadvanced
  have hmoves := hfirm.toKnows.moves hshows hcommon hform hs hfollowed
  rcases hfirm.toMirrors.persistEntries hmoves hreports hp with
    ⟨-, hmirrors, rfl, -, -⟩ | ⟨hne, -⟩
  swap
  · exact absurd rfl hne
  refine ⟨_, hmirrors, ?_, ?_⟩
  · obtain ⟨log, commit, hform⟩ := hform
    rw [hform]
    exact (Replica.sameLog_accept m.replica q.term q.leader).settings ▸ hruns.valid
  · refine length_adopt_le (h.ready hruns).fits ?_
    exact Nat.le_trans (List.length_take_le' ..) (h.fits _ R hR)

theorem ready_proposing (h : H.Endures c P w) (up : w.sites v = .up m)
    (hruns : H.Runs c.members v m f) {command : Command} {ticket : Nat} {r r' : Replica}
    {e : Entry} (hp : m.replica.propose command = .ok (some (r, e)))
    (hw : m.write (.append [e]) = (m₀, none))
    (hadv : (Member.await { m₀ with replica := r } e.index ⟨e.term, ticket⟩).replica.advanceCommit =
      .ok (r', true)) :
    ∃ x, Member.Ready { Member.await { m₀ with replica := r } e.index ⟨e.term, ticket⟩ with
      replica := r' } x := by
  have hfirm := hruns.firm
  obtain rfl := Member.write_ok hw
  rcases Replica.propose_cases hp with ⟨-, hnone⟩ | ⟨hrole, hword, hsome⟩
  · cases hnone
  · cases hsome
    rw [hfirm.spans.lastIndex_eq] at hadv hword ⊢
    generalize he : (⟨m.replica.term, f.length + 1, command⟩ : Entry) = e at hadv ⊢
    have hterm : e.term = m.replica.term := he ▸ rfl
    have hpos := (hruns.post.active (by rw [hrole]; exact nofun)).2
    have hsane : Sane (f ++ [e]) := hfirm.spans.sane.concat (he ▸ rfl) (hterm ▸ hpos)
    have hmirrors := hfirm.toMirrors.concat hsane (m.disk.tried + 1)
    have hcore := Member.core_await { m with
      disk := { m.disk with
        tried := m.disk.tried + 1, contents := m.disk.contents.after (.append [e]) }
      replica := { m.replica with log := m.replica.log ++ [e] } } e.index ⟨e.term, ticket⟩
    have hr₀ := (Member.core_eq_iff.1 hcore).1
    obtain ⟨_, hgoverns, -⟩ :=
      (h.office up hruns).appends h.sound hrole hterm (he ▸ rfl) (hr₀ ▸ hadv)
    have hadvances := (Member.advances_advanceCommit hadv).1
    refine ⟨f ++ [e], (hmirrors.of_core hcore).advance hadvances ?_, ?_, ?_⟩
    · exact hgoverns.bounded
    · have hset := hadvances.same.settings
      rw [hr₀] at hset
      exact hset ▸ hruns.valid
    · rw [List.length_append]
      exact hword

theorem ready_recording (h : H.Endures c P w) (up : w.sites v = .up m)
    (hruns : H.Runs c.members v m f) {req : Request} {reply : Message} {through term : Nat}
    {success : Bool} {r : Replica} (replied : (req, reply) ∈ w.replies)
    (here : req.sender = v) (hthrough : Member.sentThrough req.body = .ok through)
    (hkind : reply = .appendReply term success ∨ reply = .installReply term ∧ success = true)
    (hr : m.replica.recordAppend term success req.receiver through = .ok (r, true))
    (hs : Member.saveBallot { m with replica := r } = (m₀, none)) : ∃ x, m₀.Ready x := by
  rcases Replica.recordAppend_spec hr with ⟨-, -, hidle⟩ | ⟨-, hidle⟩ | ⟨hrole, hterm, hcases⟩
  · cases hidle
  · cases hidle
  obtain ⟨_, hgoverns, -, -, hadvances, -⟩ := (h.office up hruns).books h.sound hrole
    (h.covered hruns replied here hthrough hkind hrole hterm) hcases
  obtain ⟨hmirrors, hr₀, -⟩ :=
    (hruns.firm.toMirrors.advance hadvances hgoverns.bounded).saveBallot hs
  refine ⟨f, hmirrors, ?_, (h.ready hruns).fits⟩
  rw [hr₀]
  exact hadvances.same.settings ▸ hruns.valid

/-- **Wherever entries are executed**, they are of a history that the disk yields. -/
theorem ready_applies (h : H.Endures c P w) (happlies : w.Applies c v m) : ∃ x, m.Ready x := by
  cases happlies with
  | starting down member valid read => exact h.ready_starting down valid read
  | @following m₀ _ _ _ _ _ up running sent here body taken written advanced =>
    obtain ⟨f, hruns⟩ := (h.up v m₀ up).runs running
    exact h.ready_following up hruns sent body taken written advanced
  | @proposing m₀ _ _ _ _ _ _ up running admitted proposed written counted =>
    obtain ⟨f, hruns⟩ := (h.up v m₀ up).runs running
    exact h.ready_proposing up hruns proposed written counted
  | @recording m₀ _ _ _ _ _ _ _ up running replied here covered answer recorded written =>
    obtain ⟨f, hruns⟩ := (h.up v m₀ up).runs running
    exact h.ready_recording up hruns replied here covered answer recorded written

end Chronicle.Endures

end ReplicatedStore
