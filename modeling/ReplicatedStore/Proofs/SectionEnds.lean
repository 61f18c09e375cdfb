import ReplicatedStore.Proofs.BackedMembers
/-!
# The ends of critical sections

What a member keeps beside its replica has to be in line with it whenever nobody is inside a
section: the heartbeat runs exactly while the member leads, whoever waits does so for an entry of
the present lead that the log still holds and that is not applied yet, and the image is the one that
the log follows (`Member.InStep`).

Inside a section this is only half true: the heartbeat and the waiting proposals of a lost lead are
seen to at its end. What holds all along is `Member.Poised`. It is kept by each stage of a section
(`InStep.opening`, `Poised.commits`, `Poised.digests`), and `finish` makes the whole of it
(`Poised.finish`).
-/
namespace ReplicatedStore

namespace Replica

variable {r r' : Replica}

/-- The positions that a replica keeps are in order, and nobody stands or leads in term 0. -/
structure Marked (r : Replica) : Prop where
  base : r.snapshotIndex ≤ r.lastApplied
  applied : r.lastApplied ≤ r.commitIndex
  committed : r.commitIndex ≤ r.lastIndex
  term : r.role ≠ .follower → 0 < r.term

/-- An entry of the replica's term that was not applied yet is held at the position. -/
structure Awaits (r : Replica) (i : Nat) (w : Waiter) : Prop where
  term : w.term = r.term
  fresh : r.lastApplied < i
  held : ∃ e, r.entryAt? i = some e ∧ e.term = w.term

theorem Marked.of_sameLog (h : r.Marked) (hs : SameLog r r')
    (term : r'.role ≠ .follower → 0 < r'.term) : r'.Marked where
  base := hs.base ▸ hs.applied ▸ h.base
  applied := hs.applied ▸ hs.commit ▸ h.applied
  committed := hs.commit ▸ hs.lastIndex_eq ▸ h.committed
  term := term

/-- To stand is to stand in a later term. -/
theorem Turns.term_pos (h : r.Turns r') (hr : r.role ≠ .follower → 0 < r.term)
    (hrole : r'.role ≠ .follower) : 0 < r'.term := by
  cases h with
  | follows role => exact absurd role hrole
  | stays role term _ _ => exact term ▸ hr (role ▸ hrole)
  | rises _ term => exact Nat.zero_lt_of_lt term
  | wins role term => exact term ▸ hr fun hf => nomatch role.symm.trans hf

theorem Awaits.mono {i : Nat} {w : Waiter} (h : r.Awaits i w) (term : r'.term = r.term)
    (fresh : r'.lastApplied < i) (held : ∀ e, r.entryAt? i = some e → r'.entryAt? i = some e) :
    r'.Awaits i w := by
  obtain ⟨e, he, het⟩ := h.held
  exact ⟨h.term.trans term.symm, fresh, e, held e he, het⟩

/-- What is committed and not applied yet is going to be applied. -/
theorem mem_takeCommitted {i : Nat} {e : Entry} (he : r.entryAt? i = some e)
    (happlied : r.lastApplied < i) (hcommitted : i ≤ r.commitIndex) :
    e ∈ r.takeCommitted.2 := by
  refine List.mem_filterMap.2 ⟨i, ?_, he⟩
  rw [List.mem_range'_1]
  omega

/-- A log that got one more entry holds what it did. -/
theorem entryAt?_concat {e x : Entry} {i : Nat} (hx : r.entryAt? i = some x) :
    Replica.entryAt? { r with log := r.log ++ [e] } i = some x := by
  have hi := lt_of_entryAt? hx
  rw [entryAt?_of_lt hi] at hx
  rw [entryAt?, if_neg (Nat.not_le.2 hi)]
  exact List.getElem?_append_left (List.getElem?_eq_some_iff.1 hx).1 ▸ hx

/-- The new entry is held at the end. -/
theorem Sourced.entryAt?_concat_self {S : Entry → Prop} (h : r.Sourced S) {e : Entry}
    (index : e.index = r.lastIndex + 1) :
    Replica.entryAt? { r with log := r.log ++ [e] } e.index = some e := by
  have hlast := h.lastIndex_eq
  rw [entryAt?, if_neg (by simp only; omega)]
  rw [show e.index - r.snapshotIndex - 1 = r.log.length by omega]
  exact List.getElem?_concat_length

theorem Marked.concat (h : r.Marked) {e : Entry} (index : e.index = r.lastIndex + 1) :
    Marked { r with log := r.log ++ [e] } where
  base := h.base
  applied := h.applied
  committed := by
    rw [lastIndex_concat, index]
    exact Nat.le_succ_of_le h.committed
  term := h.term

/-- A position after the base whose term is known to be another than 0 is inside the log. -/
theorem Numbered.le_lastIndex_of_termAt (h : r.Numbered) {i : Nat} (hi : r.snapshotIndex < i)
    (hterm : 0 < r.termAt i) : i ≤ r.lastIndex := by
  cases he : r.entryAt? i with
  | some e => exact h.le_lastIndex he
  | none =>
    rw [termAt, if_neg (by omega), if_neg (by omega), he] at hterm
    cases hterm

end Replica

namespace Member

variable {m m' : Member MemoryDisk} {P : Replica → AppendRequest → Prop}

/-- What holds all through a section: the disk backs the member, and under a lead everybody waits
for an entry of it. -/
structure Poised (m : Member MemoryDisk) : Prop where
  backed : m.Backed
  marked : m.replica.Marked
  awaited : m.replica.role = .leader → ∀ i w, m.pending.get? i = some w → m.replica.Awaits i w

/-- What holds whenever nobody is inside a section. -/
structure InStep (m : Member MemoryDisk) : Prop where
  poised : m.Poised
  beating : m.beating = m.replica.leads
  idle : m.replica.role ≠ .leader → m.Deserted

/-- A follower has nobody who waits for it to lead. -/
theorem Poised.of_follower (backed : m.Backed)
    (base : m.replica.snapshotIndex ≤ m.replica.lastApplied)
    (applied : m.replica.lastApplied ≤ m.replica.commitIndex)
    (committed : m.replica.commitIndex ≤ m.replica.lastIndex)
    (role : m.replica.role = .follower) : m.Poised :=
  ⟨backed, ⟨base, applied, committed, fun hne => absurd role hne⟩,
    fun hleads => nomatch role.symm.trans hleads⟩

/-- **How a section begins.** -/
theorem InStep.opening (h : m.InStep) (ho : Opening Replica.Respects m m') : m'.Poised := by
  have hbacked := (h.poised.backed.opening ho).backed
  have hmarked := h.poised.marked
  cases ho with
  | turns turn same _ pending =>
    refine ⟨hbacked, hmarked.of_sameLog same (turn.term_pos hmarked.term), fun hrole i w hi => ?_⟩
    rw [pending] at hi
    cases turn with
    | follows role => cases role.symm.trans hrole
    | stays role term _ _ =>
      have hi := h.poised.awaited (role.symm.trans hrole) i w hi
      exact hi.mono term (same.applied ▸ hi.fresh) fun e he => (same.entryAt?_eq i).trans he
    -- a new leader begins with nobody who waits
    | rises role _ => cases (h.idle role i).symm.trans hi
    | wins role _ => cases (h.idle (fun hl => nomatch role.symm.trans hl) i).symm.trans hi
  | enlists e leads _ index term replica _ _ _ _ pending =>
    refine ⟨hbacked, replica ▸ hmarked.concat index, fun _ i w hi => ?_⟩
    rw [replica]
    rcases pending i w hi with ⟨rfl, hw⟩ | hi
    · have happlied := Nat.le_trans hmarked.applied hmarked.committed
      exact ⟨hw.trans term, by simp only; omega, e,
        h.poised.backed.sourced.entryAt?_concat_self index, hw.symm⟩
    · have hi := h.poised.awaited leads i w hi
      exact hi.mono rfl hi.fresh fun x hx => Replica.entryAt?_concat hx
  | takes q o asked run _ _ _ _ pending =>
    have hany := h.poised.backed.sourced.takeAny run
    obtain ⟨hmoved, hbounded⟩ := hany.committed hmarked.committed asked
    rcases Replica.role_takeEntries run with hsame | hfollows
    · refine ⟨hbacked, hsame ▸ hmarked, fun hrole i w hi => ?_⟩
      rw [hsame] at hrole ⊢
      exact h.poised.awaited hrole i w (pending ▸ hi)
    · exact .of_follower hbacked (hany.base ▸ hany.applied ▸ hmarked.base)
        (hany.applied ▸ Nat.le_trans hmarked.applied hmoved) hbounded hfollows
  | images i term leader _ rebased _ _ _ _ _ =>
    have hlast := hbacked.sourced.lastIndex_eq
    obtain ⟨log, hr⟩ := Replica.exists_rebase rebased
    rw [hr] at hlast
    refine .of_follower hbacked ?_ ?_ ?_ ?_ <;> rw [hr]
    · exact Nat.le_trans (Nat.le_add_right _ _) (Nat.le_of_eq hlast.symm)
    · exact Replica.role_accept m.replica term leader

theorem Poised.commits (h : m.Poised) (hc : Commits m m') : m'.Poised := by
  have hbacked := (h.backed.commits hc).backed
  cases hc with
  | stays eq => exact eq ▸ h
  | moves i leads new term eq =>
    subst eq
    obtain ⟨hbase, happlied, -, hterm⟩ := h.marked
    have hpos : 0 < m.replica.termAt i := term ▸ hterm fun hf => nomatch leads.symm.trans hf
    have hi := h.backed.sourced.numbered.le_lastIndex_of_termAt (by omega) hpos
    refine ⟨hbacked, ⟨hbase, Nat.le_trans happlied (Nat.le_of_lt new), hi, hterm⟩,
      fun hrole j w hj => ?_⟩
    have hj := h.awaited hrole j w hj
    exact hj.mono rfl hj.fresh fun _ he => he

/-- Whoever still waits after what is committed was applied waits for something beyond it. -/
theorem Poised.digests (h : m.Poised) {n : Nat} (hd : m.Digests m' n) : m'.Poised := by
  have hbacked := (h.backed.digests hd).backed
  obtain ⟨hbase, happlied, hcommitted, hterm⟩ := h.marked
  have hlast := h.backed.sourced.lastIndex_eq
  have hlast' := hbacked.sourced.lastIndex_eq
  have hlength := hd.length
  have hcovered := hd.covered
  obtain ⟨t, -, hr⟩ := hd.replica
  have hlog : m'.replica.log = m.replica.log.drop n := by rw [hr]
  have hbase' : m'.replica.snapshotIndex = m.replica.snapshotIndex + n := by rw [hr]
  have happlied' : m'.replica.lastApplied = max m.replica.lastApplied m.replica.commitIndex := by
    rw [hr]
  have hcommit' : m'.replica.commitIndex = m.replica.commitIndex := by rw [hr]
  have hrole' : m'.replica.role = m.replica.role := by rw [hr]
  have hterm' : m'.replica.term = m.replica.term := by rw [hr]
  rw [hlog, List.length_drop] at hlast'
  refine ⟨hbacked, ⟨by omega, by omega, by omega, fun hne => hterm' ▸ hterm (hrole' ▸ hne)⟩,
    fun hrole i w hi => ?_⟩
  obtain ⟨hi, hgone⟩ := hd.pending i w hi
  have hwaits := h.awaited (hrole'.symm.trans hrole) i w hi
  obtain ⟨e, he, -⟩ := hwaits.held
  have hbeyond : m.replica.commitIndex < i := Nat.lt_of_not_le fun hle =>
    hgone e (Replica.mem_takeCommitted he hwaits.fresh hle)
      (h.backed.sourced.numbered.index_entryAt? he)
  exact hwaits.mono hterm' (by omega) fun x hx =>
    (Replica.entryAt?_drop hlog hbase' (by omega)).trans hx

/-- What counts of a member here is its replica, what it has stored, and who waits. -/
theorem Poised.congr (h : m.Poised) (replica : m'.replica = m.replica) (store : SameStore m m')
    (pending : ∀ i w, m'.pending.get? i = some w → m.pending.get? i = some w) : m'.Poised := by
  have hlasts := h.backed.same (by rw [replica]) (by rw [replica]) (by rw [replica]) store
  refine ⟨hlasts.backed, replica ▸ h.marked, fun hrole i w hi => ?_⟩
  rw [replica] at hrole ⊢
  exact h.awaited hrole i w (pending i w hi)

theorem InStep.congr (h : m.InStep) (replica : m'.replica = m.replica) (store : SameStore m m')
    (beating : m'.beating = m.beating)
    (pending : ∀ i w, m'.pending.get? i = some w → m.pending.get? i = some w) : m'.InStep where
  poised := h.poised.congr replica store pending
  beating := by rw [beating, h.beating, replica]
  idle hrole i := by
    cases hi : m'.pending.get? i with
    | none => rfl
    | some w => cases (h.idle (replica ▸ hrole) i).symm.trans (pending i w hi)

theorem beating_finish (m : Member MemoryDisk) : m.finish.beating = m.replica.leads := by
  unfold finish settleRole
  split
  · next hleads => split <;> simp_all [emit]
  · next hleads =>
    have hstop : m.stopHeartbeat.beating = false := by
      unfold stopHeartbeat
      split <;> simp_all [emit]
    simp only
    split <;> simp_all [failPending]

/-- **What holds at the end of a section.** -/
theorem Poised.finish (h : m.Poised) : m.finish.InStep where
  poised := h.congr (replica_finish m) (.of_core (quiet_finish m).core) (quiet_finish m).pending
  beating := by rw [beating_finish, replica_finish]
  idle hrole := deserted_finish (replica_finish m ▸ hrole)

/-- **A section.** -/
theorem InStep.passage (h : m.InStep) (hp : Passage Replica.Respects m m') : m'.InStep := by
  cases hp with
  | quiet replica store beating pending => exact h.congr replica store beating pending
  | ends a b c opening commits digests core beating pending =>
    have hb := (h.opening opening).commits commits
    have hc : c.Poised := by
      rcases digests with rfl | ⟨n, hd⟩
      · exact hb
      · exact hb.digests hd
    exact hc.finish.congr (core_eq_iff.1 core).1 (.of_core core) beating
      fun i w hi => pending ▸ hi

/-- **A run.** -/
theorem Works.inStep (h : Works Replica.Respects m m') (hm : m.InStep) (up : m'.stopped = false) :
    m'.InStep := by
  induction h with
  | refl => exact hm
  | act run up' act ih =>
    have hrun := ih up'
    exact hrun.passage (act.passage hrun.poised.backed.sourced up)
  | drain run ih => exact (ih up).congr rfl ⟨rfl, rfl, rfl, rfl⟩ rfl fun _ _ h => h

/-- What a start has read is poised to apply what was committed. -/
theorem poised_load {s : MemberSettings} {d : MemoryDisk} (run : (blank s d).load = .ok (.ok m)) :
    m.Poised ∧ m.replica.role = .follower ∧ m.pending = .empty ∧ m.beating = false := by
  have hbacked := backed_load run
  obtain ⟨-, log, hs, rfl⟩ := exists_loaded run
  have h := grounded_spec s d
  have hend := h.base.symm.trans_le (Nat.le.intro hs.lastIndex_eq.symm)
  refine ⟨.of_follower hbacked ?_ ?_ ?_ h.role, h.role, h.pending, h.beating⟩
  · exact Nat.le_of_eq (h.base.trans h.applied.symm)
  · exact Nat.le_trans (Nat.le_of_eq (h.applied.trans h.commit.symm)) (Nat.le_max_left ..)
  · exact Nat.max_le.2 ⟨h.commit.trans_le hend, Nat.min_le_right ..⟩

/-- A member that has started. -/
theorem inStep_start {s : MemberSettings} {d : MemoryDisk} {now : Instant}
    (run : start s d now = .ok (.ok m)) : m.InStep := by
  obtain ⟨m₀, n, hload, hd⟩ := start_digests run
  obtain ⟨hpoised, hrole, hpending, hbeating⟩ := poised_load hload
  have hrole' : m.replica.role = .follower := by
    obtain ⟨t, -, hr⟩ := hd.replica
    rw [hr]
    exact hrole
  refine ⟨hpoised.digests hd, ?_, fun _ i => ?_⟩
  · rw [hd.beating, hbeating, Replica.leads, hrole']
    rfl
  · cases hi : m.pending.get? i with
    | none => rfl
    | some w =>
      have hi := (hd.pending i w hi).1
      rw [hpending] at hi
      cases hi

end Member

/-- **What a member keeps beside its replica is in line with it at the end of every section**,
whatever it was asked and whatever writes failed, from its start on whatever is on its disk, until
it stops. A section in which a sum is no word has no end, and nothing is said of what it leaves. -/
theorem sections_end_in_step {s : MemberSettings} {d : MemoryDisk} {now : Instant}
    {m₀ m : Member MemoryDisk} (started : Member.start s d now = .ok (.ok m₀))
    (run : Member.Works Replica.Respects m₀ m) (up : m.stopped = false) :
    (m.beating = true ↔ m.replica.role = .leader) ∧
    (∀ i w, m.pending.get? i = some w → m.replica.role = .leader ∧ w.term = m.replica.term ∧
      m.replica.lastApplied < i ∧ i ≤ m.replica.lastIndex ∧
      ∃ e, m.replica.entryAt? i = some e ∧ e.term = w.term) ∧
    (0 < m.replica.snapshotIndex → ∃ image, m.image = some image ∧
      image.lastIndex = m.replica.snapshotIndex ∧ image.lastTerm = m.replica.snapshotTerm) := by
  have h := run.inStep (Member.inStep_start started) up
  refine ⟨?_, fun i w hi => ?_, h.poised.backed.image⟩
  · rw [h.beating, Replica.leads, decide_eq_true_iff]
  · have hrole : m.replica.role = .leader := by
      by_contra hne
      cases (h.idle hne i).symm.trans hi
    obtain ⟨hterm, hfresh, e, he, het⟩ := h.poised.awaited hrole i w hi
    exact ⟨hrole, hterm, hfresh, h.poised.backed.sourced.numbered.le_lastIndex he, e, he, het⟩

namespace Duo

def later : Entry := ⟨1, 2, ⟨.delete, "k", none⟩⟩

/-- Node 1 when it has compacted its log, and waits again. -/
def repeater : Member MemoryDisk :=
  let r := { compacted.replica with log := [later] }
  { compacted with
    replica := r
    disk := { contents := { compacted.disk.contents with log := [later] }, tried := 7 }
    pending := .ofList [(2, ⟨1, 8⟩)]
    published := r.status }

/-- Node 1 is elected, has a proposal committed and compacted, and takes another one. -/
theorem works_repeater :
    Member.start ⟨1, [2], config 1⟩ {} (.ofMillis 0) = .ok (.ok (started 1 2)) ∧
    Member.Works Replica.Respects (started 1 2) repeater := by
  have hask : (started 1 2).campaign = .ok (candidate, some ⟨1, 1, 0, 0⟩) := rfl
  have hcount : candidate.countVote 1 2 1 true =
      .ok ({ leader with outbox := [.startHeartbeat] }, false) := rfl
  have hpropose : leader.propose (.ofMillis 0) entry.command 7 = .ok (proposer, .ok 1) := by cbv
  have hrecord : proposer.recordReply (.ofMillis 0) 2 1 (.appendReply 1 true) =
      .ok ({ compacted with outbox := [.settle 7 (.ok .done)] }, true) := by cbv
  have hagain : compacted.propose (.ofMillis 0) later.command 8 = .ok (repeater, .ok 2) := by cbv
  have h₁ := (Member.Works.refl (P := Replica.Respects) (started 1 2)).act rfl (.timeout hask)
  have h₂ := (h₁.act rfl (.countVote (.head _) hcount)).drain
  have h₃ := (h₂.act rfl (.propose hpropose)).act rfl (.recordReply (.head _) hrecord)
  exact ⟨rfl, h₃.drain.act rfl (.propose hagain)⟩

end Duo

/-- Node 1 of `Duo` waits for its second entry, and its image holds the first. -/
theorem sections_end_in_step_duo : ∃ m : Member MemoryDisk,
    Member.start ⟨1, [2], Duo.config 1⟩ {} (.ofMillis 0) = .ok (.ok m) ∧
    Member.Works Replica.Respects m Duo.repeater ∧ Duo.repeater.stopped = false ∧
    Duo.repeater.pending.get? 2 = some ⟨1, 8⟩ ∧ Duo.repeater.replica.snapshotIndex = 1 ∧
    (Duo.repeater.beating = true ↔ Duo.repeater.replica.role = .leader) ∧
    (∀ i w, Duo.repeater.pending.get? i = some w → Duo.repeater.replica.role = .leader ∧
      w.term = Duo.repeater.replica.term ∧ Duo.repeater.replica.lastApplied < i ∧
      i ≤ Duo.repeater.replica.lastIndex ∧
      ∃ e, Duo.repeater.replica.entryAt? i = some e ∧ e.term = w.term) ∧
    (0 < Duo.repeater.replica.snapshotIndex → ∃ image, Duo.repeater.image = some image ∧
      image.lastIndex = Duo.repeater.replica.snapshotIndex ∧
      image.lastTerm = Duo.repeater.replica.snapshotTerm) := by
  obtain ⟨hstart, hworks⟩ := Duo.works_repeater
  exact ⟨_, hstart, hworks, rfl, rfl, rfl, sections_end_in_step hstart hworks rfl⟩

end ReplicatedStore
