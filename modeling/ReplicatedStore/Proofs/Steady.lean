import ReplicatedStore.Proofs.ReplicaLogs
import ReplicatedStore.Proofs.Sections
/-!
# Members on reliable disks

When no write fails, memory and disk tell the same at the end of every section. `Member.Holds m x`
says that a member has the history `x`: its log and its disk hold the part above the base, its
image stands for the part below, and its machine is what the applied part makes of an empty one.
`Member.Steady m x` adds what only holds between sections: all that is committed is applied, and
the disk has the commit index and the ballot.

A proposal is answered with a result of the machine only by applying the entry at its position, and
only if the entry has the term of the proposal (`Member.Credits`).
-/
namespace ReplicatedStore

open History

/-- The image stands for a history up to a base. -/
def Pictures (image : Option Image) (x : History) (base : Nat) : Prop :=
  match image with
  | none => base = 0
  | some i =>
    i.lastIndex = base ∧ i.lastTerm = x.termAt base ∧ i.entries = Image.fold [] (x.take base)

theorem Pictures.congr {image : Option Image} {x y : History} {base : Nat}
    (h : Pictures image x base) (hx : base ≤ x.length) (hxy : x.take base <+: y) :
    Pictures image y base := by
  cases image with
  | none => exact h
  | some i =>
    obtain ⟨hi, ht, he⟩ := h
    have hlen : (x.take base).length = base := List.length_take_of_le hx
    refine ⟨hi, ?_, ?_⟩
    · rw [ht, ← termAt_of_isPrefix hxy (by omega),
        termAt_of_isPrefix (List.take_prefix _ _) (by omega)]
    · rw [he, ← take_of_isPrefix hxy (by omega), List.take_take, Nat.min_self]

/-- The effect gives a proposal a result only if its entry stands at its position, which is not
above the bound, and then the entry's result. -/
def Effect.Earned (pending : Table Nat Waiter) (x : History) (n : Nat) (effect : Effect) : Prop :=
  ∀ ticket a, effect = .settle ticket (.ok a) → ∃ k w e, pending.get? (k + 1) = some w ∧
    w.ticket = ticket ∧ k < n ∧ x[k]? = some e ∧ e.term = w.term ∧
      (Valued (x.take k) → a = (Image.restore (x.take k)).answer e)

theorem Effect.Mute.earned {e : Effect} (h : e.Mute) (pending : Table Nat Waiter) (x : History)
    (n : Nat) : e.Earned pending x n := fun ticket a heq => absurd heq (h ticket a)

namespace Member

/-! ## Waiting proposals -/

/-- No proposal begins to wait, and proposals are given only results that they have earned. -/
structure Credits (m m' : Member MemoryDisk) (x : History) (n : Nat) : Prop where
  pending : ∀ i w, m'.pending.get? i = some w → m.pending.get? i = some w
  outbox : ∀ e ∈ m'.outbox, e ∈ m.outbox ∨ e.Earned m.pending x n

variable {m m' m'' : Member MemoryDisk} {x : History} {n : Nat}

theorem Quiet.credits (h : m.Quiet m') (x : History) (n : Nat) : Credits m m' x n := by
  refine ⟨h.pending, fun e he => ?_⟩
  rcases h.outbox e he with he | he
  · exact .inl he
  · exact .inr (he.earned _ x n)

theorem Credits.refl (m : Member MemoryDisk) (x : History) (n : Nat) : Credits m m x n :=
  (Quiet.refl m).credits x n

theorem Credits.of_eq (hp : m'.pending = m.pending) (ho : m'.outbox = m.outbox) :
    Credits m m' x n :=
  ⟨fun _ _ hw => hp ▸ hw, fun _ he => .inl (ho ▸ he)⟩

theorem Credits.trans (h : Credits m m' x n) (h' : Credits m' m'' x n) : Credits m m'' x n := by
  refine ⟨fun i w hw => h.pending i w (h'.pending i w hw), fun e he => ?_⟩
  rcases h'.outbox e he with he | he
  · exact h.outbox e he
  · refine .inr fun ticket a heq => ?_
    obtain ⟨k, w, e', hw, hrest⟩ := he ticket a heq
    exact ⟨k, w, e', h.pending _ w hw, hrest⟩

theorem Credits.mono {n' : Nat} (h : Credits m m' x n) (hn : n ≤ n') : Credits m m' x n' := by
  refine ⟨h.pending, fun e he => ?_⟩
  rcases h.outbox e he with he | he
  · exact .inl he
  · refine .inr fun ticket a heq => ?_
    obtain ⟨k, w, e', hw, ht, hk, hrest⟩ := he ticket a heq
    exact ⟨k, w, e', hw, ht, Nat.lt_of_lt_of_le hk hn, hrest⟩

/-! ## Applying -/

theorem restore_take_succ {k : Nat} {e : Entry} (he : x[k]? = some e) :
    Image.restore (x.take (k + 1)) = Image.replay (Image.restore (x.take k)) e := by
  rw [List.take_add_one, he, Option.toList_some, Image.restore_append]
  rfl

/-- Applying an entry ends the wait for its position. If the machine takes the entry, whoever waited
there is answered, with a result if the terms agree. -/
theorem applyEntry_cases (m : Member MemoryDisk) (e : Entry) : ∃ machine effects err,
    m.applyEntry e = ({ m with
      pending := m.pending.erase e.index
      machine := machine
      outbox := m.outbox ++ effects }, err) ∧
    ((err ≠ none ∧ ¬ e.command.Valued ∧ ∀ f ∈ effects, f.Mute) ∨
      (err = none ∧ machine = Image.replay m.machine e ∧ ∀ f ∈ effects, ∀ ticket a,
        f = .settle ticket (.ok a) → ∃ w, m.pending.get? e.index = some w ∧ w.ticket = ticket ∧
          e.term = w.term ∧ a = m.machine.answer e)) := by
  cases happ : m.machine.apply e with
  | error err =>
    have hnot : ¬ e.command.Valued := by
      intro hv
      cases happ.symm.trans (Machine.apply_eq hv m.machine)
    cases hw : m.pending.get? e.index with
    | none =>
      refine ⟨m.machine, [], some err, ?_, .inl ⟨Option.some_ne_none _, hnot, ?_⟩⟩
      · simp only [applyEntry, happ, hw, List.append_nil]
      · simp only [List.not_mem_nil, false_implies, implies_true]
    | some w =>
      refine ⟨m.machine, [.settle w.ticket (.error (.unsettled (.other err.message)))], some err,
        ?_, .inl ⟨Option.some_ne_none _, hnot, fun f hf ticket a heq => ?_⟩⟩
      · simp only [applyEntry, happ, hw, emit]
      · rw [List.mem_singleton.1 hf] at heq
        cases heq
  | ok result =>
    obtain ⟨answer, machine⟩ := result
    obtain ⟨rfl, rfl⟩ := Machine.apply_ok happ
    cases hw : m.pending.get? e.index with
    | none =>
      refine ⟨_, [], none, ?_, .inr ⟨rfl, rfl, ?_⟩⟩
      · simp only [applyEntry, happ, hw, List.append_nil]
      · simp only [List.not_mem_nil, false_implies, implies_true]
    | some w =>
      refine ⟨_, [_], none, by simp only [applyEntry, happ, hw, emit]; rfl,
        .inr ⟨rfl, rfl, fun f hf ticket a heq => ?_⟩⟩
      rw [List.mem_singleton.1 hf, Effect.settle.injEq] at heq
      obtain ⟨rfl, heq⟩ := heq
      split at heq
      · next hterm => exact ⟨w, rfl, rfl, hterm.symm, (Except.ok.inj heq).symm⟩
      · cases heq

/-- Applying the next entry of a history: the machine takes it if it can, and the proposal at its
position is answered. -/
theorem applyEntry_spec (hx : Sane x) {k : Nat} {e : Entry} (he : x[k]? = some e)
    (hm : Valued (x.take k) → m.machine = Image.restore (x.take k)) :
    ∃ m' err, m.applyEntry e = (m', err) ∧ m'.core = { m.core with machine := m'.machine } ∧
      (Valued (x.take (k + 1)) → err = none ∧ m'.machine = Image.restore (x.take (k + 1))) ∧
      Credits m m' x (k + 1) := by
  have hindex : e.index = k + 1 := hx.index k e he
  have herase : ∀ i w, (m.pending.erase e.index).get? i = some w → m.pending.get? i = some w := by
    intro i w hw
    rw [Table.get?_erase] at hw
    split at hw
    · cases hw
    · exact hw
  obtain ⟨machine, effects, err, happ, hcases⟩ := applyEntry_cases m e
  refine ⟨_, _, happ, rfl, fun hv => ?_, herase, fun f hf => ?_⟩
  · -- an entry with a value is taken
    have hmem : e ∈ x.take (k + 1) :=
      List.mem_of_getElem? ((List.getElem?_take_of_lt (Nat.lt_succ_self k)).trans he)
    rcases hcases with ⟨-, hnot, -⟩ | ⟨rfl, rfl, -⟩
    · exact absurd (hv e hmem) hnot
    · refine ⟨rfl, ?_⟩
      simp only [hm (hv.of_isPrefix (take_prefix_take (Nat.le_succ k))), restore_take_succ he]
  · rcases List.mem_append.1 hf with hf | hf
    · exact .inl hf
    · right
      rcases hcases with ⟨-, -, hmute⟩ | ⟨-, -, hanswer⟩
      · exact (hmute f hf).earned _ _ _
      · intro ticket a heq
        obtain ⟨w, hw, hticket, hterm, ha⟩ := hanswer f hf ticket a heq
        exact ⟨k, w, e, hindex ▸ hw, hticket, Nat.lt_succ_self k, he, hterm, fun hv => hm hv ▸ ha⟩

/-- Applying a stretch of a history. -/
theorem applyAll_spec (hx : Sane x) (n : Nat) {k : Nat} (hn : k + n ≤ x.length)
    (hm : Valued (x.take k) → m.machine = Image.restore (x.take k)) :
    ∃ m' err, m.applyAll ((x.drop k).take n) = (m', err) ∧
      m'.core = { m.core with machine := m'.machine } ∧
      (Valued (x.take (k + n)) → m'.machine = Image.restore (x.take (k + n))) ∧
      Credits m m' x (k + n) := by
  induction n generalizing m k with
  | zero => exact ⟨m, none, rfl, rfl, hm, .refl m x _⟩
  | succ n ih =>
    have hk : x[k]? = some x[k] := List.getElem?_eq_getElem (by omega)
    have hcons : (x.drop k).take (n + 1) = x[k] :: (x.drop (k + 1)).take n := by
      rw [List.drop_eq_getElem_cons (by omega), List.take_succ_cons]
    obtain ⟨m₁, err, hm₁, hcore, hmach, hcred⟩ := applyEntry_spec hx hk hm
    have hpre : x.take (k + 1) <+: x.take (k + (n + 1)) := take_prefix_take (by omega)
    rw [hcons, applyAll, hm₁]
    cases err with
    | some err =>
      -- the rest of the stretch stays where it is
      refine ⟨m₁, some err, rfl, hcore, fun hv => ?_, hcred.mono (by omega)⟩
      cases (hmach (hv.of_isPrefix hpre)).1
    | none =>
      obtain ⟨m₂, err', hm₂, hcore', hmach', hcred'⟩ :=
        ih (k := k + 1) (by omega) fun hv => (hmach hv).2
      rw [show k + 1 + n = k + (n + 1) by omega] at hmach' hcred'
      exact ⟨m₂, err', hm₂, by rw [hcore', hcore], hmach', (hcred.mono (by omega)).trans hcred'⟩

/-! ## Holding a history -/

/-- Memory and disk hold the history, and what is applied of it made the machine if all of that
could be executed. -/
structure Holds (m : Member MemoryDisk) (x : History) : Prop where
  spans : m.replica.Spans x
  applied : m.replica.snapshotIndex ≤ m.replica.lastApplied
  committed : m.replica.lastApplied ≤ m.replica.commitIndex
  bounded : m.replica.commitIndex ≤ x.length
  machine : Valued (x.take m.replica.lastApplied) →
    m.machine = Image.restore (x.take m.replica.lastApplied)
  image : Pictures m.image x m.replica.snapshotIndex
  stored : m.disk.contents.log = m.replica.log
  pictured : m.disk.contents.image = m.image
  reliable : ∀ n w, m.disk.fails n w = false

/-- What holds between sections. -/
structure Steady (m : Member MemoryDisk) (x : History) : Prop extends Holds m x where
  settled : m.replica.lastApplied = m.replica.commitIndex
  commit : m.disk.contents.commit = m.replica.commitIndex
  ballot : m.disk.contents.ballot = m.replica.ballot
  saved : m.saved = m.replica.ballot

theorem Holds.of_core (h : m.Holds x) (hc : m'.core = m.core) : m'.Holds x := by
  obtain ⟨hr, hd, hm, hi, -⟩ := core_eq_iff.1 hc
  constructor
  · rw [hr]; exact h.spans
  · rw [hr]; exact h.applied
  · rw [hr]; exact h.committed
  · rw [hr]; exact h.bounded
  · rw [hm, hr]; exact h.machine
  · rw [hi, hr]; exact h.image
  · rw [hd, hr]; exact h.stored
  · rw [hd, hi]; exact h.pictured
  · rw [hd]; exact h.reliable

theorem Steady.of_core (h : m.Steady x) (hc : m'.core = m.core) : m'.Steady x := by
  obtain ⟨hr, hd, -, -, hs⟩ := core_eq_iff.1 hc
  refine ⟨h.toHolds.of_core hc, ?_, ?_, ?_, ?_⟩
  · rw [hr]; exact h.settled
  · rw [hd, hr]; exact h.commit
  · rw [hd, hr]; exact h.ballot
  · rw [hs, hr]; exact h.saved

theorem Steady.quiet (h : m.Steady x) (hq : m.Quiet m') : m'.Steady x := h.of_core hq.core

/-- A write that cannot fail. -/
theorem write_spec {w : DiskWrite} {e : Option IoError} (run : m.write w = (m', e))
    (h : ∀ n w, m.disk.fails n w = false) :
    e = none ∧ ∃ n, m' =
      { m with disk := { m.disk with tried := n, contents := m.disk.contents.after w } } := by
  simp only [write, Disk.write, MemoryDisk.write, h, Bool.false_eq_true, if_false,
    Prod.mk.injEq] at run
  exact ⟨run.2.symm, m.disk.tried + 1, run.1.symm⟩

/-- Only the log, its base and what is applied differ, and proposals are given what they have
earned. -/
structure Applies (m m' : Member MemoryDisk) (x : History) : Prop where
  replica : Replica.SameButLog m.replica m'.replica
  saved : m'.saved = m.saved
  ballot : m'.disk.contents.ballot = m.disk.contents.ballot
  credits : Credits m m' x m.replica.commitIndex

/-- Folding the image and the entries after it gives the image of both. -/
theorem Pictures.fold {image : Option Image} {base : Nat} (h : Pictures image x base)
    (y : History) :
    Image.fold (image.elim [] (·.entries)) y = Image.fold [] (x.take base ++ y) := by
  cases image with
  | none =>
    obtain rfl : base = 0 := h
    rfl
  | some i =>
    obtain ⟨-, -, he⟩ := h
    simp only [Option.elim, he, Image.fold_fold]

/-- **Compaction.** The image stands for what is applied, and the log holds the rest. -/
theorem Holds.takeImage (h : m.Holds x) {now : Instant} {e : Option ServiceError}
    (run : m.takeImage now = .ok (m', e)) :
    e = none ∧ m'.Holds x ∧ Replica.SameButLog m.replica m'.replica ∧
      m'.replica.lastApplied = m.replica.lastApplied ∧ m'.saved = m.saved ∧
      m'.disk.contents.ballot = m.disk.contents.ballot ∧
      m'.disk.contents.commit = m.disk.contents.commit ∧
      m'.pending = m.pending ∧ m'.outbox = m.outbox := by
  have happlied : m.replica.lastApplied ≤ x.length := Nat.le_trans h.committed h.bounded
  unfold Member.takeImage at run
  obtain ⟨⟨r, removed⟩, hr, run⟩ := bind_eq_ok.1 run
  obtain ⟨hspans, hremoved, log, term, rfl⟩ := h.spans.compact h.applied happlied hr
  have hlen : removed.length = m.replica.lastApplied - m.replica.snapshotIndex := by
    rw [hremoved, List.length_take_of_le]
    rw [List.length_drop]
    omega
  simp only at run
  split at run
  · next hempty =>
    cases run
    -- the base is where it was
    have hbase : m.replica.snapshotIndex = m.replica.lastApplied := by
      rw [List.isEmpty_iff.1 hempty, List.length_nil] at hlen
      have := h.applied
      omega
    refine ⟨rfl, ⟨hspans, Nat.le_refl _, h.committed, h.bounded, h.machine, ?_, ?_, h.pictured,
      h.reliable⟩, ⟨_, _, _, _, rfl⟩, rfl, rfl, rfl, rfl, rfl, rfl⟩
    · have himage := h.image
      rwa [hbase] at himage
    · have hlog := hspans.log
      simp only at hlog ⊢
      rw [h.stored, h.spans.log, hlog, hbase]
  · split at run
    · next m₁ err hw => cases (write_spec hw h.reliable).1
    · next m₁ hw =>
      obtain ⟨-, n₁, rfl⟩ := write_spec hw h.reliable
      split at run
      · next m₂ err hw' => cases (write_spec hw' h.reliable).1
      · next m₂ hw' =>
        obtain ⟨-, n₂, rfl⟩ := write_spec hw' h.reliable
        cases run
        refine ⟨rfl, ⟨hspans, Nat.le_refl _, h.committed, h.bounded, h.machine,
          ⟨rfl, hspans.term, ?_⟩, rfl, rfl, h.reliable⟩, ⟨_, _, _, _, rfl⟩, rfl, rfl, rfl, rfl, rfl,
          rfl⟩
        -- what was folded and what is removed are together what is applied
        have hsum : m.replica.snapshotIndex + (m.replica.lastApplied - m.replica.snapshotIndex) =
            m.replica.lastApplied := Nat.add_sub_cancel' h.applied
        have hfold := Pictures.fold h.image removed
        rw [hremoved, ← List.take_add, hsum] at hfold
        exact hremoved ▸ hfold

/-- All that is committed is applied, and the disk has the commit index. -/
structure CatchesUp (m m' : Member MemoryDisk) (x : History) : Prop where
  holds : m'.Holds x
  applies : Applies m m' x
  settled : m'.replica.lastApplied = m'.replica.commitIndex
  commit : m'.disk.contents.commit = m'.replica.commitIndex

/-- The member that has written the commit index and counts all up to it as applied. -/
def counted (m : Member MemoryDisk) (n : Nat) : Member MemoryDisk :=
  { m with
    disk := { m.disk with
      tried := n, contents := m.disk.contents.after (.commit m.replica.commitIndex) }
    replica := { m.replica with lastApplied := m.replica.commitIndex } }

/-- The committed entries are applied to the machine. One that cannot be leaves the member counted
and its machine behind, which is no concern of histories that can be executed. -/
theorem Holds.applyAll (h : m.Holds x) (n : Nat) : ∃ m' err,
    (m.counted n).applyAll ((x.drop m.replica.lastApplied).take
      (m.replica.commitIndex - m.replica.lastApplied)) = (m', err) ∧ CatchesUp m m' x := by
  have hsum : m.replica.lastApplied + (m.replica.commitIndex - m.replica.lastApplied) =
      m.replica.commitIndex := Nat.add_sub_cancel' h.committed
  have hbase : m.replica.snapshotIndex ≤ m.replica.commitIndex :=
    Nat.le_trans h.applied h.committed
  obtain ⟨m', err, happ, hcore, hmach, hcred⟩ := applyAll_spec (m := m.counted n) h.spans.sane
    (m.replica.commitIndex - m.replica.lastApplied) (by rw [hsum]; exact h.bounded) h.machine
  rw [hsum] at hmach hcred
  have hreplica : m'.replica = { m.replica with lastApplied := m.replica.commitIndex } :=
    congrArg Core.replica hcore
  have hdisk : m'.disk = (m.counted n).disk := congrArg Core.disk hcore
  have hholds : m'.Holds x := by
    refine Holds.of_core (m := { m.counted n with machine := m'.machine }) ?_ hcore
    exact ⟨h.spans.congr rfl rfl rfl, hbase, Nat.le_refl _, h.bounded, hmach, h.image, h.stored,
      h.pictured, h.reliable⟩
  refine ⟨m', err, happ, hholds, ⟨⟨_, _, _, _, hreplica⟩, ?_, ?_, ?_⟩, ?_, ?_⟩
  · exact congrArg Core.saved hcore
  · rw [hdisk]
    rfl
  · exact ⟨hcred.pending, hcred.outbox⟩
  · rw [hreplica]
  · rw [hdisk, hreplica]
    rfl

theorem CatchesUp.takeImage (h : CatchesUp m m' x) {now : Instant} {e : Option ServiceError}
    (run : m'.takeImage now = .ok (m'', e)) : CatchesUp m m'' x := by
  obtain ⟨-, hholds, hsame, happlied, hsaved, hballot, hcommit, hpending, houtbox⟩ :=
    h.holds.takeImage run
  refine ⟨hholds, ⟨h.applies.replica.trans hsame, ?_, ?_, ?_⟩, ?_, ?_⟩
  · rw [hsaved, h.applies.saved]
  · rw [hballot, h.applies.ballot]
  · exact h.applies.credits.trans (.of_eq hpending houtbox)
  · rw [happlied, hsame.commit, h.settled]
  · rw [hcommit, hsame.commit, h.commit]

/-- **Applying.** Whether or not the log is compacted afterwards, and also where an entry cannot be
applied. -/
theorem Holds.applyCommitted (h : m.Holds x) {now : Instant} {e : Option ServiceError}
    (run : m.applyCommitted now = .ok (m', e)) : CatchesUp m m' x := by
  unfold Member.applyCommitted at run
  split at run
  · next m₁ err hw => cases (write_spec hw h.reliable).1
  · next m₁ hw =>
    obtain ⟨-, n, rfl⟩ := write_spec hw h.reliable
    rw [h.spans.takeCommitted h.applied h.committed h.bounded] at run
    obtain ⟨m₂, err, happ, hcaught⟩ := h.applyAll n
    unfold counted at happ
    simp only at run
    split at run
    · next hempty =>
      rw [List.isEmpty_iff.1 hempty] at happ
      cases happ
      cases run
      exact hcaught
    · rw [happ] at run
      cases err with
      | some err =>
        cases run
        exact hcaught
      | none =>
        simp only at run
        split at run
        · exact hcaught.takeImage run
        · cases run
          exact hcaught

end Member

end ReplicatedStore
