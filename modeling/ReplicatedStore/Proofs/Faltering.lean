import ReplicatedStore.Proofs.Restarts
/-!
# Members on disks that falter

Writes may fail here, and one that fails changes nothing. Memory and disk then differ in two ways.
The ballot in memory may be one that could not be written, and the log on disk may start with
entries that the image on disk covers, because the image was written and the log after it was not.

* `DiskContents.Yields d x`: what a start reads off the disk is the history `x`.
* `Member.Mirrors m x`: memory has the history, and the disk yields it.
* `Member.Firm m x`: that at the end of a section. All that is committed is applied, the disk has
  the commit index, and a ballot that it does not have was refused by it.

A section of a firm member ends in one of two ways (`Member.Finishes`): the member is firm again,
or it has stopped and left a disk that yields the same history, no more of it committed than it knew
to be.
-/
namespace ReplicatedStore

open History

/-! ## Grafts -/

namespace History

/-- A prefix with what another history has above it. -/
def graft (x p : History) : History := p ++ x.drop p.length

theorem prefix_graft (x p : History) : p <+: graft x p := List.prefix_append _ _

theorem drop_graft (x p : History) {n : Nat} (hn : p.length ≤ n) :
    (graft x p).drop n = x.drop n := by
  rw [graft, List.drop_append, List.drop_eq_nil_of_le hn, List.nil_append, List.drop_drop,
    Nat.add_sub_cancel' hn]

theorem Sane.graft {x p : History} (hx : Sane x) (hp : Sane p) : Sane (graft x p) where
  index k e hk := by
    rcases Nat.lt_or_ge k p.length with hlt | hge
    · exact hp.index k e (by rwa [History.graft, List.getElem?_append_left hlt] at hk)
    · rw [History.graft, List.getElem?_append_right hge, List.getElem?_drop,
        Nat.add_sub_cancel' hge] at hk
      exact hx.index k e hk
  term e he := by
    rcases List.mem_append.1 he with he | he
    · exact hp.term e he
    · exact hx.term e (List.mem_of_mem_drop he)

end History

/-! ## Disks -/

/-- What a start reads off the disk is the history. Its log may begin with entries that the image
covers; these are skipped. -/
structure DiskContents.Yields (d : DiskContents) (x : History) : Prop where
  sane : Sane x
  reached : d.base ≤ x.length
  bounded : d.commit ≤ x.length
  image : Pictures d.image x d.base
  log : ∃ stale, (∀ e ∈ stale, e.index ≤ d.base) ∧ d.log = stale ++ x.drop d.base

/-- How much of the history counts as committed when a member starts on the disk. -/
def DiskContents.reach (d : DiskContents) : Nat := max d.base d.commit

/-- The disk yields the history, its base is not below the first bound, and what counts as
committed is not above the second. -/
structure MemoryDisk.Leaves (d : MemoryDisk) (x : History) (low high : Nat) : Prop where
  yields : d.contents.Yields x
  low : low ≤ d.contents.base
  high : d.contents.reach ≤ high
  readable : d.unreadable = false

theorem MemoryDisk.Leaves.mono {d : MemoryDisk} {low low' high high' : Nat}
    (h : d.Leaves x low high) (hlow : low' ≤ low) (hhigh : high ≤ high') :
    d.Leaves x low' high' :=
  ⟨h.yields, Nat.le_trans hlow h.low, Nat.le_trans h.high hhigh, h.readable⟩

namespace DiskContents.Yields

variable {d : DiskContents} {x y : History}

/-- Another ballot on the disk. -/
theorem rebind (h : d.Yields x) (b : Ballot) : DiskContents.Yields { d with ballot := b } x :=
  ⟨h.sane, h.reached, h.bounded, h.image, h.log⟩

/-- Another commit index on the disk. -/
theorem note (h : d.Yields x) {n : Nat} (hn : n ≤ x.length) :
    DiskContents.Yields { d with commit := n } x :=
  ⟨h.sane, h.reached, hn, h.image, h.log⟩

/-- Another log on the disk: it is the history's, or what it lacked was added. -/
theorem move (h : d.Yields x) (hy : Sane y) (hxy : x.take d.base <+: y) (hc : d.commit ≤ y.length)
    {log : List Entry} (hlog : log = y.drop d.base ∨
      ∃ es, log = d.log ++ es ∧ y.drop d.base = x.drop d.base ++ es) :
    DiskContents.Yields { d with log := log } y where
  sane := hy
  reached := by
    have hle := hxy.length_le
    rwa [List.length_take_of_le h.reached] at hle
  bounded := hc
  image := h.image.congr h.reached hxy
  log := by
    rcases hlog with rfl | ⟨es, rfl, hes⟩
    · exact ⟨[], nofun, rfl⟩
    · obtain ⟨stale, hstale, hlog⟩ := h.log
      refine ⟨stale, hstale, ?_⟩
      rw [hlog, List.append_assoc, ← hes]
      rfl

/-- A later image on the disk, and the log as it was: what the image covers is skipped from now
on. -/
theorem overlay (h : d.Yields x) {i : Image} (hn : d.base ≤ i.lastIndex) (hy : Sane y)
    (hle : i.lastIndex ≤ y.length) (hc : d.commit ≤ y.length)
    (hi : Pictures (some i) y i.lastIndex) (hdrop : y.drop i.lastIndex = x.drop i.lastIndex) :
    DiskContents.Yields { d with image := some i } y where
  sane := hy
  reached := hle
  bounded := hc
  image := hi
  log := by
    obtain ⟨stale, hstale, hlog⟩ := h.log
    refine ⟨stale ++ (x.drop d.base).take (i.lastIndex - d.base), fun e he => ?_, ?_⟩
    · rcases List.mem_append.1 he with he | he
      · exact Nat.le_trans (hstale e he) hn
      · obtain ⟨k, hk⟩ := List.getElem?_of_mem he
        have hlt := (List.getElem?_eq_some_iff.1 hk).1
        rw [List.length_take] at hlt
        rw [List.getElem?_take_of_lt (by omega), List.getElem?_drop] at hk
        have hindex := h.sane.index _ e hk
        have hbound : e.index ≤ i.lastIndex := by omega
        exact hbound
    · have hsplit := List.take_append_drop (i.lastIndex - d.base) (x.drop d.base)
      rw [List.drop_drop, Nat.add_sub_cancel' hn, ← hdrop] at hsplit
      rw [List.append_assoc]
      exact hlog.trans (congrArg _ hsplit.symm)

end DiskContents.Yields

/-- The ballot does not count for what a disk leaves. -/
theorem MemoryDisk.Leaves.rebind {d d' : MemoryDisk} {x : History} {low high : Nat}
    (h : d.Leaves x low high) (hu : d'.unreadable = d.unreadable) {b : Ballot}
    (hd : d'.contents = { d.contents with ballot := b }) : d'.Leaves x low high := by
  refine ⟨?_, ?_, ?_, hu.trans h.readable⟩ <;> rw [hd]
  · exact h.yields.rebind b
  · exact h.low
  · exact h.high

namespace Member

variable {m m' m'' : Member MemoryDisk} {x y : History}

/-! ## Bookkeeping -/

/-- What a member works on, and whether it has stopped. -/
def gist (m : Member MemoryDisk) : Core MemoryDisk × Bool := (m.core, m.stopped)

theorem gist_eq_iff : m'.gist = m.gist ↔ m'.core = m.core ∧ m'.stopped = m.stopped := by
  simp only [gist, Prod.mk.injEq]

theorem gist_stopHeartbeat (m : Member MemoryDisk) : m.stopHeartbeat.gist = m.gist := by
  unfold stopHeartbeat
  split <;> rfl

theorem gist_finish (m : Member MemoryDisk) : m.finish.gist = m.gist := by
  have hsettle : m.settleRole.gist = m.gist := by
    unfold settleRole
    split
    · split <;> rfl
    · simp only
      split
      · exact gist_stopHeartbeat m
      · exact gist_stopHeartbeat m
  exact hsettle

theorem gist_noteLeader (m : Member MemoryDisk) (resetTimer : Bool) :
    (m.noteLeader resetTimer).gist = m.gist := by
  unfold noteLeader
  split <;> rfl

theorem gist_dropWaiter (m : Member MemoryDisk) (index : Nat) :
    (m.dropWaiter index).gist = m.gist := by
  unfold dropWaiter
  split <;> rfl

theorem gist_await (m : Member MemoryDisk) (index : Nat) (w : Waiter) :
    (m.await index w).gist = m.gist := gist_dropWaiter m index

theorem Begins.gist (h : Begins m m') : m'.gist = m.gist := by
  obtain ⟨_, _, rfl, -⟩ := h
  rfl

/-- A member that halts keeps its core and stops. -/
theorem halted (m : Member MemoryDisk) (step : CriticalStep) (cause : ServiceError) :
    (m.halt step cause).finish.core = m.core ∧ (m.halt step cause).finish.stopped = true := by
  have hfinish := gist_eq_iff.1 (gist_finish (m.halt step cause))
  exact ⟨hfinish.1.trans (quiet_halt m step cause).core, hfinish.2⟩

/-! ## Writes -/

/-- A write gets through, or it fails and changes nothing. -/
theorem write_cases {w : DiskWrite} {e : Option IoError} (run : m.write w = (m', e)) :
    (e = none ∧ m' = { m with disk := { m.disk with
      tried := m.disk.tried + 1, contents := m.disk.contents.after w } }) ∨
    (e ≠ none ∧ m.disk.fails m.disk.tried w = true ∧
      m' = { m with disk := { m.disk with tried := m.disk.tried + 1 } }) := by
  simp only [write, Disk.write, MemoryDisk.write] at run
  split at run
  · next hfails =>
    cases run
    exact .inr ⟨Option.some_ne_none _, hfails, rfl⟩
  · cases run
    exact .inl ⟨rfl, rfl⟩

theorem write_ok {w : DiskWrite} (run : m.write w = (m', none)) :
    m' = { m with disk := { m.disk with
      tried := m.disk.tried + 1, contents := m.disk.contents.after w } } :=
  ((write_cases run).resolve_right fun hne => hne.1 rfl).2

/-- Whatever was written, the ballot and what the disk is were left alone. -/
structure Spares (m m' : Member MemoryDisk) : Prop where
  saved : m'.saved = m.saved
  ballot : m'.disk.contents.ballot = m.disk.contents.ballot
  fails : m'.disk.fails = m.disk.fails
  tried : m.disk.tried ≤ m'.disk.tried
  readable : m'.disk.unreadable = m.disk.unreadable
  stopped : m'.stopped = m.stopped

theorem Spares.trans (h : Spares m m') (h' : Spares m' m'') : Spares m m'' :=
  ⟨h'.saved.trans h.saved, h'.ballot.trans h.ballot, h'.fails.trans h.fails,
    Nat.le_trans h.tried h'.tried, h'.readable.trans h.readable, h'.stopped.trans h.stopped⟩

/-- The ballot in memory is stored, or the disk refused it. -/
def Offered (m : Member MemoryDisk) : Prop :=
  m.replica.ballot = m.saved ∨
    ∃ n < m.disk.tried, m.disk.fails n (.ballot m.replica.ballot) = true

theorem Offered.spares (h : m.Offered) (hs : Spares m m')
    (hb : m'.replica.ballot = m.replica.ballot) : m'.Offered := by
  rcases h with h | ⟨n, hn, hf⟩
  · exact .inl (hb.trans (h.trans hs.saved.symm))
  · exact .inr ⟨n, Nat.lt_of_lt_of_le hn hs.tried, by rw [hs.fails, hb]; exact hf⟩

/-- The ballot is stored, or nothing is. -/
theorem saveBallot_cases {e : Option IoError} (run : m.saveBallot = (m', e))
    (hstored : m.disk.contents.ballot = m.saved) :
    ∃ n, m.disk.tried ≤ n ∧
      ((e = none ∧ m' = { m with
          saved := m.replica.ballot
          disk := { m.disk with
            tried := n, contents := { m.disk.contents with ballot := m.replica.ballot } } }) ∨
        (e ≠ none ∧ m'.Offered ∧ m' = { m with disk := { m.disk with tried := n } })) := by
  unfold saveBallot at run
  split at run
  · next heq =>
    cases run
    refine ⟨m.disk.tried, Nat.le_refl _, .inl ⟨rfl, ?_⟩⟩
    have hballot : m.replica.ballot = m.disk.contents.ballot := heq.trans hstored.symm
    cases m
    simp only at heq hballot ⊢
    subst heq
    rw [hballot]
  · split at run
    · next m₁ hw =>
      cases run
      rcases write_cases hw with ⟨-, rfl⟩ | ⟨hne, -⟩
      · exact ⟨m.disk.tried + 1, Nat.le_succ _, .inl ⟨rfl, rfl⟩⟩
      · exact absurd rfl hne
    · next m₁ err hw =>
      cases run
      rcases write_cases hw with ⟨hnone, -⟩ | ⟨-, hfails, rfl⟩
      · cases hnone
      · exact ⟨m.disk.tried + 1, Nat.le_succ _, .inr ⟨nofun,
          .inr ⟨m.disk.tried, Nat.lt_succ_self _, hfails⟩, rfl⟩⟩

/-! ## Firm members -/

/-- Memory has the history: the log is the part of it above the base, the image stands for the part
below, and the machine is what the applied part makes of an empty one. -/
structure Knows (m : Member MemoryDisk) (x : History) : Prop where
  spans : m.replica.Spans x
  applied : m.replica.snapshotIndex ≤ m.replica.lastApplied
  committed : m.replica.lastApplied ≤ m.replica.commitIndex
  bounded : m.replica.commitIndex ≤ x.length
  machine : m.machine = Image.restore (x.take m.replica.lastApplied)
  executed : ∀ e ∈ (x.take m.replica.lastApplied).drop m.replica.snapshotIndex, e.command.Valued
  image : Pictures m.image x m.replica.snapshotIndex

/-- The disk yields the history that memory has, with the same base, and no more of it committed. -/
structure Mirrors (m : Member MemoryDisk) (x : History) : Prop extends Knows m x where
  yields : m.disk.contents.Yields x
  pictured : m.disk.contents.image = m.image
  noted : m.disk.contents.commit ≤ m.replica.commitIndex
  stored : m.disk.contents.ballot = m.saved
  readable : m.disk.unreadable = false

/-- What holds between sections. -/
structure Firm (m : Member MemoryDisk) (x : History) : Prop extends Mirrors m x where
  settled : m.replica.lastApplied = m.replica.commitIndex
  commit : m.disk.contents.commit = m.replica.commitIndex
  offered : m.Offered

theorem Knows.base_eq (h : m.Knows x) (hp : m.disk.contents.image = m.image) :
    m.disk.contents.base = m.replica.snapshotIndex := by
  have himage := h.image
  rw [← hp] at himage
  exact himage.base_eq

theorem Mirrors.base_eq (h : m.Mirrors x) : m.disk.contents.base = m.replica.snapshotIndex :=
  h.toKnows.base_eq h.pictured

theorem Mirrors.leaves (h : m.Mirrors x) :
    m.disk.Leaves x m.replica.snapshotIndex m.replica.commitIndex := by
  have hbase := h.base_eq
  refine ⟨h.yields, Nat.le_of_eq hbase.symm, ?_, h.readable⟩
  have happlied := h.applied
  have hcommitted := h.committed
  have hnoted := h.noted
  unfold DiskContents.reach
  omega

theorem Firm.reach_eq (h : m.Firm x) : m.disk.contents.reach = m.replica.commitIndex := by
  have hbase := h.base_eq
  have happlied := h.applied
  have hcommitted := h.committed
  unfold DiskContents.reach
  rw [h.commit]
  omega

theorem Knows.congr (h : m.Knows x) (hr : m'.replica = m.replica) (hm : m'.machine = m.machine)
    (hi : m'.image = m.image) : m'.Knows x := by
  constructor
  · rw [hr]; exact h.spans
  · rw [hr]; exact h.applied
  · rw [hr]; exact h.committed
  · rw [hr]; exact h.bounded
  · rw [hm, hr]; exact h.machine
  · rw [hr]; exact h.executed
  · rw [hi, hr]; exact h.image

theorem Mirrors.of_core (h : m.Mirrors x) (hc : m'.core = m.core) : m'.Mirrors x := by
  obtain ⟨hr, hd, hm, hi, hs⟩ := core_eq_iff.1 hc
  refine ⟨h.toKnows.congr hr hm hi, ?_, ?_, ?_, ?_, ?_⟩
  · rw [hd]; exact h.yields
  · rw [hd, hi]; exact h.pictured
  · rw [hd, hr]; exact h.noted
  · rw [hd, hs]; exact h.stored
  · rw [hd]; exact h.readable

theorem Firm.of_core (h : m.Firm x) (hc : m'.core = m.core) : m'.Firm x := by
  obtain ⟨hr, hd, -, -, hs⟩ := core_eq_iff.1 hc
  refine ⟨h.toMirrors.of_core hc, ?_, ?_, ?_⟩
  · rw [hr]; exact h.settled
  · rw [hd, hr]; exact h.commit
  · have hoffered := h.offered
    unfold Offered at hoffered ⊢
    rwa [hr, hd, hs]

/-! ## Applying -/

/-- The machine takes an entry exactly when it can be executed. -/
theorem applyEntry_eq_none (m : Member MemoryDisk) (e : Entry) :
    (m.applyEntry e).2 = none ↔ e.command.Valued := by
  cases happ : m.machine.apply e with
  | ok result =>
    simp only [applyEntry, happ, true_iff]
    intro hput
    unfold Machine.apply at happ
    cases hv : e.command.value with
    | some v => rfl
    | none =>
      simp only [hput, hv] at happ
      cases happ
  | error err =>
    simp only [applyEntry, happ, reduceCtorEq, false_iff]
    intro hv
    cases happ.symm.trans (Machine.apply_eq hv m.machine)

/-- The machine takes a stretch of entries whole exactly when all of them can be executed. -/
theorem applyAll_cases (m : Member MemoryDisk) (es : List Entry) : ∃ m' err,
    m.applyAll es = (m', err) ∧ m'.core = core { m with machine := m'.machine } ∧
      m'.stopped = m.stopped ∧ (err = none ↔ ∀ e ∈ es, e.command.Valued) ∧
      (err = none → m'.machine = es.foldl Image.replay m.machine) := by
  induction es generalizing m with
  | nil => exact ⟨m, none, rfl, rfl, rfl, by simp, fun _ => rfl⟩
  | cons e es ih =>
    have hvalued := applyEntry_eq_none m e
    obtain ⟨machine, effects, err, happ, hcases⟩ := applyEntry_cases m e
    rw [happ] at hvalued
    rw [applyAll, happ]
    cases err with
    | some err =>
      have hne := Option.some_ne_none err
      refine ⟨_, some err, rfl, rfl, rfl, iff_of_false hne fun hall => ?_, fun h => absurd h hne⟩
      exact hne (hvalued.2 (hall e List.mem_cons_self))
    | none =>
      obtain ⟨m', err', happ', hcore, hstopped, hiff, hmachine⟩ := ih { m with
        pending := m.pending.erase e.index, machine := machine, outbox := m.outbox ++ effects }
      refine ⟨m', err', happ', hcore, hstopped, ?_, fun hnone => ?_⟩
      · rw [hiff]
        simp [hvalued.1 rfl]
      · rcases hcases with ⟨hne, -⟩ | ⟨-, rfl, -⟩
        · exact absurd rfl hne
        · exact hmachine hnone

/-- What a compaction leaves, also where a write failed: the disk may have the new image without the
log after it. -/
structure Compacts (m m' : Member MemoryDisk) (x : History) : Prop where
  spares : Spares m m'
  replica : Replica.SameButLog m.replica m'.replica
  applied : m'.replica.lastApplied = m.replica.lastApplied
  commit : m'.disk.contents.commit = m.disk.contents.commit
  leaves : m'.disk.Leaves x m.replica.snapshotIndex m.replica.commitIndex

/-- The replica that has moved its base up to what is applied, and the image for that base. -/
theorem Knows.compact (h : m.Knows x) {r : Replica} {removed : List Entry}
    (hr : m.replica.compact m.replica.lastApplied = .ok (r, removed)) (now : Instant) :
    r.snapshotIndex = m.replica.lastApplied ∧ r.log = x.drop m.replica.lastApplied ∧
      Replica.SameButLog m.replica r ∧ r.lastApplied = m.replica.lastApplied ∧
      (removed = [] → m.replica.snapshotIndex = m.replica.lastApplied) ∧
      Pictures (some ⟨Image.fold (m.image.elim [] (·.entries)) removed, r.snapshotIndex,
        r.snapshotTerm, now⟩) x m.replica.lastApplied ∧
      ∀ image disk, Pictures image x m.replica.lastApplied →
        Knows { m with replica := r, image := image, disk := disk } x := by
  have happlied := h.applied
  have hlength : m.replica.lastApplied ≤ x.length := Nat.le_trans h.committed h.bounded
  obtain ⟨hspans, hremoved, log, term, rfl⟩ := h.spans.compact happlied hlength hr
  refine ⟨rfl, hspans.log, ⟨_, _, _, _, rfl⟩, rfl, fun hempty => ?_, ⟨rfl, hspans.term, ?_⟩,
    fun image disk himage => ?_⟩
  · have hlen := congrArg List.length hremoved
    rw [hempty, List.length_take, List.length_drop, List.length_nil] at hlen
    omega
  · -- what was folded and what is removed are together what is applied
    have hsum : m.replica.snapshotIndex + (m.replica.lastApplied - m.replica.snapshotIndex) =
        m.replica.lastApplied := Nat.add_sub_cancel' happlied
    have hfold := Pictures.fold h.image removed
    rw [hremoved, ← List.take_add, hsum] at hfold
    exact hremoved ▸ hfold
  · refine ⟨hspans, Nat.le_refl _, h.committed, h.bounded, h.machine, fun e he => ?_, himage⟩
    rw [List.drop_eq_nil_of_le (List.length_take_le _ _)] at he
    cases he

/-- There is nothing to compact, or the image is written and the log after it, or one of the two
writes failed. -/
theorem compaction_cases {now : Instant} {e : Option ServiceError}
    (run : m.takeImage now = .ok (m', e)) : ∃ r removed,
    m.replica.compact m.replica.lastApplied = .ok (r, removed) ∧
      ((removed = [] ∧ m' = { m with replica := r }) ∨
        ∃ n image, m.disk.tried ≤ n ∧
          image = ⟨Image.fold (m.image.elim [] (·.entries)) removed, r.snapshotIndex,
            r.snapshotTerm, now⟩ ∧
          (m' = { m with
              replica := r
              image := some image
              disk := { m.disk with
                tried := n
                contents := { m.disk.contents with image := some image, log := r.log } } } ∨
            e ≠ none ∧ ∃ contents, m' = { m with
                replica := r, disk := { m.disk with tried := n, contents := contents } } ∧
              (contents = m.disk.contents ∨
                contents = { m.disk.contents with image := some image }))) := by
  unfold Member.takeImage at run
  obtain ⟨⟨r, removed⟩, hr, run⟩ := bind_eq_ok.1 run
  refine ⟨r, removed, hr, ?_⟩
  simp only at run
  split at run
  · next hnil =>
    cases run
    exact .inl ⟨List.isEmpty_iff.1 hnil, rfl⟩
  · split at run
    · next m₁ err hw =>
      cases run
      rcases write_cases hw with ⟨hnone, -⟩ | ⟨-, -, rfl⟩
      · cases hnone
      · exact .inr ⟨_, _, Nat.le_succ _, rfl, .inr ⟨nofun, _, rfl, .inl rfl⟩⟩
    · next m₁ hw =>
      obtain rfl := write_ok hw
      have htried : m.disk.tried ≤ m.disk.tried + 1 + 1 := by omega
      split at run
      · next m₂ err hw' =>
        cases run
        rcases write_cases hw' with ⟨hnone, -⟩ | ⟨-, -, rfl⟩
        · cases hnone
        · exact .inr ⟨_, _, htried, rfl, .inr ⟨nofun, _, rfl, .inr rfl⟩⟩
      · next m₂ hw' =>
        obtain rfl := write_ok hw'
        cases run
        exact .inr ⟨_, _, htried, rfl, .inl rfl⟩

/-- **Compaction.** If no write fails, memory and disk have moved their base together. -/
theorem Mirrors.takeImage (h : m.Mirrors x) {now : Instant} {e : Option ServiceError}
    (run : m.takeImage now = .ok (m', e)) : Compacts m m' x ∧ (e = none → m'.Mirrors x) := by
  have hleaves := h.leaves
  obtain ⟨r, removed, hr, hcases⟩ := compaction_cases run
  obtain ⟨hindex, hlog, hsame, hlast, hempty, himage, hknows⟩ := h.toKnows.compact hr now
  have hcommit := hsame.commit
  obtain ⟨hnil, rfl⟩ | ⟨n, image, hn, heq, hwritten⟩ := hcases
  · have hstay := h.image
    rw [hempty hnil] at hstay
    exact ⟨⟨⟨rfl, rfl, rfl, Nat.le_refl _, rfl, rfl⟩, hsame, hlast, rfl, hleaves⟩, fun _ =>
      ⟨hknows m.image m.disk hstay, h.yields, h.pictured, hcommit.symm ▸ h.noted, h.stored,
        h.readable⟩⟩
  · rw [← heq] at himage
    have hbase := h.base_eq
    have happlied := h.applied
    have hcommitted := h.committed
    have hbounded := h.bounded
    have hnoted := h.noted
    have hlastIndex : image.lastIndex = m.replica.lastApplied := himage.1
    have hlow : m.replica.snapshotIndex ≤ image.lastIndex := by omega
    have hhigh : max image.lastIndex m.disk.contents.commit ≤ m.replica.commitIndex := by omega
    have hover : DiskContents.Yields { m.disk.contents with image := some image } x :=
      h.yields.overlay (by omega) h.spans.sane (by omega) h.yields.bounded (hlastIndex ▸ himage) rfl
    rcases hwritten with rfl | ⟨hne, contents, rfl, rfl | rfl⟩
    · have hyields : DiskContents.Yields
          { m.disk.contents with image := some image, log := r.log } x := by
        refine hover.move h.spans.sane (List.take_prefix _ _) h.yields.bounded (.inl ?_)
        rw [hlog]
        exact congrArg x.drop hlastIndex.symm
      exact ⟨⟨⟨rfl, rfl, rfl, hn, rfl, rfl⟩, hsame, hlast, rfl, ⟨hyields, hlow, hhigh, h.readable⟩⟩,
        fun _ => ⟨hknows (some image) _ himage, hyields, rfl, hcommit.symm ▸ hnoted, h.stored,
          h.readable⟩⟩
    · exact ⟨⟨⟨rfl, rfl, rfl, hn, rfl, rfl⟩, hsame, hlast, rfl,
        ⟨hleaves.yields, hleaves.low, hleaves.high, h.readable⟩⟩, fun hnone => absurd hnone hne⟩
    · exact ⟨⟨⟨rfl, rfl, rfl, hn, rfl, rfl⟩, hsame, hlast, rfl, ⟨hover, hlow, hhigh, h.readable⟩⟩,
        fun hnone => absurd hnone hne⟩

/-- What is committed is applied, and the disk has the commit index. -/
def CaughtUp (m : Member MemoryDisk) : Prop :=
  m.replica.lastApplied = m.replica.commitIndex ∧
    m.disk.contents.commit = m.replica.commitIndex

/-- What applying leaves, also where it failed. -/
structure Applied (m m' : Member MemoryDisk) (x : History) : Prop where
  spares : Spares m m'
  replica : Replica.SameButLog m.replica m'.replica
  leaves : m'.disk.Leaves x m.replica.snapshotIndex m.replica.commitIndex

/-- A disk that learns the commit index yields what it did. -/
theorem Mirrors.leaves_commit (h : m.Mirrors x) {n : Nat} (hn : m.disk.tried ≤ n) :
    Spares m (m.counted n) ∧
      (m.counted n).disk.Leaves x m.replica.snapshotIndex m.replica.commitIndex := by
  have hbase := h.base_eq
  have happlied := h.applied
  have hcommitted := h.committed
  refine ⟨⟨rfl, rfl, rfl, hn, rfl, rfl⟩,
    ⟨h.yields.note h.bounded, Nat.le_of_eq hbase.symm, ?_, h.readable⟩⟩
  have hreach : max m.disk.contents.base m.replica.commitIndex ≤ m.replica.commitIndex := by omega
  exact hreach

/-- All that is committed was taken by the machine. -/
theorem Mirrors.applyAll (h : m.Mirrors x) {n : Nat}
    (hcore : m'.core = core { m.counted n with machine := m'.machine })
    (hvalued : ∀ e ∈ (x.drop m.replica.lastApplied).take
      (m.replica.commitIndex - m.replica.lastApplied), e.command.Valued)
    (hmachine : m'.machine = ((x.drop m.replica.lastApplied).take
      (m.replica.commitIndex - m.replica.lastApplied)).foldl Image.replay m.machine) :
    m'.Mirrors x ∧ m'.CaughtUp := by
  obtain ⟨hreplica, hdisk, -⟩ := core_eq_iff.1 hcore
  have hsum : x.take m.replica.commitIndex = x.take m.replica.lastApplied ++
      (x.drop m.replica.lastApplied).take (m.replica.commitIndex - m.replica.lastApplied) := by
    rw [← List.take_add, Nat.add_sub_cancel' h.committed]
  have hbase : m.replica.snapshotIndex ≤ m.replica.commitIndex :=
    Nat.le_trans h.applied h.committed
  have hmirrors : Mirrors { m.counted n with machine := m'.machine } x := by
    refine ⟨⟨h.spans.congr rfl rfl rfl, hbase, Nat.le_refl _, h.bounded, ?_, ?_, h.image⟩, ?_,
      h.pictured, Nat.le_refl _, h.stored, h.readable⟩
    · simp only [counted]
      rw [hmachine, h.machine, hsum, Image.restore_append]
    · intro e he
      simp only [counted] at he
      have hlen : m.replica.snapshotIndex ≤ (x.take m.replica.lastApplied).length := by
        rw [List.length_take_of_le (Nat.le_trans h.committed h.bounded)]
        exact h.applied
      rw [hsum, List.drop_append_of_le_length hlen] at he
      rcases List.mem_append.1 he with he | he
      · exact h.executed e he
      · exact hvalued e he
    · exact h.yields.note h.bounded
  refine ⟨hmirrors.of_core hcore, ?_, ?_⟩
  · rw [hreplica]
    rfl
  · rw [hdisk, hreplica]
    rfl

/-- The machine took what it could, and nothing else has changed. -/
theorem Applied.of_core (h : m.Mirrors x) {n : Nat} (hn : m.disk.tried ≤ n)
    (hcore : m'.core = core { m.counted n with machine := m'.machine })
    (hstopped : m'.stopped = m.stopped) : Applied m m' x := by
  obtain ⟨hspares, hleft⟩ := h.leaves_commit hn
  obtain ⟨hr, hd, -, -, hs⟩ := core_eq_iff.1 hcore
  refine ⟨⟨hs, ?_, ?_, ?_, ?_, hstopped⟩, hr ▸ ⟨_, _, _, _, rfl⟩, hd ▸ hleft⟩ <;> rw [hd]
  · exact hspares.ballot
  · exact hspares.fails
  · exact hspares.tried
  · exact hspares.readable

/-- Applying and then compacting. -/
theorem Applied.compacts (h : Applied m m' x) (hc : Compacts m' m'' x)
    (hbase : m'.replica.snapshotIndex = m.replica.snapshotIndex) : Applied m m'' x := by
  have hl := hc.leaves
  rw [hbase, h.replica.commit] at hl
  exact ⟨h.spares.trans hc.spares, h.replica.trans hc.replica, hl⟩

/-- **Applying**, whether or not the log is compacted afterwards. -/
theorem Mirrors.applyCommitted (h : m.Mirrors x) {now : Instant} {e : Option ServiceError}
    (run : m.applyCommitted now = .ok (m', e)) :
    Applied m m' x ∧ (e = none → m'.Mirrors x ∧ m'.CaughtUp) := by
  have hleaves := h.leaves
  unfold Member.applyCommitted at run
  split at run
  · next m₁ err hw =>
    cases run
    rcases write_cases hw with ⟨hnone, -⟩ | ⟨-, -, rfl⟩
    · cases hnone
    · exact ⟨⟨⟨rfl, rfl, rfl, Nat.le_succ _, rfl, rfl⟩, .refl _,
        ⟨hleaves.yields, hleaves.low, hleaves.high, h.readable⟩⟩, nofun⟩
  · next m₁ hw =>
    obtain rfl := write_ok hw
    rw [h.spans.takeCommitted h.applied h.committed h.bounded] at run
    obtain ⟨m₂, err, happ, hcore, hstopped, hiff, hmachine⟩ :=
      applyAll_cases (m.counted (m.disk.tried + 1)) ((x.drop m.replica.lastApplied).take
        (m.replica.commitIndex - m.replica.lastApplied))
    have happlied : Applied m m₂ x := .of_core h (Nat.le_succ _) hcore hstopped
    have hcaught : err = none → m₂.Mirrors x ∧ m₂.CaughtUp := fun hnone =>
      h.applyAll hcore (hiff.1 hnone) (hmachine hnone)
    unfold counted at happ
    simp only at run
    split at run
    · next hempty =>
      rw [List.isEmpty_iff.1 hempty] at happ
      cases happ
      cases run
      exact ⟨happlied, fun _ => hcaught rfl⟩
    · rw [happ] at run
      cases err with
      | some err =>
        cases run
        exact ⟨happlied, nofun⟩
      | none =>
        obtain ⟨hmirrors, hall, hcommit⟩ := hcaught rfl
        simp only at run
        split at run
        · obtain ⟨hcompacts, hmirrors'⟩ := hmirrors.takeImage run
          have hsame := hcompacts.replica.commit
          have hbase : m₂.replica.snapshotIndex = m.replica.snapshotIndex := by
            rw [(core_eq_iff.1 hcore).1]
            rfl
          refine ⟨happlied.compacts hcompacts hbase, fun hnone => ⟨hmirrors' hnone, ?_, ?_⟩⟩
          · rw [hcompacts.applied, hall, hsame]
          · rw [hcompacts.commit, hcommit, hsame]
        · cases run
          exact ⟨happlied, fun _ => ⟨hmirrors, hall, hcommit⟩⟩

end Member

end ReplicatedStore
