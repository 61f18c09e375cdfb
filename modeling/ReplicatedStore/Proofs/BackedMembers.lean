import ReplicatedStore.Proofs.MemberSections
/-!
# Members and what is on their disks

Between the sections of a member that can be asked anything, the image in memory and on disk belongs
to the base of the log (`Member.Backed`). From one point of a run to a later one either disk and
memory have got the same new entries at the ends of their logs, or the disk was given the whole log
(`Member.Retains`). Both hold of every stage of a section, so of every section, and of every run
(`Works.lasts`).

What a start reads is `load_eq_ok_iff`. Whatever is on the disk, the member is backed by it
(`backed_load`).
-/
namespace ReplicatedStore

namespace Member

variable {m m' m'' : Member MemoryDisk} {P : Replica → AppendRequest → Prop}

/-! ## The disk -/

/-- What holds between sections: the log is lined up, and the image, in memory and on disk, belongs
to its base. -/
structure Backed (m : Member MemoryDisk) : Prop where
  sourced : m.replica.Sourced Entry.Placeable
  base : m.disk.contents.base = m.replica.snapshotIndex
  image : m.Illustrated
  readable : m.disk.unreadable = false

/-- What memory and disk have got from one point to a later one: the same entries at the end of both
logs, or the disk was given the whole log. -/
inductive Retains (m m' : Member MemoryDisk) : Prop
  | grown (es : List Entry) (base : m'.replica.snapshotIndex = m.replica.snapshotIndex)
      (memory : m'.replica.log = m.replica.log ++ es)
      (disk : m'.disk.contents.log = m.disk.contents.log ++ es)
  | rewritten (log : m'.disk.contents.log = m'.replica.log)

theorem Retains.same (base : m'.replica.snapshotIndex = m.replica.snapshotIndex)
    (memory : m'.replica.log = m.replica.log)
    (disk : m'.disk.contents.log = m.disk.contents.log) : Retains m m' :=
  .grown [] base (by rw [memory, List.append_nil]) (by rw [disk, List.append_nil])

theorem Retains.trans (h : Retains m m') (h' : Retains m' m'') : Retains m m'' := by
  cases h' with
  | rewritten log => exact .rewritten log
  | grown es base memory disk =>
    cases h with
    | rewritten log => exact .rewritten (by rw [disk, memory, log])
    | grown es₀ base₀ memory₀ disk₀ =>
      exact .grown (es₀ ++ es) (base.trans base₀) (by rw [memory, memory₀, List.append_assoc])
        (by rw [disk, disk₀, List.append_assoc])

/-- The member is backed by its disk, and neither lacks what the other has got. -/
structure Lasts (m m' : Member MemoryDisk) : Prop where
  backed : m'.Backed
  retains : Retains m m'

theorem Lasts.trans (h : Lasts m m') (h' : Lasts m' m'') : Lasts m m'' :=
  ⟨h'.backed, h.retains.trans h'.retains⟩

namespace Backed

/-- Neither the log nor what is stored of it changes. -/
theorem same (h : m.Backed) (hlog : m'.replica.log = m.replica.log)
    (hbase : m'.replica.snapshotIndex = m.replica.snapshotIndex)
    (hterm : m'.replica.snapshotTerm = m.replica.snapshotTerm) (hs : SameStore m m') :
    Lasts m m' := by
  refine ⟨⟨h.sourced.congr hlog hbase, ?_, fun hpos => ?_, hs.readable.trans h.readable⟩,
    .same hbase hlog hs.log⟩
  · rw [DiskContents.base, hs.stored, hbase]
    exact h.base
  · rw [hbase] at hpos
    rw [hs.image, hbase, hterm]
    exact h.image hpos

theorem digests (h : m.Backed) {n : Nat} (hd : m.Digests m' n) : Lasts m m' := by
  obtain ⟨t, ht, hr⟩ := hd.replica
  rcases Nat.eq_zero_or_pos n with rfl | hpos
  · obtain ⟨himage, hdisk⟩ := hd.kept rfl
    refine h.same ?_ ?_ ?_ ⟨himage, by rw [hdisk], by rw [hdisk], hd.readable⟩ <;> rw [hr]
    · rfl
    · rfl
    · exact ht rfl
  · obtain ⟨i, himage, hindex, hterm, hstored, hlog⟩ := hd.folded hpos
    refine ⟨⟨?_, ?_, fun _ => ⟨i, himage, hindex, hterm⟩, hd.readable.trans h.readable⟩,
      .rewritten hlog⟩
    · exact h.sourced.drop n (by rw [hr]) (by rw [hr])
    · rw [DiskContents.base, hstored, ← hindex]
      rfl

/-- **How a section begins.** -/
theorem opening (h : m.Backed) (ho : Opening P m m') : Lasts m m' := by
  cases ho with
  | turns _ same store _ => exact h.same same.log same.base same.baseTerm store
  | enlists e _ sourced _ _ replica image log stored readable _ =>
    refine ⟨⟨sourced, ?_, fun hpos => ?_, readable.trans h.readable⟩, .grown [e] ?_ ?_ log⟩
    · rw [DiskContents.base, stored, replica]
      exact h.base
    · rw [replica] at hpos ⊢
      rw [image]
      exact h.image hpos
    · rw [replica]
    · rw [replica]
  | takes q o _ run image logs stored readable _ =>
    have hany := h.sourced.takeAny run
    refine ⟨⟨hany.sourced, ?_, fun hpos => ?_, readable.trans h.readable⟩, ?_⟩
    · rw [DiskContents.base, stored, hany.base]
      exact h.base
    · rw [hany.base] at hpos
      rw [image, hany.base, hany.baseTerm]
      exact h.image hpos
    · have hreported := hany.reported
      match o.change, hreported, logs with
      | none, hreported, logs => exact .same hany.base hreported logs
      | some .rewritten, _, logs => exact .rewritten logs
      | some (.appended start), hreported, logs =>
        obtain ⟨rfl, es, hes⟩ := hreported
        obtain ⟨es', hfrom, hdisk⟩ := logs
        refine .grown es hany.base hes.symm ?_
        rw [hdisk, h.sourced.entriesFrom_eq hany.base hes.symm hfrom]
  | images i term leader _ rebased image stored log readable _ =>
    obtain ⟨log', hr⟩ := Replica.exists_rebase rebased
    refine ⟨⟨?_, ?_, fun _ => ⟨i, image, ?_, ?_⟩, readable.trans h.readable⟩, .rewritten log⟩
    · exact (h.sourced.of_sameLog (Replica.sameLog_accept ..)).rebase rebased
    · rw [DiskContents.base, stored, hr]
      rfl
    · rw [hr]
    · rw [hr]

theorem commits (h : m.Backed) (hc : Commits m m') : Lasts m m' := by
  cases hc with
  | stays eq => exact eq ▸ h.same rfl rfl rfl (.refl m)
  | moves _ _ _ _ eq => exact h.same (eq ▸ rfl) (eq ▸ rfl) (eq ▸ rfl) (eq ▸ ⟨rfl, rfl, rfl, rfl⟩)

/-- **A section.** -/
theorem passage (h : m.Backed) (hp : Passage P m m') : Lasts m m' := by
  cases hp with
  | quiet replica store _ _ =>
    exact h.same (by rw [replica]) (by rw [replica]) (by rw [replica]) store
  | ends a b c opening commits digests core _ _ =>
    have ha := h.opening opening
    have hb := ha.trans (ha.backed.commits commits)
    have hc : Lasts m c := by
      rcases digests with rfl | ⟨n, hd⟩
      · exact hb
      · exact hb.trans (hb.backed.digests hd)
    have hcore := core.trans (quiet_finish c).core
    have hr := (core_eq_iff.1 hcore).1
    exact hc.trans (hc.backed.same (by rw [hr]) (by rw [hr]) (by rw [hr]) (.of_core hcore))

end Backed

theorem Section.lasts (h : Section P m m') (hm : m.Backed) (up : m'.stopped = false) :
    Lasts m m' := hm.passage (h.passage hm.sourced up)

/-- **A run.** -/
theorem Works.lasts (h : Works P m m') (hm : m.Backed) (up : m'.stopped = false) : Lasts m m' := by
  induction h with
  | refl => exact hm.same rfl rfl rfl (.refl _)
  | act run up' act ih =>
    have hrun := ih up'
    exact hrun.trans (act.lasts hrun.backed up)
  | drain run ih =>
    have hrun := ih up
    exact hrun.trans (hrun.backed.same rfl rfl rfl ⟨rfl, rfl, rfl, rfl⟩)

end Member

/-! ## Starting -/

namespace Replica

variable {r r' : Replica} {e : Entry} {es : List Entry} {loaded loaded' : Nat}

/-- A stored entry that is in the log already is skipped. -/
theorem loadLog_of_le (h : e.index ≤ r.lastIndex) :
    r.loadLog loaded (e :: es) = r.loadLog loaded es := by rw [Replica.loadLog, if_pos h]

/-- The one that comes next is added. -/
theorem loadLog_of_eq (h : e.index = r.lastIndex + 1) (fits : e.Placeable) :
    r.loadLog loaded (e :: es) =
      Replica.loadLog { r with log := r.log ++ [e] } (loaded + 1) es := by
  have hf : Word.add r.lastIndex 1 = .ok e.index := Word.add_eq_ok_iff.2 ⟨h ▸ fits, h.symm⟩
  rw [Replica.loadLog, if_neg (by omega), hf]
  exact if_pos rfl

/-- One beyond that ends it. -/
theorem loadLog_of_lt (h : r.lastIndex + 1 < e.index) (fits : r.lastIndex + 1 ≤ maxWord) :
    r.loadLog loaded (e :: es) = .ok (r, loaded) := by
  have hf : Word.add r.lastIndex 1 = .ok (r.lastIndex + 1) := Word.add_eq_ok_iff.2 ⟨fits, rfl⟩
  rw [Replica.loadLog, if_neg (by omega), hf]
  exact if_neg (by omega)

theorem loadLog_cases {p : Replica × Nat} (run : r.loadLog loaded (e :: es) = .ok p) :
    e.index ≤ r.lastIndex ∨ (e.index = r.lastIndex + 1 ∧ e.Placeable) ∨
      (r.lastIndex + 1 < e.index ∧ r.lastIndex + 1 ≤ maxWord) := by
  rw [Replica.loadLog] at run
  split at run
  · next hle => exact .inl hle
  · obtain ⟨following, hf, -⟩ := bind_eq_ok.1 run
    obtain ⟨hfits, -⟩ := Word.add_eq_ok_iff.1 hf
    unfold Entry.Placeable
    omega

/-- A stored log is read into the log, whatever is stored. -/
theorem loadLog_placeable (h : r.Sourced Entry.Placeable)
    (run : r.loadLog loaded es = .ok (r', loaded')) :
    r'.Sourced Entry.Placeable ∧ ∃ log, r' = { r with log := log } := by
  induction es generalizing r loaded with
  | nil =>
    cases run
    exact ⟨h, _, rfl⟩
  | cons e es ih =>
    rcases loadLog_cases run with hle | ⟨heq, hfits⟩ | ⟨hlt, hfits⟩
    · exact ih h (loadLog_of_le hle ▸ run)
    · obtain ⟨hs, log, rfl⟩ := ih (h.concat heq hfits) (loadLog_of_eq heq hfits ▸ run)
      exact ⟨hs, log, rfl⟩
    · cases (loadLog_of_lt hlt hfits).symm.trans run
      exact ⟨h, _, rfl⟩

end Replica

namespace Member

variable {m m' : Member MemoryDisk} {s : MemberSettings} {d : MemoryDisk}

/-- A member that has read the ballot and the image of a disk, and nothing of the log yet. -/
def grounded (s : MemberSettings) (d : MemoryDisk) : Member MemoryDisk :=
  ((blank s d).recoverBallot d.contents.ballot).recoverImage d.contents.image

/-- What such a member is. -/
structure Grounded (d : MemoryDisk) (m : Member MemoryDisk) : Prop where
  log : m.replica.log = []
  base : m.replica.snapshotIndex = d.contents.base
  applied : m.replica.lastApplied = d.contents.base
  commit : m.replica.commitIndex = d.contents.base
  role : m.replica.role = .follower
  image : m.Illustrated
  disk : m.disk = d
  pending : m.pending = .empty
  beating : m.beating = false

theorem grounded_spec (s : MemberSettings) (d : MemoryDisk) : Grounded d (grounded s d) := by
  unfold grounded
  cases hi : d.contents.image with
  | none =>
    have hbase : d.contents.base = 0 := by rw [DiskContents.base, hi]; rfl
    exact ⟨rfl, hbase.symm, hbase.symm, hbase.symm, rfl, fun h => absurd h (Nat.lt_irrefl 0), rfl,
      rfl, rfl⟩
  | some i =>
    have hbase : d.contents.base = i.lastIndex := by rw [DiskContents.base, hi]; rfl
    exact ⟨rfl, hbase.symm, (Nat.zero_max _).trans hbase.symm, (Nat.zero_max _).trans hbase.symm,
      rfl, fun _ => ⟨i, rfl, rfl, rfl⟩, rfl, rfl, rfl⟩

/-- Its log is empty, so it is lined up. -/
theorem Grounded.sourced (h : Grounded d m) : m.replica.Sourced Entry.Placeable := by
  refine ⟨?_, fun e he => ?_⟩
  · rw [h.log]
    exact .nil _
  · rw [h.log] at he
    cases he

/-- **A start reads the log** onto the image, if the disk can be read. -/
theorem load_eq_ok_iff : (blank s d).load = .ok (.ok m) ↔ d.unreadable = false ∧
    ∃ r n, (grounded s d).replica.loadLog 0 d.contents.log = .ok (r, n) ∧
      m = { grounded s d with replica := r.restoreCommit d.contents.commit } := by
  have hdisk : (blank s d).disk = d := rfl
  unfold load
  simp only [Disk.readBallot, Disk.readImage, Disk.readLog, Disk.readCommit, hdisk]
  cases d.unreadable with
  | true => simp [bind, Except.bind]
  | false =>
    simp only [bind, Except.bind, pure, Except.pure, Bool.false_eq_true, if_false, true_and]
    rw [show ((blank s d).recoverBallot d.contents.ballot).recoverImage d.contents.image =
      grounded s d from rfl, recoverLog]
    cases (grounded s d).replica.loadLog 0 d.contents.log with
    | error e => simp [bind, Except.bind]
    | ok p =>
      obtain ⟨r, n⟩ := p
      simp only [bind, Except.bind, pure, Except.pure, Except.ok.injEq, Prod.mk.injEq]
      constructor
      · rintro rfl
        exact ⟨r, n, ⟨rfl, rfl⟩, rfl⟩
      · rintro ⟨_, _, ⟨rfl, rfl⟩, rfl⟩
        rfl

/-- What a start has read is the image with a log after it. -/
theorem exists_loaded (run : (blank s d).load = .ok (.ok m)) : d.unreadable = false ∧
    ∃ log, Replica.Sourced Entry.Placeable { (grounded s d).replica with log := log } ∧
      m = { grounded s d with
        replica := Replica.restoreCommit { (grounded s d).replica with log := log }
          d.contents.commit } := by
  obtain ⟨hu, r, n, hr, rfl⟩ := load_eq_ok_iff.1 run
  obtain ⟨hs, log, rfl⟩ := Replica.loadLog_placeable (grounded_spec s d).sourced hr
  exact ⟨hu, log, hs, rfl⟩

/-- The member is backed by the disk that it read. -/
theorem backed_load (run : (blank s d).load = .ok (.ok m)) : m.Backed := by
  obtain ⟨hu, log, hs, rfl⟩ := exists_loaded run
  have h := grounded_spec s d
  have hbase : (grounded s d).disk.contents.base = (grounded s d).replica.snapshotIndex := by
    rw [h.disk, h.base]
  exact ⟨hs.congr rfl rfl, hbase, h.image, (congrArg MemoryDisk.unreadable h.disk).trans hu⟩

/-- A member starts from what it has read, and applies what was committed. -/
theorem start_digests {now : Instant} (run : start s d now = .ok (.ok m')) :
    ∃ m n, (blank s d).load = .ok (.ok m) ∧ m.Digests m' n := by
  obtain ⟨-, m, m₁, hload, happ, rfl⟩ := start_cases run
  obtain ⟨n, hd⟩ := digests_applyCommitted (backed_load hload).sourced happ
  exact ⟨m, n, hload, hd.length, hd.covered, hd.replica, hd.kept, hd.folded, hd.readable,
    hd.beating, hd.pending⟩

end Member

end ReplicatedStore
