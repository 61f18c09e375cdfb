import ReplicatedStore.Proofs.SteadySections
/-!
# Restarts

What a disk keeps of the member that ran on it. `MemoryDisk.Keeps d x` says that the disk holds a
history: an image of its beginning, the rest as log, and a commit index in the rest. A member that
is steady leaves such a disk behind, and one that starts on it is steady with the same history,
the same ballot and the same commit index.

Reading the log back goes through `Replica.loadLog`, which adds stored entries one by one.
-/
namespace ReplicatedStore

open History

/-- Where the log of a disk starts. -/
def DiskContents.base (contents : DiskContents) : Nat := contents.image.elim 0 (·.lastIndex)

theorem Pictures.base_eq {contents : DiskContents} {x : History} {base : Nat}
    (h : Pictures contents.image x base) : contents.base = base := by
  unfold DiskContents.base
  cases hi : contents.image with
  | none =>
    rw [hi] at h
    exact h.symm
  | some i =>
    rw [hi] at h
    exact h.1

/-- The disk holds the history. -/
structure MemoryDisk.Keeps (d : MemoryDisk) (x : History) : Prop where
  log : d.contents.log = x.drop d.contents.base
  image : Pictures d.contents.image x d.contents.base
  reached : d.contents.base ≤ d.contents.commit
  bounded : d.contents.commit ≤ x.length
  sane : Sane x
  reliable : ∀ n w, d.fails n w = false

/-- Reading a stored log back, from any position that is reached. -/
theorem Replica.Spans.loadLog {x : History} (hx : Sane x) (n : Nat) {k : Nat} {r r' : Replica}
    {loaded loaded' : Nat} (hn : k + n = x.length) (h : r.Spans (x.take k))
    (run : r.loadLog loaded (x.drop k) = .ok (r', loaded')) :
    (∃ log, r' = { r with log := log }) ∧ r'.Spans x := by
  induction n generalizing k r loaded with
  | zero =>
    rw [List.drop_eq_nil_of_le (by omega)] at run
    cases run
    rw [List.take_of_length_le (by omega)] at h
    exact ⟨⟨_, rfl⟩, h⟩
  | succ n ih =>
    have hk : k < x.length := by omega
    have hget : x[k]? = some x[k] := List.getElem?_eq_getElem hk
    have hindex : x[k].index = k + 1 := hx.index k _ hget
    have hlast : r.lastIndex = k := h.lastIndex_eq.trans (List.length_take_of_le (by omega))
    have hsucc : x.take (k + 1) = x.take k ++ [x[k]] := by rw [List.take_add_one, hget]; rfl
    rw [List.drop_eq_getElem_cons hk, Replica.loadLog, if_neg (by omega)] at run
    obtain ⟨following, hf, run⟩ := bind_eq_ok.1 run
    obtain ⟨-, rfl⟩ := Word.add_eq_ok_iff.1 hf
    rw [if_pos (by omega)] at run
    have hspans : ({ r with log := r.log ++ [x[k]] } : Replica).Spans (x.take (k + 1)) := by
      rw [hsucc]
      exact h.concat (hsucc ▸ hx.of_isPrefix (List.take_prefix _ _))
    obtain ⟨⟨log, rfl⟩, hs⟩ := ih (by omega) hspans run
    exact ⟨⟨log, rfl⟩, hs⟩

namespace Member

variable {m m' : Member MemoryDisk} {x : History} {d d' : MemoryDisk}

/-- A member that knows its disk's commit index leaves its history on the disk. -/
theorem Holds.keeps (h : m.Holds x) (hcommit : m.disk.contents.commit = m.replica.commitIndex) :
    m.disk.Keeps x := by
  have himage : Pictures m.disk.contents.image x m.replica.snapshotIndex := by
    rw [h.pictured]
    exact h.image
  have hbase := himage.base_eq
  constructor
  · rw [hbase, h.stored, h.spans.log]
  · rw [hbase]; exact himage
  · rw [hbase, hcommit]; exact Nat.le_trans h.applied h.committed
  · rw [hcommit]; exact h.bounded
  · exact h.spans.sane
  · exact h.reliable

theorem Steady.keeps (h : m.Steady x) : m.disk.Keeps x := h.toHolds.keeps h.commit

/-- A member that is starting, when it has read the image and not the log yet. -/
theorem recoverImage_spec (hpict : Pictures d.contents.image x d.contents.base)
    (hbase : d.contents.base ≤ x.length) (hx : Sane x) (s : MemberSettings) (b : Ballot)
    (hm : ((blank s d).recoverBallot b).recoverImage d.contents.image = m) :
    m.replica.Spans (x.take d.contents.base) ∧ m.replica.snapshotIndex = d.contents.base ∧
      m.replica.lastApplied = d.contents.base ∧ m.replica.commitIndex = d.contents.base ∧
      m.machine = Image.restore (x.take d.contents.base) ∧ m.image = d.contents.image ∧
      m.disk = d ∧ m.outbox = [] ∧ m.pending = .empty := by
  subst hm
  have hlen : (x.take d.contents.base).length = d.contents.base := List.length_take_of_le hbase
  have hsane : Sane (x.take d.contents.base) := hx.of_isPrefix (List.take_prefix _ _)
  generalize d.contents.base = base at hlen hsane hpict hbase ⊢
  cases hi : d.contents.image with
  | none =>
    rw [hi] at hpict
    obtain rfl : base = 0 := hpict
    exact ⟨⟨Nat.le_refl _, rfl, rfl, hsane⟩, rfl, rfl, rfl, rfl, rfl, rfl, rfl, rfl⟩
  | some i =>
    rw [hi] at hpict
    obtain ⟨rfl, hterm, hentries⟩ := hpict
    refine ⟨⟨Nat.le_of_eq hlen.symm, ?_, ?_, hsane⟩, rfl, Nat.zero_max _, Nat.zero_max _, ?_, rfl,
      rfl, rfl, rfl⟩
    · exact (List.drop_eq_nil_of_le (Nat.le_of_eq hlen)).symm
    · exact hterm.trans (termAt_of_isPrefix (List.take_prefix _ _) (Nat.le_of_eq hlen.symm)).symm
    · have hrestore := Image.restore_fold [] (x.take i.lastIndex)
      rw [← hentries] at hrestore
      exact hrestore

/-- What a member that is starting holds once it has read the disk. -/
theorem load_keeps {s : MemberSettings} (h : d.Keeps x) (run : (blank s d).load = .ok (.ok m)) :
    m.Holds x ∧ m.replica.commitIndex = d.contents.commit ∧ m.disk = d ∧ m.outbox = [] ∧
      m.pending = .empty := by
  have hload : (((blank s d).recoverBallot d.contents.ballot).recoverImage
      d.contents.image).recoverLog d.contents.log d.contents.commit = .ok m := load_spec run
  obtain ⟨hs, hbase, happlied, hcommit, hmachine, himage, hdisk, hout, hpend⟩ :=
    recoverImage_spec h.image (Nat.le_trans h.reached h.bounded) h.sane s d.contents.ballot rfl
  generalize ((blank s d).recoverBallot d.contents.ballot).recoverImage d.contents.image = m₀
    at hs hbase happlied hcommit hmachine himage hdisk hout hpend hload
  obtain ⟨⟨r, n⟩, hr, hload⟩ := bind_eq_ok.1 hload
  have hreached := h.reached
  have hbounded := h.bounded
  rw [h.log] at hr
  obtain ⟨⟨log, rfl⟩, hspans⟩ :=
    hs.loadLog h.sane (x.length - d.contents.base) (by omega) hr
  have hlast := hspans.lastIndex_eq
  cases hload
  have hcommit' : (Replica.restoreCommit { m₀.replica with log := log }
      d.contents.commit).commitIndex = d.contents.commit := by
    simp only [Replica.restoreCommit]
    rw [hlast, hcommit]
    omega
  refine ⟨⟨hspans.congr rfl rfl rfl, ?_, ?_, ?_, ?_, ?_, ?_, ?_, ?_⟩, hcommit', hdisk, hout, hpend⟩
  · exact Nat.le_of_eq (hbase.trans happlied.symm)
  · rw [hcommit']
    exact Nat.le_trans (Nat.le_of_eq happlied) hreached
  · rw [hcommit']
    exact hbounded
  · simp only [Replica.restoreCommit, hmachine, happlied]
    exact fun _ => trivial
  · simp only [Replica.restoreCommit, himage, hbase]
    exact h.image
  · simp only [Replica.restoreCommit, hdisk, h.log]
    rw [show log = x.drop m₀.replica.snapshotIndex from hspans.log, hbase]
  · simp only [hdisk, himage]
  · simp only [hdisk]
    exact h.reliable

/-- **A member that starts on a disk has the history that the disk keeps.** -/
theorem steady_start {s : MemberSettings} {now : Instant} (h : d.Keeps x)
    (run : start s d now = .ok (.ok m)) :
    m.Steady x ∧ m.replica.commitIndex = d.contents.commit ∧
      m.replica.ballot = d.contents.ballot ∧ (∀ i, m.pending.get? i = none) ∧
      ∀ e ∈ m.outbox, e.Mute := by
  obtain ⟨-, m₀, m₁, hload, happ, rfl⟩ := start_cases run
  obtain ⟨hholds, hcommit, hdisk, hout, hpend⟩ := load_keeps h hload
  obtain ⟨hholds', happlies, hsettled, hcommit'⟩ := hholds.applyCommitted happ
  -- the ballot is in memory, on the disk, and known to be there
  have hstanding := (standing_applyCommitted happ).trans (standing_load hload)
  simp only [standing, Prod.mk.injEq, Replica.stance_eq_iff] at hstanding
  obtain ⟨⟨-, -, -, hballot, -⟩, hsaved, hstored⟩ := hstanding
  have hnone : ∀ i, m₁.pending.get? i = none := by
    intro i
    cases hi : m₁.pending.get? i with
    | none => rfl
    | some w =>
      have hw := happlies.credits.pending i w hi
      rw [hpend, Table.get?_empty] at hw
      cases hw
  refine ⟨?_, happlies.replica.commit.trans hcommit, hballot, hnone, ?_⟩
  · exact ⟨⟨hholds'.spans, hholds'.applied, hholds'.committed, hholds'.bounded, hholds'.machine,
      hholds'.image, hholds'.stored, hholds'.pictured, hholds'.reliable⟩, hsettled, hcommit',
      hstored.trans hballot.symm, hsaved.trans hballot.symm⟩
  · intro e he ticket a heq
    rcases happlies.credits.outbox e he with he | he
    · rw [hout] at he
      cases he
    · obtain ⟨k, w, e', hw, -⟩ := he ticket a heq
      rw [hpend, Table.get?_empty] at hw
      cases hw

/-- A start that fails leaves the history on the disk. -/
theorem start_error_keeps {s : MemberSettings} {now : Instant} {e : ServiceError} (h : d.Keeps x)
    (run : start s d now = .ok (.error (e, d'))) :
    d'.Keeps x ∧ d'.contents.commit = d.contents.commit := by
  obtain rfl | ⟨m₀, m₁, e', hload, happ, rfl⟩ := start_cases_error run
  · exact ⟨h, rfl⟩
  · obtain ⟨hholds, hcommit, -⟩ := load_keeps h hload
    obtain ⟨hholds', happlies, -, hstored⟩ := hholds.applyCommitted happ
    refine ⟨hholds'.keeps hstored, ?_⟩
    rw [hstored, happlies.replica.commit, hcommit]

end Member

end ReplicatedStore
