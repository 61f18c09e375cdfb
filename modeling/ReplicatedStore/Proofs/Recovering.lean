import ReplicatedStore.Proofs.RestartEquivalence
/-!
# Recovering from the middle of a section

A section that moves the image base writes the image first, then the log, then the commit index. The
node may stop after any of these writes (`Member.cutAfter`), and a start then finds a disk that no
section has left. `m.Recovers contents` says that whoever starts there resumes `m`.

* `Mirrors.recovers_fold`: a compaction can stop anywhere. What is recovered is the member before
  it.
* `Firm.recovers_install`: an installation that stops is recovered as the member before it or the
  one after it, unless it stops with the image on the disk and the log of before (`Torn`), and the
  member held another entry at the image's last position and more above it. The start decides by
  position alone which of these entries stay, the section decides by term.
-/
namespace ReplicatedStore

open History

namespace History

variable {x p : History} {b n : Nat}

/-- Entries are above a position exactly when they stand there. -/
theorem filter_drop (hx : Sane x) (hb : b ≤ n) :
    (x.drop b).filter (n < ·.index) = x.drop n := by
  have hsplit : x.drop b = (x.drop b).take (n - b) ++ x.drop n := by
    have happend := List.take_append_drop (n - b) (x.drop b)
    rw [List.drop_drop, Nat.add_sub_cancel' hb] at happend
    exact happend.symm
  rw [hsplit, List.filter_append, List.filter_eq_nil_iff.2 fun e he => ?_, List.nil_append,
    List.filter_eq_self.2 fun e he => ?_]
  · obtain ⟨k, hk⟩ := List.getElem?_of_mem he
    rw [List.getElem?_drop] at hk
    have hindex := hx.index _ e hk
    exact decide_eq_true (by omega)
  · obtain ⟨k, hk⟩ := List.getElem?_of_mem he
    have hlt := (List.getElem?_eq_some_iff.1 hk).1
    rw [List.length_take] at hlt
    rw [List.getElem?_take_of_lt (by omega), List.getElem?_drop] at hk
    have hindex := hx.index _ e hk
    simp only [decide_eq_true_eq]
    omega

/-- A prefix that is there already, or behind which nothing stands, is adopted as it is grafted. -/
theorem graft_eq_adopt (h : p <+: x ∨ x.length ≤ p.length) : graft x p = adopt x p := by
  by_cases hp : p <+: x
  · obtain ⟨t, rfl⟩ := hp
    rw [adopt, if_pos (List.prefix_append _ _), graft, List.drop_left]
  · rw [adopt, if_neg hp, graft, List.drop_eq_nil_of_le (h.resolve_left hp), List.append_nil]

end History

/-- As much is committed as is compacted. -/
theorem MemoryDisk.Leaves.reach_eq {d : MemoryDisk} {x : History} {n : Nat} (h : d.Leaves x n n) :
    d.contents.reach = n :=
  Nat.le_antisymm h.high (Nat.le_trans h.low (Nat.le_max_left _ _))

namespace Member

variable {m m' m₁ m₂ : Member MemoryDisk} {x y : History} {d : MemoryDisk} {now : Instant} {n : Nat}

/-! ## Stopping and going on -/

/-- The member, when none of its writes after the next `k` gets through. -/
def cutAfter (m : Member MemoryDisk) (k : Nat) : Member MemoryDisk :=
  { m with disk := m.disk.cutAfter k }

/-- The member on a disk that takes every write. -/
def mended (m : Member MemoryDisk) : Member MemoryDisk :=
  { m with disk := { m.disk with fails := fun _ _ => false } }

/-- The member with what another log holds above its base. -/
def keeping (m : Member MemoryDisk) (log : List Entry) : Member MemoryDisk :=
  { m with replica := { m.replica with log := log.filter (m.replica.snapshotIndex < ·.index) } }

theorem Mirrors.cutAfter (h : m.Mirrors x) (k : Nat) : (m.cutAfter k).Mirrors x :=
  ⟨h.toKnows.congr rfl rfl rfl, h.yields, h.pictured, h.noted, h.stored, h.readable⟩

/-- Whoever starts on what a disk holds resumes the member, and where the start can write it
succeeds. -/
def Recovers (m : Member MemoryDisk) (contents : DiskContents) : Prop :=
  ∀ (d : MemoryDisk) (now : Instant), d.contents = contents → d.unreadable = false →
    ((∀ n w, d.fails n w = false) →
      ∃ m', start m.replica.settings d now = .ok (.ok m')) ∧
    ∀ m', start m.replica.settings d now = .ok (.ok m') → m.Resumes m'

/-- A disk from which the member's history is read back, with as much of it committed and no less
compacted. -/
theorem Knows.recovers (h : m.Knows x) (hall : m.replica.lastApplied = m.replica.commitIndex)
    (hv : m.replica.settings.validate = .ok ()) (hw : x.length ≤ maxWord)
    (hl : d.Leaves x m.replica.snapshotIndex m.replica.commitIndex)
    (hreach : d.contents.reach = m.replica.commitIndex) : m.Recovers d.contents := by
  intro d' now hd hu
  have hl' : d'.Leaves x m.replica.snapshotIndex m.replica.commitIndex :=
    ⟨hd ▸ hl.yields, hd ▸ hl.low, hd ▸ hl.high, hu⟩
  have hreach' : d'.contents.reach = m.replica.commitIndex := hd ▸ hreach
  refine ⟨fun hrel => exists_start hl'.yields hu hrel hv hw (fun e he => ?_) now, fun m' run =>
    h.resumes hall hl' hreach' run⟩
  rw [hreach', ← hall, ← Nat.add_sub_cancel' hl'.low, ← List.drop_drop] at he
  exact h.executed e (List.mem_of_mem_drop he)

theorem Firm.recovers (h : m.Firm x) (hv : m.replica.settings.validate = .ok ())
    (hw : x.length ≤ maxWord) : m.Recovers m.disk.contents :=
  h.toKnows.recovers h.settled hv hw h.leaves h.reach_eq

/-! ## Compactions -/

/-- A compaction that stops anywhere is recovered as the member before it. -/
theorem Mirrors.recovers_fold (h : m.Mirrors x) (hc : m.CaughtUp)
    (hv : m.replica.settings.validate = .ok ()) (hw : x.length ≤ maxWord) {k : Nat}
    {failure : Option ServiceError} (run : (m.cutAfter k).takeImage now = .ok (m₁, failure)) :
    m.Recovers m₁.disk.contents := by
  obtain ⟨hcompacts, -⟩ := (h.cutAfter k).takeImage run
  refine h.toKnows.recovers hc.1 hv hw hcompacts.leaves (Nat.le_antisymm hcompacts.leaves.high ?_)
  have hcommit : m₁.disk.contents.commit = m.replica.commitIndex := hcompacts.commit.trans hc.2
  exact hcommit ▸ Nat.le_max_right _ _

/-! ## Installations -/

/-- The image is on the disk without the log that the section would have left after it, and the
member held another entry at the image's last position and more above it. -/
structure Torn (m : Member MemoryDisk) (image : Image) (contents : DiskContents) : Prop where
  conflicts : m.replica.termAt image.lastIndex ≠ image.lastTerm
  beyond : image.lastIndex < m.replica.lastIndex
  image : contents.image = some image
  log : contents.log = m.disk.contents.log

theorem exists_persistImage (hrel : ∀ n w, m.disk.fails n w = false) (installed : Bool)
    (image : Image) : ∃ m', m.persistImage installed image = (m', none) := by
  have hinstall : ∀ {m : Member MemoryDisk}, (∀ n w, m.disk.fails n w = false) →
      ∃ m', m.install image = (m', none) := by
    intro m hrel
    unfold Member.install
    rw [write_eq hrel]
    simp only
    rw [write_eq (by exact hrel)]
    simp only
    rw [write_eq (by exact hrel)]
    exact ⟨_, rfl⟩
  have hballot : ∃ m', m.saveBallot = (m', none) ∧ ∀ n w, m'.disk.fails n w = false := by
    unfold Member.saveBallot
    split
    · exact ⟨m, rfl, hrel⟩
    · rw [write_eq hrel]
      exact ⟨_, rfl, hrel⟩
  obtain ⟨m', hsave, hrel'⟩ := hballot
  unfold Member.persistImage
  rw [hsave]
  simp only
  split
  · exact hinstall hrel'
  · exact ⟨m', rfl⟩

/-- On a disk that takes every write an install request is answered. -/
theorem exists_answerInstall (hrel : ∀ n w, m.disk.fails n w = false) {q : InstallRequest}
    {r : Replica} {o : InstallOutcome}
    (hr : m.replica.takeImage q.term q.leader q.lastIndex q.lastTerm = .ok (r, o))
    (now : Instant) : ∃ m₁ m₂ : Member MemoryDisk, m₁.gist = gist { m with replica := r } ∧
      m₁.persistImage o.installed ⟨q.entries, q.lastIndex, q.lastTerm, now⟩ = (m₂, none) ∧
      m.answerInstall now q = .ok (m₂.finish, .ok (.installReply r.term)) := by
  have hgist := gist_noteLeader { m with replica := r } o.resetTimer
  have hdisk := (core_eq_iff.1 (gist_eq_iff.1 hgist).1).2.1
  obtain ⟨m₂, hp⟩ := exists_persistImage (by rw [hdisk]; exact hrel) o.installed
    ⟨q.entries, q.lastIndex, q.lastTerm, now⟩
  refine ⟨_, m₂, hgist, hp, ?_⟩
  unfold Member.answerInstall
  rw [hr]
  simp only [bind, Except.bind]
  rw [hp]
  rfl

/-- What an answered or halted member left on the disk. -/
theorem Answers.disk_eq {e : Option IoError} {answer : Message}
    {reply : Except ServiceError Message} (h : Answers m e answer m' reply) :
    m'.disk = m.disk := by
  rcases h with ⟨-, rfl, -⟩ | ⟨-, cause, rfl, -⟩
  · exact (core_eq_iff.1 (gist_eq_iff.1 (gist_finish m)).1).2.1
  · exact (core_eq_iff.1 (halted m .persistSnapshot cause).1).2.1

/-- The image in place, with the log of before above it. -/
theorem Knows.keeping (h : m.Knows (adopt x (y.take m.replica.snapshotIndex)))
    (hall : m.replica.commitIndex = m.replica.snapshotIndex) (hx : Sane x)
    (hn : m.replica.snapshotIndex ≤ y.length) {log : List Entry} {b : Nat} (hlog : log = x.drop b)
    (hb : b ≤ m.replica.snapshotIndex) :
    (m.keeping log).Knows (graft x (y.take m.replica.snapshotIndex)) := by
  have hlen : (y.take m.replica.snapshotIndex).length = m.replica.snapshotIndex :=
    List.length_take_of_le hn
  have hadopt := prefix_adopt x (y.take m.replica.snapshotIndex)
  have hgraft := prefix_graft x (y.take m.replica.snapshotIndex)
  have hle := hgraft.length_le
  have happlied : m.replica.lastApplied = m.replica.snapshotIndex :=
    Nat.le_antisymm (hall ▸ h.committed) h.applied
  have htake : (adopt x (y.take m.replica.snapshotIndex)).take m.replica.snapshotIndex =
      (graft x (y.take m.replica.snapshotIndex)).take m.replica.snapshotIndex := by
    rw [← take_of_isPrefix hadopt (Nat.le_of_eq hlen.symm),
      take_of_isPrefix hgraft (Nat.le_of_eq hlen.symm)]
  refine ⟨⟨by rw [hlen] at hle; exact hle, ?_, ?_, hx.graft ?_⟩, h.applied, h.committed, ?_, ?_, ?_,
    ?_⟩
  · simp only [Member.keeping]
    rw [hlog, filter_drop hx hb, drop_graft x _ (Nat.le_of_eq hlen)]
  · exact h.spans.term.trans ((termAt_of_isPrefix hadopt (Nat.le_of_eq hlen.symm)).symm.trans
      (termAt_of_isPrefix hgraft (Nat.le_of_eq hlen.symm)))
  · exact h.spans.sane.of_isPrefix hadopt
  · simp only [Member.keeping, hall]
    omega
  · have hmachine := h.machine
    rw [happlied, htake] at hmachine
    simp only [Member.keeping, happlied]
    exact hmachine
  · intro e he
    simp only [Member.keeping, happlied] at he
    rw [List.drop_eq_nil_of_le (List.length_take_le _ _)] at he
    cases he
  · refine h.image.congr h.spans.base ?_
    rw [htake]
    exact List.take_prefix _ _

/-- The ballot does not count for what is recovered. -/
theorem Firm.recovers_rebound (h : m.Firm x) (hv : m.replica.settings.validate = .ok ())
    (hw : x.length ≤ maxWord) (b : Ballot) :
    m.Recovers { m.disk.contents with ballot := b } := by
  have hl : MemoryDisk.Leaves { m.disk with contents := { m.disk.contents with ballot := b } } x
      m.replica.snapshotIndex m.replica.commitIndex := h.leaves.rebind rfl rfl
  exact h.toKnows.recovers h.settled hv hw hl h.reach_eq

/-- A request that is ignored is recovered as the member before it. -/
theorem Firm.recovers_ignored (h : m.Firm x) (hv : m.replica.settings.validate = .ok ())
    (hw : x.length ≤ maxWord) (hd : m₁.disk.contents = m.disk.contents) (hs : m₁.saved = m.saved)
    {image : Image} {e : Option IoError} (hp : m₁.persistImage false image = (m₂, e)) :
    m.Recovers m₂.disk.contents := by
  have hstored : m₁.disk.contents.ballot = m₁.saved := by
    rw [hd, hs]
    exact h.stored
  rcases persistImage_cases hp hstored with
    ⟨-, n, ⟨-, rfl⟩ | ⟨htrue, -⟩⟩ | ⟨-, -, ⟨-, hcontents⟩ | ⟨htrue, -⟩⟩
  · rw [hd]
    exact h.recovers_rebound hv hw _
  · cases htrue
  · rw [hcontents, hd]
    exact h.recovers_rebound hv hw _
  · cases htrue

/-- An image of the leader's history that conflicts with nothing the member holds above it is
adopted as it is grafted. -/
theorem Firm.graft_eq_adopt (h : m.Firm x) {n term : Nat} (hm : Replica.Matching x y)
    (hn : n ≤ y.length) (ht : term = y.termAt n) (hlt : m.replica.commitIndex < n)
    (hfree : m.replica.termAt n = term ∨ m.replica.lastIndex ≤ n) :
    graft x (y.take n) = adopt x (y.take n) := by
  have hlen : (y.take n).length = n := List.length_take_of_le hn
  refine History.graft_eq_adopt ?_
  rcases Nat.lt_or_ge n (x.length + 1) with hlt' | hge
  · rcases hfree with hfree | hfree
    · have hbase : m.replica.snapshotIndex ≤ n :=
        Nat.le_of_lt (Nat.lt_of_le_of_lt (Nat.le_trans h.applied h.committed) hlt)
      rw [h.spans.termAt_eq hbase, ht] at hfree
      obtain ⟨k, rfl⟩ : ∃ k, n = k + 1 := ⟨n - 1, by omega⟩
      exact .inl (hm k (by omega) hn hfree ▸ List.take_prefix _ _)
    · rw [h.spans.lastIndex_eq] at hfree
      exact .inr (hlen.symm ▸ hfree)
  · exact .inr (by omega)

/-- The member has a history of which the image stands for all that is committed. -/
structure Installed (m : Member MemoryDisk) (x : History) (n : Nat) : Prop extends Firm m x where
  valid : m.replica.settings.validate = .ok ()
  fits : x.length ≤ maxWord
  base : m.replica.snapshotIndex = n
  reached : m.replica.commitIndex = n

theorem Installed.recovers (h : m.Installed x n) (hl : d.Leaves x n n) : m.Recovers d.contents :=
  h.toKnows.recovers h.settled h.valid h.fits (by rw [h.base, h.reached]; exact hl)
    (hl.reach_eq.trans h.reached.symm)

/-- The entries of before are still above the image. -/
theorem Installed.recovers_keeping (h : m.Installed (adopt x (y.take n)) n) (hx : Sane x)
    (hw : x.length ≤ maxWord) (hy : y.length ≤ maxWord) (hn : n ≤ y.length) {log : List Entry}
    {b : Nat} (hlog : log = x.drop b) (hb : b ≤ n) (hl : d.Leaves (graft x (y.take n)) n n) :
    (m.keeping log).Recovers d.contents := by
  have hbase := h.base
  have hknows := Knows.keeping (m := m) (x := x) (y := y) (by rw [hbase]; exact h.toKnows)
    (h.reached.trans hbase.symm) hx (by rw [hbase]; exact hn) hlog (by rw [hbase]; exact hb)
  rw [hbase] at hknows
  refine hknows.recovers h.settled h.valid ?_ ?_ (hl.reach_eq.trans h.reached.symm)
  · rw [graft, List.length_append, List.length_drop, List.length_take]
    omega
  · simp only [keeping, hbase, h.reached]
    exact hl

/-- **The member after an installation** of which every write got through. -/
theorem Firm.installed (h : m.Firm x) {image : Image} {r : Replica} (hr : r.Imaged y image)
    (hv : r.settings.validate = .ok ()) (hy : y.length ≤ maxWord)
    (hg : m₁.gist = gist { m.mended with replica := r })
    (hp : m₁.persistImage true image = (m₂, none)) :
    m₂.finish.Installed y image.lastIndex ∧
      m₂.finish.disk.contents = ⟨r.ballot, r.log, r.commitIndex, some image⟩ := by
  obtain ⟨hr₁, hd₁, -, -, hs₁⟩ := core_eq_iff.1 (gist_eq_iff.1 hg).1
  simp only [mended] at hr₁ hd₁ hs₁
  obtain ⟨hr₂, hd₂, -⟩ := core_eq_iff.1 (gist_eq_iff.1 (gist_finish m₂)).1
  rcases persistImage_cases hp (by rw [hd₁, hs₁]; exact h.stored) with
    ⟨-, n, ⟨hfalse, -⟩ | ⟨-, rfl⟩⟩ | ⟨hne, -⟩
  · cases hfalse
  · have hfirm := Firm.of_image (m := m₁) (n := n) (hr₁ ▸ hr) (by rw [hd₁]; exact h.readable)
    have hfinish := hfirm.of_core (gist_eq_iff.1 (gist_finish _)).1
    refine ⟨⟨hfinish, ?_, hy, ?_, ?_⟩, by rw [hd₂, hr₁]⟩ <;> rw [hr₂, hr₁]
    · exact hv
    · exact hr.base
    · exact hr.commit
  · exact absurd rfl hne

/-- **An installation that stops** after any of its writes is recovered as the member before it or
the one after it; or the image is on the disk with the log of before, and what is recovered is the
member after it with the entries that it discards. -/
theorem Firm.recovers_install (h : m.Firm x) {k : Nat} {q : InstallRequest}
    {reply : Except ServiceError Message}
    (hm : m.replica.term ≤ q.term → Replica.Matching x y) (hy : Sane y)
    (hn : q.lastIndex ≤ y.length) (ht : q.lastTerm = y.termAt q.lastIndex)
    (he : q.entries = Image.fold [] (y.take q.lastIndex))
    (hv : m.replica.settings.validate = .ok ()) (hx : x.length ≤ maxWord)
    (hy' : y.length ≤ maxWord)
    (run : (m.cutAfter k).answerInstall now q = .ok (m₁, reply)) :
    ∃ m₂ answer, m.mended.answerInstall now q = .ok (m₂, .ok answer) ∧
      (m.Recovers m₁.disk.contents ∨ m₂.Recovers m₁.disk.contents ∨
        m.Torn ⟨q.entries, q.lastIndex, q.lastTerm, now⟩ m₁.disk.contents ∧
          (m₂.keeping m.replica.log).Recovers m₁.disk.contents) := by
  obtain ⟨r, o, m₃, m₄, e, hr, hg, hp, ha⟩ := answerInstall_cases run
  obtain ⟨m₅, m₂, hg₅, hp₂, hrun₂⟩ :=
    exists_answerInstall (m := m.mended) (fun _ _ => rfl) hr now
  refine ⟨m₂.finish, _, hrun₂, ?_⟩
  rw [ha.disk_eq]
  obtain ⟨hr₃, hd₃, -, -, hs₃⟩ := core_eq_iff.1 (gist_eq_iff.1 hg).1
  simp only [cutAfter] at hr₃ hd₃ hs₃
  have hcontents₃ : m₃.disk.contents = m.disk.contents := by rw [hd₃]; rfl
  rcases takeImage_cases hr with ⟨-, rfl, ho⟩ | ⟨-, -, rfl, ho⟩ | ⟨hge, hlt, hre, ho⟩ <;>
    rw [ho] at hp hp₂
  · exact .inl (h.recovers_ignored hv hx hcontents₃ hs₃ hp)
  · exact .inl (h.recovers_ignored hv hx hcontents₃ hs₃ hp)
  have hi : Pictures (some ⟨q.entries, q.lastIndex, q.lastTerm, now⟩) y q.lastIndex := ⟨rfl, ht, he⟩
  obtain ⟨himaged, hsame⟩ := h.toKnows.rebase (hm hge) hy hn hi hlt hre
  have hset : r.settings = m.replica.settings :=
    hsame.settings.trans (Replica.sameLog_accept m.replica q.term q.leader).settings
  obtain ⟨hinstalled, hd₂⟩ := h.installed himaged (hset ▸ hv)
    (length_adopt_le hx (Nat.le_trans (List.length_take_le' ..) hy')) hg₅ hp₂
  have hstored₃ : m₃.disk.contents.ballot = m₃.saved := by
    rw [hcontents₃, hs₃]
    exact h.stored
  have hu₃ : m₃.disk.unreadable = false := by rw [hd₃]; exact h.readable
  rcases persistImage_cases hp hstored₃ with
    ⟨-, n, ⟨hfalse, -⟩ | ⟨-, rfl⟩⟩ | ⟨-, hu, ⟨-, hd⟩ | ⟨-, -, hd | hd⟩⟩
  · cases hfalse
  · have hrecovers := hinstalled.toFirm.recovers hinstalled.valid hinstalled.fits
    rw [hd₂, ← hr₃] at hrecovers
    exact .inr (.inl hrecovers)
  · rw [hd, hcontents₃]
    exact .inl (h.recovers_rebound hv hx _)
  · -- the log is that of before
    rw [hcontents₃] at hd
    have hl := h.leaves_image hy hn hi hlt (hu.trans hu₃) hd
    by_cases hfree : m.replica.termAt q.lastIndex = q.lastTerm ∨ m.replica.lastIndex ≤ q.lastIndex
    · rw [h.graft_eq_adopt (hm hge) hn ht hlt hfree] at hl
      exact .inr (.inl (hinstalled.recovers hl))
    · obtain ⟨hconflicts, hbeyond⟩ := not_or.1 hfree
      have hlow : m.replica.snapshotIndex ≤ q.lastIndex :=
        Nat.le_of_lt (Nat.lt_of_le_of_lt (Nat.le_trans h.applied h.committed) hlt)
      exact .inr (.inr ⟨⟨hconflicts, Nat.lt_of_not_le hbeyond, by rw [hd], by rw [hd]⟩,
        hinstalled.recovers_keeping h.spans.sane hx hy' hn h.spans.log hlow hl⟩)
  · -- the log is that of after
    rw [hcontents₃, hr₃] at hd
    exact .inr (.inl (hinstalled.recovers (h.leaves_log himaged hlt (hu.trans hu₃) hd)))

end Member

end ReplicatedStore
