import ReplicatedStore.Proofs.FalteringSections
/-!
# Starting on a disk that faltered

A member that starts on a disk is firm with the history that the disk yields, and counts as
committed what the disk reaches (`Member.firm_start`). A start that fails leaves that history on the
disk. Where no write fails and all that is committed can be executed, the start succeeds
(`Member.exists_start`): nothing that a member leaves on its disk makes the next one fail.
-/
namespace ReplicatedStore

open History

/-! ## Reading the log -/

namespace Replica

variable {r r' : Replica} {x : History} {loaded loaded' : Nat}

/-- Entries that the image covers are skipped. -/
theorem loadLog_stale {stale : List Entry} (h : ∀ e ∈ stale, e.index ≤ r.lastIndex)
    (es : List Entry) : r.loadLog loaded (stale ++ es) = r.loadLog loaded es := by
  induction stale with
  | nil => rfl
  | cons e stale ih =>
    rw [List.cons_append, loadLog, if_pos (h e List.mem_cons_self)]
    exact ih fun e' he' => h e' (List.mem_cons_of_mem _ he')

/-- A stored log without gaps is read to its end. -/
theorem Spans.exists_loadLog (hx : Sane x) (hw : x.length ≤ maxWord) (n : Nat) {k : Nat}
    (hn : k + n = x.length) (h : r.Spans (x.take k)) (loaded : Nat) :
    ∃ p, r.loadLog loaded (x.drop k) = .ok p := by
  induction n generalizing k r loaded with
  | zero =>
    rw [List.drop_eq_nil_of_le (by omega)]
    exact ⟨_, rfl⟩
  | succ n ih =>
    have hk : k < x.length := by omega
    have hget : x[k]? = some x[k] := List.getElem?_eq_getElem hk
    have hindex : x[k].index = k + 1 := hx.index k _ hget
    have hlast : r.lastIndex = k := h.lastIndex_eq.trans (List.length_take_of_le (by omega))
    have hsucc : x.take (k + 1) = x.take k ++ [x[k]] := by rw [List.take_add_one, hget]; rfl
    have hspans : ({ r with log := r.log ++ [x[k]] } : Replica).Spans (x.take (k + 1)) := by
      rw [hsucc]
      exact h.concat (hsucc ▸ hx.of_isPrefix (List.take_prefix _ _))
    obtain ⟨p, hp⟩ := ih (by omega) hspans (loaded + 1)
    have hadd : Word.add r.lastIndex 1 = .ok (k + 1) :=
      Word.add_eq_ok_iff.2 ⟨by omega, by rw [hlast]⟩
    refine ⟨p, ?_⟩
    rw [List.drop_eq_getElem_cons hk, Replica.loadLog, if_neg (by omega), hadd]
    exact (if_pos hindex).trans hp

theorem Spans.exists_compact (h : r.Spans x) (ha : r.lastApplied ≤ x.length) :
    ∃ p, r.compact r.lastApplied = .ok p := by
  have hlast := h.lastIndex_eq
  unfold Replica.compact
  rw [show min (min r.lastApplied r.lastApplied) r.lastIndex = r.lastApplied by omega]
  simp only
  split
  · exact ⟨_, rfl⟩
  · have hle : r.lastApplied - r.snapshotIndex ≤ r.log.length := by
      rw [h.log, List.length_drop]
      omega
    rw [dropFirst, if_pos hle]
    exact ⟨_, rfl⟩

/-! ## Settings -/

/-- What a replica was set up with. -/
def settings (r : Replica) : MemberSettings := ⟨r.id, r.peers, r.config⟩

theorem settings_of_eq (hi : r'.id = r.id) (hm : r'.members = r.members)
    (hc : r'.config = r.config) : r'.settings = r.settings := by
  simp only [settings, peers, hi, hm, hc]

theorem SameLog.settings (h : SameLog r r') : r'.settings = r.settings :=
  settings_of_eq h.id h.members h.config

theorem SameButLog.settings (h : SameButLog r r') : r'.settings = r.settings := by
  obtain ⟨_, _, _, _, rfl⟩ := h
  rfl

end Replica

namespace MemberSettings

theorem not_mem_of_peerFlaw? {id : NodeId} {seen peers : List NodeId}
    (h : peerFlaw? id seen peers = none) : id ∉ peers := by
  induction peers generalizing seen with
  | nil => exact List.not_mem_nil
  | cons p ps ih =>
    unfold peerFlaw? at h
    split at h
    · cases h
    · next hne =>
      split at h
      · cases h
      · exact fun hmem => (List.mem_cons.1 hmem).elim (fun heq => hne heq.symm) (ih h)

/-- A member is none of its peers. -/
theorem not_mem_peers {s : MemberSettings} (h : s.validate = .ok ()) : s.id ∉ s.peers := by
  unfold validate at h
  split at h
  · cases h
  · split at h
    · cases h
    · next hnone => exact not_mem_of_peerFlaw? hnone

end MemberSettings

namespace Member

variable {m m' : Member MemoryDisk} {x : History} {d d' : MemoryDisk} {s : MemberSettings}

theorem settings_blank (h : s.validate = .ok ()) (d : MemoryDisk) :
    (blank s d).replica.settings = s := by
  have hpeers : (s.peers ++ [s.id]).filter (· ≠ s.id) = s.peers := by
    rw [List.filter_append, List.filter_eq_self.2 fun p hp => ?_]
    · simp
    · simpa using fun heq : p = s.id => s.not_mem_peers h (heq ▸ hp)
  have hmem : s.id ∈ s.peers ++ [s.id] := List.mem_append_right _ (List.mem_singleton_self _)
  simp only [Replica.settings, Replica.peers, blank, Replica.create, if_pos hmem]
  rw [hpeers]

/-! ## Reading the disk -/

/-- What a member that is starting has once it has read the disk. -/
theorem load_yields (h : d.contents.Yields x) (hu : d.unreadable = false)
    (run : (blank s d).load = .ok (.ok m)) :
    m.Mirrors x ∧ m.replica.commitIndex = d.contents.reach ∧
      m.replica.lastApplied = d.contents.base ∧ m.disk = d ∧
      m.replica.settings = (blank s d).replica.settings ∧ m.stopped = false := by
  have hload : (((blank s d).recoverBallot d.contents.ballot).recoverImage
      d.contents.image).recoverLog d.contents.log d.contents.commit = .ok m := load_spec run
  obtain ⟨hs, hbase, happlied, hcommit, hmachine, himage, hdisk, -⟩ :=
    recoverImage_spec h.image h.reached h.sane s d.contents.ballot rfl
  have hsettings : (((blank s d).recoverBallot d.contents.ballot).recoverImage
      d.contents.image).replica.settings = (blank s d).replica.settings := by
    cases d.contents.image <;> rfl
  have hrest : (((blank s d).recoverBallot d.contents.ballot).recoverImage
      d.contents.image).saved = d.contents.ballot ∧
      (((blank s d).recoverBallot d.contents.ballot).recoverImage
        d.contents.image).stopped = false := by
    cases d.contents.image <;> exact ⟨rfl, rfl⟩
  obtain ⟨hsaved, hstopped⟩ := hrest
  generalize ((blank s d).recoverBallot d.contents.ballot).recoverImage d.contents.image = m₀
    at hs hbase happlied hcommit hmachine himage hdisk hload hsettings hsaved hstopped
  obtain ⟨⟨r, n⟩, hr, hload⟩ := bind_eq_ok.1 hload
  obtain ⟨stale, hstale, hlog⟩ := h.log
  have hlast : m₀.replica.lastIndex = d.contents.base :=
    hs.lastIndex_eq.trans (List.length_take_of_le h.reached)
  rw [hlog, Replica.loadLog_stale (fun e he => by rw [hlast]; exact hstale e he)] at hr
  obtain ⟨⟨log, rfl⟩, hspans⟩ := hs.loadLog h.sane _ (Nat.add_sub_cancel' h.reached) hr
  have hlast' := hspans.lastIndex_eq
  cases hload
  have hreached := h.reached
  have hbounded := h.bounded
  have hcommit' : (Replica.restoreCommit { m₀.replica with log := log }
      d.contents.commit).commitIndex = d.contents.reach := by
    simp only [Replica.restoreCommit]
    rw [hlast', hcommit, Nat.min_eq_left hbounded]
    rfl
  have hreach : d.contents.base ≤ d.contents.reach ∧ d.contents.commit ≤ d.contents.reach ∧
      d.contents.reach ≤ x.length := by
    unfold DiskContents.reach
    omega
  refine ⟨⟨⟨hspans.congr rfl rfl rfl, ?_, ?_, ?_, ?_, ?_, ?_⟩, ?_, ?_, ?_, ?_, ?_⟩, hcommit', ?_,
    hdisk, hsettings, hstopped⟩
  · exact Nat.le_of_eq (hbase.trans happlied.symm)
  · rw [hcommit']
    exact Nat.le_trans (Nat.le_of_eq happlied) hreach.1
  · rw [hcommit']
    exact hreach.2.2
  · exact hmachine.trans (congrArg (fun n => Image.restore (x.take n)) happlied.symm)
  · intro e he
    simp only [Replica.restoreCommit, happlied, hbase] at he
    rw [List.drop_eq_nil_of_le (List.length_take_le _ _)] at he
    cases he
  · simp only [Replica.restoreCommit, himage, hbase]
    exact h.image
  · simp only [hdisk]
    exact h
  · simp only [hdisk, himage]
  · rw [hcommit']
    simp only [hdisk]
    exact hreach.2.1
  · simp only [hdisk, hsaved]
  · simp only [hdisk]
    exact hu
  · exact happlied

/-- **A member that starts on a disk has the history that the disk yields.** -/
theorem firm_start {now : Instant} (h : d.contents.Yields x) (hu : d.unreadable = false)
    (run : start s d now = .ok (.ok m)) :
    m.Firm x ∧ m.replica.commitIndex = d.contents.reach ∧ m.saved = d.contents.ballot ∧
      m.replica.ballot = d.contents.ballot ∧ m.disk.Leaves x d.contents.base d.contents.reach ∧
      m.replica.settings = s ∧ s.validate = .ok () ∧ m.stopped = false := by
  obtain ⟨hv, m₀, m₁, hload, happ, rfl⟩ := start_cases run
  obtain ⟨hmirrors, hcommit, -, hdisk, hsettings, hstopped⟩ := load_yields h hu hload
  have hbase := hmirrors.base_eq
  obtain ⟨happlied, hnone⟩ := hmirrors.applyCommitted happ
  obtain ⟨hmirrors', hall, hnoted⟩ := hnone rfl
  have hstanding := (standing_applyCommitted happ).trans (standing_load hload)
  simp only [standing, Prod.mk.injEq, Replica.stance_eq_iff] at hstanding
  obtain ⟨⟨-, -, -, hballot, -⟩, hsaved, -⟩ := hstanding
  have hl := happlied.leaves
  rw [← hbase, hcommit, hdisk] at hl
  refine ⟨Firm.of_core ⟨hmirrors', hall, hnoted, .inl (hballot.trans hsaved.symm)⟩ rfl,
    happlied.replica.commit.trans hcommit, hsaved, hballot, hl, ?_, hv,
    happlied.spares.stopped.trans hstopped⟩
  exact happlied.replica.settings.trans (hsettings.trans (settings_blank hv d))

/-- A start that fails leaves the history on the disk. -/
theorem leaves_start_error {now : Instant} {e : ServiceError} (h : d.contents.Yields x)
    (hu : d.unreadable = false) (run : start s d now = .ok (.error (e, d'))) :
    d'.Leaves x d.contents.base d.contents.reach := by
  obtain rfl | ⟨m₀, m₁, e', hload, happ, rfl⟩ := start_cases_error run
  · exact ⟨h, Nat.le_refl _, Nat.le_refl _, hu⟩
  · obtain ⟨hmirrors, hcommit, -, hdisk, -⟩ := load_yields h hu hload
    have hbase := hmirrors.base_eq
    have hl := (hmirrors.applyCommitted happ).1.leaves
    rwa [← hbase, hcommit, hdisk] at hl

/-! ## Starts that succeed -/

theorem write_eq (h : ∀ n w, m.disk.fails n w = false) (w : DiskWrite) :
    m.write w = ({ m with
      disk := { m.disk with
        tried := m.disk.tried + 1, contents := m.disk.contents.after w } }, none) := by
  simp only [write, Disk.write, MemoryDisk.write, h, Bool.false_eq_true, if_false]

theorem takeImage_succeeds (hrel : ∀ n w, m.disk.fails n w = false) {r : Replica}
    {removed : List Entry} (hr : m.replica.compact m.replica.lastApplied = .ok (r, removed))
    (now : Instant) : ∃ m', m.takeImage now = .ok (m', none) := by
  unfold Member.takeImage
  rw [hr]
  simp only [bind, Except.bind]
  split
  · exact ⟨_, rfl⟩
  · rw [write_eq (by exact hrel)]
    simp only
    rw [write_eq (by exact hrel)]
    exact ⟨_, rfl⟩

theorem Knows.exists_takeImage (h : m.Knows x) (hrel : ∀ n w, m.disk.fails n w = false)
    (now : Instant) : ∃ m', m.takeImage now = .ok (m', none) := by
  obtain ⟨⟨r, removed⟩, hr⟩ := h.spans.exists_compact (Nat.le_trans h.committed h.bounded)
  exact takeImage_succeeds hrel hr now

/-- What is committed can be applied if it can be executed. -/
theorem Mirrors.exists_applyCommitted (h : m.Mirrors x) (hrel : ∀ n w, m.disk.fails n w = false)
    (hvalued : ∀ e ∈ (x.drop m.replica.lastApplied).take
      (m.replica.commitIndex - m.replica.lastApplied), e.command.Valued) (now : Instant) :
    ∃ m', m.applyCommitted now = .ok (m', none) := by
  obtain ⟨m₂, err, happ, hcore, -, hiff, hmachine⟩ :=
    applyAll_cases (m.counted (m.disk.tried + 1)) ((x.drop m.replica.lastApplied).take
      (m.replica.commitIndex - m.replica.lastApplied))
  obtain rfl : err = none := hiff.2 hvalued
  have hmirrors := (h.applyAll hcore hvalued (hmachine rfl)).1
  have hrel₂ : ∀ n w, m₂.disk.fails n w = false := by
    rw [(core_eq_iff.1 hcore).2.1]
    exact hrel
  unfold counted at happ
  unfold Member.applyCommitted
  rw [write_eq hrel]
  simp only
  rw [h.spans.takeCommitted h.applied h.committed h.bounded]
  simp only
  split
  · exact ⟨_, rfl⟩
  · rw [happ]
    simp only
    split
    · exact hmirrors.exists_takeImage hrel₂ now
    · exact ⟨_, rfl⟩

/-- A disk that yields a history can be read. -/
theorem exists_load (h : d.contents.Yields x) (hu : d.unreadable = false)
    (hw : x.length ≤ maxWord) (s : MemberSettings) :
    ∃ m, (blank s d).load = .ok (.ok m) := by
  obtain ⟨hs, -⟩ := recoverImage_spec h.image h.reached h.sane s d.contents.ballot rfl
  obtain ⟨stale, hstale, hlog⟩ := h.log
  have hlast := hs.lastIndex_eq.trans (List.length_take_of_le h.reached)
  obtain ⟨p, hp⟩ := hs.exists_loadLog h.sane hw _ (Nat.add_sub_cancel' h.reached) 0
  have hrecover : ∃ m, (((blank s d).recoverBallot d.contents.ballot).recoverImage
      d.contents.image).recoverLog d.contents.log d.contents.commit = .ok m := by
    unfold recoverLog
    rw [hlog, Replica.loadLog_stale (fun e he => by rw [hlast]; exact hstale e he), hp]
    exact ⟨_, rfl⟩
  obtain ⟨m, hm⟩ := hrecover
  have hu' : (blank s d).disk.unreadable = false := hu
  refine ⟨m, ?_⟩
  simp only [load, Disk.readBallot, Disk.readImage, Disk.readLog, Disk.readCommit, hu', bind,
    Except.bind, pure, Except.pure, Bool.false_eq_true, if_false]
  rw [show (blank s d).disk = d from rfl, hm]

/-- **A start succeeds** on a disk that can be written, if what it counts as committed can be
executed. -/
theorem exists_start (h : d.contents.Yields x) (hu : d.unreadable = false)
    (hrel : ∀ n w, d.fails n w = false) (hv : s.validate = .ok ()) (hw : x.length ≤ maxWord)
    (hvalued : ∀ e ∈ (x.take d.contents.reach).drop d.contents.base, e.command.Valued)
    (now : Instant) : ∃ m, start s d now = .ok (.ok m) := by
  obtain ⟨m₀, hload⟩ := exists_load h hu hw s
  obtain ⟨hmirrors, hcommit, happlied, hdisk, -⟩ := load_yields h hu hload
  obtain ⟨m₁, happ⟩ := hmirrors.exists_applyCommitted (by rw [hdisk]; exact hrel) (by
    rw [hcommit, happlied, ← List.drop_take]
    exact hvalued) now
  unfold start
  rw [hv, hload]
  simp only [bind, Except.bind]
  rw [happ]
  exact ⟨_, rfl⟩

end Member

end ReplicatedStore
