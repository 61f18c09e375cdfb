import ReplicatedStore.Proofs.BackedMembers
/-!
# What a later start finds of a log

A start takes a stored log up to its first gap (`Replica.loadLog`) and leaves the rest of it on the
disk. What the member appends goes after that rest. So whether a later start finds it depends on the
disk that the member was started on: without a gap it finds the whole log, and behind a gap it finds
nothing of what came after the start, until the log is rewritten (`appended_entries_recovered`).
-/
namespace ReplicatedStore

/-- No stored entry comes after a gap: its position is at most the next one after the highest
before it. Entries may be repeated, or be out of order below that. -/
def Gapless (last : Nat) : List Entry → Prop
  | [] => True
  | e :: es => e.index ≤ last + 1 ∧ Gapless (max last e.index) es

instance Gapless.decidable : (last : Nat) → (es : List Entry) → Decidable (Gapless last es)
  | _, [] => .isTrue trivial
  | last, e :: es =>
    have := Gapless.decidable (max last e.index) es
    inferInstanceAs (Decidable (_ ∧ _))

namespace Replica

variable {r q r' : Replica} {e : Entry} {es : List Entry} {loaded loaded' : Nat}

/-- What is read of a stored log depends on the log so far and its base only. -/
theorem loadLog_congr (hlog : q.log = r.log) (hbase : q.snapshotIndex = r.snapshotIndex)
    (run : r.loadLog loaded es = .ok (r', loaded')) :
    q.loadLog loaded es = .ok ({ q with log := r'.log }, loaded') := by
  induction es generalizing q r loaded with
  | nil =>
    cases run
    rw [← hlog]
    rfl
  | cons e es ih =>
    have hlast := lastIndex_congr hlog hbase
    rcases loadLog_cases run with hle | ⟨heq, hfits⟩ | ⟨hlt, hfits⟩
    · rw [loadLog_of_le hle] at run
      rw [loadLog_of_le (hlast ▸ hle), ih hlog hbase run]
    · rw [loadLog_of_eq heq hfits] at run
      rw [loadLog_of_eq (hlast ▸ heq) hfits,
        ih (r := { r with log := r.log ++ [e] }) (q := { q with log := q.log ++ [e] })
          (congrArg (· ++ [e]) hlog) hbase run]
    · cases (loadLog_of_lt hlt hfits).symm.trans run
      rw [loadLog_of_lt (hlast ▸ hlt) (hlast ▸ hfits), ← hlog]

/-- Without a gap everything that is stored is read, and then what comes after it. -/
theorem loadLog_append_of_gapless (h : Gapless r.lastIndex es)
    (run : r.loadLog loaded es = .ok (r', loaded')) (fs : List Entry) :
    r.loadLog loaded (es ++ fs) = r'.loadLog loaded' fs := by
  induction es generalizing r loaded with
  | nil =>
    cases run
    rfl
  | cons e es ih =>
    obtain ⟨hnext, hrest⟩ := h
    rw [List.cons_append]
    rcases loadLog_cases run with hle | ⟨heq, hfits⟩ | ⟨hlt, -⟩
    · rw [Nat.max_eq_left hle] at hrest
      rw [loadLog_of_le hle] at run ⊢
      exact ih hrest run
    · rw [Nat.max_eq_right (by omega), ← lastIndex_concat r e] at hrest
      rw [loadLog_of_eq heq hfits] at run ⊢
      exact ih hrest run
    · omega

/-- Behind a gap nothing is read. -/
theorem loadLog_append_of_gap (h : ¬ Gapless r.lastIndex es)
    (run : r.loadLog loaded es = .ok (r', loaded')) (fs : List Entry) :
    r.loadLog loaded (es ++ fs) = .ok (r', loaded') := by
  induction es generalizing r loaded with
  | nil => exact absurd trivial h
  | cons e es ih =>
    rw [List.cons_append]
    rcases loadLog_cases run with hle | ⟨heq, hfits⟩ | ⟨hlt, hfits⟩
    · rw [loadLog_of_le hle] at run ⊢
      refine ih (fun hrest => h ⟨by omega, ?_⟩) run
      rwa [Nat.max_eq_left hle]
    · rw [loadLog_of_eq heq hfits] at run ⊢
      refine ih (fun hrest => h ⟨by omega, ?_⟩) run
      rw [lastIndex_concat] at hrest
      rwa [Nat.max_eq_right (by omega)]
    · rw [loadLog_of_lt hlt hfits] at run ⊢
      exact run

/-- Entries that come next are all read. -/
theorem Sourced.exists_loadLog (h : r.Sourced Entry.Placeable) (hes : Lined r.lastIndex es)
    (hplaceable : ∀ e ∈ es, e.Placeable) (loaded : Nat) :
    ∃ loaded', r.loadLog loaded es = .ok ({ r with log := r.log ++ es }, loaded') := by
  induction es generalizing r loaded with
  | nil => exact ⟨loaded, by rw [Replica.loadLog, List.append_nil]⟩
  | cons e es ih =>
    obtain ⟨he, hes⟩ := hes.tail
    have hfits : e.Placeable := hplaceable e List.mem_cons_self
    obtain ⟨loaded', hrest⟩ := ih (h.concat he hfits) (by rw [lastIndex_concat, he]; exact hes)
      (fun e' he' => hplaceable e' (List.mem_cons_of_mem _ he')) (loaded + 1)
    refine ⟨loaded', ?_⟩
    rw [loadLog_of_eq he hfits, hrest, List.append_assoc]
    rfl

end Replica

namespace Member

variable {m m' m₀ : Member MemoryDisk} {s s' : MemberSettings} {d : MemoryDisk}
  {P : Replica → AppendRequest → Prop}

/-- A start finds of a stored log what any empty log on its base reads. -/
theorem exists_load_of_loadLog {r r' : Replica} {n : Nat} (hu : d.unreadable = false)
    (hlog : r.log = []) (hbase : r.snapshotIndex = d.contents.base)
    (run : r.loadLog 0 d.contents.log = .ok (r', n)) :
    ∃ m', (blank s d).load = .ok (.ok m') ∧ m'.replica.snapshotIndex = d.contents.base ∧
      m'.replica.log = r'.log := by
  have h := grounded_spec s d
  have hread := Replica.loadLog_congr (h.log.trans hlog.symm) (h.base.trans hbase.symm) run
  exact ⟨_, load_eq_ok_iff.2 ⟨hu, _, n, hread, rfl⟩, h.base, rfl⟩

/-- A log that is on the disk as it is in memory is found. -/
theorem Backed.exists_load (h : m.Backed) (hlog : m.disk.contents.log = m.replica.log)
    (s : MemberSettings) : ∃ m', (blank s m.disk).load = .ok (.ok m') ∧
      m'.replica.snapshotIndex = m.replica.snapshotIndex ∧ m'.replica.log = m.replica.log := by
  have hnil : Replica.Sourced Entry.Placeable { m.replica with log := [] } := ⟨.nil _, nofun⟩
  have hlined : Lined m.replica.snapshotIndex m.disk.contents.log := hlog ▸ h.sourced.lined
  obtain ⟨n, hread⟩ := hnil.exists_loadLog hlined (hlog ▸ h.sourced.all) 0
  obtain ⟨m', hload, hbase, hlog'⟩ := exists_load_of_loadLog (s := s)
    (r := { m.replica with log := [] }) h.readable rfl h.base.symm hread
  exact ⟨m', hload, hbase.trans h.base, hlog'.trans hlog⟩

/-- **What was appended to what a start has read** is found without a gap before it, and is not
found behind one. -/
theorem exists_load_grown (hload : (blank s d).load = .ok (.ok m₀)) (h : m.Backed) {es : List Entry}
    (hbase : m.replica.snapshotIndex = m₀.replica.snapshotIndex)
    (hmemory : m.replica.log = m₀.replica.log ++ es)
    (hdisk : m.disk.contents.log = d.contents.log ++ es) (s' : MemberSettings) :
    ∃ m', (blank s' m.disk).load = .ok (.ok m') ∧
      m'.replica.snapshotIndex = m.replica.snapshotIndex ∧
      m'.replica.log =
        if Gapless d.contents.base d.contents.log then m.replica.log else m₀.replica.log := by
  obtain ⟨-, r, n, hread, rfl⟩ := load_eq_ok_iff.1 hload
  have hg := grounded_spec s d
  have hstart : (grounded s d).replica.lastIndex = d.contents.base := by
    rw [Replica.lastIndex, hg.log]
    exact hg.base
  obtain ⟨hr, log, rfl⟩ := Replica.loadLog_placeable hg.sourced hread
  have hstored : d.contents.base = m.disk.contents.base := by
    rw [h.base, hbase]
    exact hg.base.symm
  split
  · next hgapless =>
    have hes : Lined (Replica.lastIndex { (grounded s d).replica with log := log }) es := by
      have hlined := h.sourced.lined.drop log.length
      rw [hmemory, hbase] at hlined
      rw [hr.lastIndex_eq]
      simpa [Replica.restoreCommit] using hlined
    obtain ⟨n', hrest⟩ := hr.exists_loadLog hes
      (fun e he => h.sourced.all e (hmemory ▸ List.mem_append_right _ he)) n
    have hall := Replica.loadLog_append_of_gapless (hstart ▸ hgapless) hread es
    obtain ⟨m', hload', hbase', hlog'⟩ := exists_load_of_loadLog (s := s') h.readable hg.log
      (hg.base.trans hstored) (hdisk ▸ hall.trans hrest)
    exact ⟨m', hload', hbase'.trans h.base, hlog'.trans hmemory.symm⟩
  · next hgap =>
    have hall := Replica.loadLog_append_of_gap (hstart ▸ hgap) hread es
    obtain ⟨m', hload', hbase', hlog'⟩ := exists_load_of_loadLog (s := s') h.readable hg.log
      (hg.base.trans hstored) (hdisk ▸ hall)
    exact ⟨m', hload', hbase'.trans h.base, hlog'⟩

/-- What applying folds into the image is covered by it, and the rest of the log is kept. -/
theorem Digests.covers {S : Entry → Prop} {n : Nat} (h : m.Digests m' n)
    (hs : m.replica.Sourced S) {e : Entry} (he : e ∈ m.replica.log) :
    e ∈ m'.replica.log ∨ e.index ≤ m'.replica.snapshotIndex := by
  obtain ⟨t, -, hr⟩ := h.replica
  rw [hr]
  obtain ⟨k, hk⟩ := List.getElem?_of_mem he
  have hindex := hs.lined k e hk
  rcases Nat.lt_or_ge k n with hlt | hge
  · exact .inr (by simp only; omega)
  · refine .inl (List.mem_of_getElem? (i := k - n) ?_)
    rw [List.getElem?_drop, Nat.add_sub_cancel' hge]
    exact hk

/-- **What a later start finds**: the whole log, or, behind a gap in what this one has read, the log
as it was at this start. -/
theorem exists_reload {now : Instant} (started : start s d now = .ok (.ok m₀))
    (run : Works P m₀ m) (up : m.stopped = false) (s' : MemberSettings) :
    ∃ m', (blank s' m.disk).load = .ok (.ok m') ∧
      m'.replica.snapshotIndex = m.replica.snapshotIndex ∧
      (m'.replica.log = m.replica.log ∨
        ¬ Gapless d.contents.base d.contents.log ∧ m.disk.contents.log ≠ m.replica.log ∧
        m'.replica.log = m₀.replica.log ∧ m₀.replica.log <+: m.replica.log) := by
  obtain ⟨m₁, n, hload, hd⟩ := start_digests started
  have h := run.lasts ((backed_load hload).digests hd).backed up
  by_cases hwhole : m.disk.contents.log = m.replica.log
  · obtain ⟨m', hload', hbase, hlog⟩ := h.backed.exists_load hwhole s'
    exact ⟨m', hload', hbase, .inl hlog⟩
  cases h.retains with
  | rewritten log => exact absurd log hwhole
  | grown es base memory disk =>
    rcases Nat.eq_zero_or_pos n with rfl | hpos
    · obtain ⟨t, -, hr⟩ := hd.replica
      have hlog : m₀.replica.log = m₁.replica.log := by rw [hr, List.drop_zero]
      have hbase : m₀.replica.snapshotIndex = m₁.replica.snapshotIndex := by rw [hr]; rfl
      have hdisk : m₀.disk.contents.log = d.contents.log := by
        obtain ⟨-, log, -, hm₁⟩ := exists_loaded hload
        rw [(hd.kept rfl).2, hm₁]
        exact congrArg (·.contents.log) (grounded_spec s d).disk
      obtain ⟨m', hload', hbase', hlog'⟩ := exists_load_grown hload h.backed (base.trans hbase)
        (hlog ▸ memory) (hdisk ▸ disk) s'
      refine ⟨m', hload', hbase', ?_⟩
      split at hlog'
      · exact .inl hlog'
      · next hgap =>
        exact .inr ⟨hgap, hwhole, hlog'.trans hlog.symm, memory ▸ List.prefix_append _ _⟩
    · -- the start has put the log on the disk as it took it
      obtain ⟨_, -, -, -, -, hlog⟩ := hd.folded hpos
      exact absurd (by rw [disk, memory, hlog]) hwhole

end Member

/-- **Appended entries are found again.** Whatever is on the disk that a member starts on, and
whatever it does then: while it is up, its disk can be read. If there was no gap in the stored log,
or the log was rewritten since, a start on the disk holds every entry of the member's log, or an
image that covers it. Else it takes the log as it was at this start. -/
theorem appended_entries_recovered {P : Replica → AppendRequest → Prop} {s : MemberSettings}
    {d : MemoryDisk} {now : Instant} {m₀ m : Member MemoryDisk}
    (started : Member.start s d now = .ok (.ok m₀)) (run : Member.Works P m₀ m)
    (up : m.stopped = false) (s' : MemberSettings) :
    (∃ m', (Member.blank s' m.disk).load = .ok (.ok m') ∧
      m'.replica.snapshotIndex = m.replica.snapshotIndex ∧
      (m'.replica.log = m.replica.log ∨
        ¬ Gapless d.contents.base d.contents.log ∧ m.disk.contents.log ≠ m.replica.log ∧
        m'.replica.log = m₀.replica.log ∧ m₀.replica.log <+: m.replica.log)) ∧
    (Gapless d.contents.base d.contents.log ∨ m.disk.contents.log = m.replica.log →
      ∀ now' m', Member.start s' m.disk now' = .ok (.ok m') →
        ∀ e ∈ m.replica.log, e ∈ m'.replica.log ∨ e.index ≤ m'.replica.snapshotIndex) := by
  have hreload := Member.exists_reload started run up s'
  refine ⟨hreload, fun hfound now' m₂ hstart e he => ?_⟩
  obtain ⟨m', hload, -, hlog⟩ := hreload
  obtain ⟨m₁, n, hload', hd⟩ := Member.start_digests hstart
  cases hload.symm.trans hload'
  have hlog : m'.replica.log = m.replica.log :=
    hlog.resolve_right fun ⟨hgap, hother, _⟩ => hfound.elim hgap hother
  exact hd.covers (Member.backed_load hload).sourced (hlog ▸ he)

/-! ### Logs with repeated entries, and with a gap -/

namespace Reread

def entry (i : Nat) : Entry := ⟨1, i, ⟨.put, "k", some "v"⟩⟩

def settings : MemberSettings := ⟨1, [2, 3], {}⟩

/-- What is on the disk when entries were stored at these positions. -/
def contents (stored : List Nat) (commit : Nat) : DiskContents :=
  { ballot := ⟨1, none⟩, log := stored.map entry, commit := commit }

/-- The node with so many entries, of which so many are executed. -/
def holder (held executed : Nat) (leader : Option NodeId) (stored : List Nat) (tried : Nat) :
    Member MemoryDisk :=
  let r := Replica.create 1 [2, 3, 1] {}
  { Duo.member
      { r with
        term := 1
        leader := leader
        log := (List.range' 1 held).map entry
        commitIndex := executed
        lastApplied := executed }
      (contents stored executed) tried with
    machine := if executed = 0 then .empty else .ofList [("k", "v")] }

/-- A leader's request with one entry, which it has committed. -/
def request (i : Nat) : AppendRequest := ⟨1, 2, i - 1, 1, [entry i], i⟩

end Reread

/-- Entries that were stored twice do no harm. -/
theorem appended_entries_recovered_repeated : ∃ m₀ m m' : Member MemoryDisk,
    Member.start Reread.settings { contents := Reread.contents [1, 2, 2, 1] 0 } (.ofMillis 0) =
      .ok (.ok m₀) ∧
    m₀.answerAppend (.ofMillis 0) (Reread.request 3) = .ok (m, .ok (.appendReply 1 true)) ∧
    m.stopped = false ∧ Gapless 0 ([1, 2, 2, 1].map Reread.entry) ∧
    Member.start Reread.settings m.disk (.ofMillis 0) = .ok (.ok m') ∧
    Reread.entry 3 ∈ m.replica.log ∧
    (Reread.entry 3 ∈ m'.replica.log ∨ 3 ≤ m'.replica.snapshotIndex) := by
  have hstart : Member.start Reread.settings { contents := Reread.contents [1, 2, 2, 1] 0 }
      (.ofMillis 0) = .ok (.ok (Reread.holder 2 0 none [1, 2, 2, 1] 1)) := by cbv
  have happend : (Reread.holder 2 0 none [1, 2, 2, 1] 1).answerAppend (.ofMillis 0)
      (Reread.request 3) = .ok ({ Reread.holder 3 3 (some 2) [1, 2, 2, 1, 3] 3 with
        outbox := [.resetElectionTimer] }, .ok (.appendReply 1 true)) := by cbv
  have hagain : Member.start Reread.settings (Reread.holder 3 3 (some 2) [1, 2, 2, 1, 3] 3).disk
      (.ofMillis 0) = .ok (.ok (Reread.holder 3 3 none [1, 2, 2, 1, 3] 4)) := by cbv
  have hrun : Member.Works (fun _ _ => True) _ _ :=
    .act (.refl _) rfl (.answerAppend trivial happend)
  have hgapless : Gapless 0 ([1, 2, 2, 1].map Reread.entry) := by decide
  have hheld : Reread.entry 3 ∈ (Reread.holder 3 3 (some 2) [1, 2, 2, 1, 3] 3).replica.log :=
    .tail _ (.tail _ (.head _))
  exact ⟨_, _, _, hstart, happend, rfl, hgapless, hagain, hheld,
    (appended_entries_recovered hstart hrun rfl Reread.settings).2 (.inl hgapless) _ _ hagain _
      hheld⟩

/-- **An append behind a gap is lost.** A node starts on a log that lacks its second entry, and
ignores the third. It is given the second one, acknowledges it and executes it, and holds only the
first when it has started again. -/
theorem append_behind_gap_lost : ∃ m₀ m m' : Member MemoryDisk,
    Member.start Reread.settings { contents := Reread.contents [1, 3] 0 } (.ofMillis 0) =
      .ok (.ok m₀) ∧
    m₀.answerAppend (.ofMillis 0) (Reread.request 2) = .ok (m, .ok (.appendReply 1 true)) ∧
    m.stopped = false ∧ Member.start Reread.settings m.disk (.ofMillis 0) = .ok (.ok m') ∧
    Reread.entry 2 ∈ m.replica.log ∧ m.replica.lastApplied = 2 ∧ Reread.entry 2 ∉ m'.replica.log ∧
    m'.replica.snapshotIndex = 0 := by
  have hstart : Member.start Reread.settings { contents := Reread.contents [1, 3] 0 }
      (.ofMillis 0) = .ok (.ok (Reread.holder 1 0 none [1, 3] 1)) := by cbv
  have happend : (Reread.holder 1 0 none [1, 3] 1).answerAppend (.ofMillis 0) (Reread.request 2) =
      .ok ({ Reread.holder 2 2 (some 2) [1, 3, 2] 3 with outbox := [.resetElectionTimer] },
        .ok (.appendReply 1 true)) := by cbv
  have hagain : Member.start Reread.settings (Reread.holder 2 2 (some 2) [1, 3, 2] 3).disk
      (.ofMillis 0) = .ok (.ok (Reread.holder 1 1 none [1, 3, 2] 4)) := by cbv
  exact ⟨_, _, _, hstart, happend, rfl, hagain, .tail _ (.head _), rfl, by decide, rfl⟩

end ReplicatedStore
