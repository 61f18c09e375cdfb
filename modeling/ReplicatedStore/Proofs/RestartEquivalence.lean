import ReplicatedStore.Proofs.EnduringRuns
/-!
# Restart equivalence

What a node has written at the end of a section is enough to resume it (`restart_equivalence`). A
member that starts on the disk has executed what the running one has, holds the same log, of which
it may have compacted more, and votes with the same ballot, unless that was refused by the disk. A
ballot that was refused is withheld: no message that the node has sent shows it.
-/
namespace ReplicatedStore

open History

namespace Member

/-- The second member has what the first had, but for its standing. More of what is applied may be
compacted. -/
structure Resumes (m m' : Member MemoryDisk) : Prop where
  settings : m'.replica.settings = m.replica.settings
  commitIndex : m'.replica.commitIndex = m.replica.commitIndex
  lastApplied : m'.replica.lastApplied = m.replica.lastApplied
  lastIndex : m'.replica.lastIndex = m.replica.lastIndex
  lastTerm : m'.replica.lastTerm = m.replica.lastTerm
  contents : m'.machine = m.machine
  log : ∃ k, m'.replica.snapshotIndex = m.replica.snapshotIndex + k ∧
    m.replica.snapshotIndex + k ≤ m.replica.lastApplied ∧
    m'.replica.log = m.replica.log.drop k

variable {m m' : Member MemoryDisk} {x : History} {d : MemoryDisk} {now : Instant}

/-- Whoever starts on a disk that yields the member's history, with as much of it committed and no
less compacted, resumes the member. -/
theorem Knows.resumes (h : m.Knows x) (hall : m.replica.lastApplied = m.replica.commitIndex)
    (hl : d.Leaves x m.replica.snapshotIndex m.replica.commitIndex)
    (hreach : d.contents.reach = m.replica.commitIndex)
    (run : start m.replica.settings d now = .ok (.ok m')) : m.Resumes m' := by
  obtain ⟨hfirm, hcommit, -, -, hleaves, hsettings, -⟩ := firm_start hl.yields hl.readable run
  have hcommit' := hcommit.trans hreach
  have happlied := hfirm.settled.trans (hcommit'.trans hall.symm)
  have hbase : m.replica.snapshotIndex ≤ m'.replica.snapshotIndex := by
    rw [← hfirm.base_eq]
    exact Nat.le_trans hl.low hleaves.low
  refine ⟨hsettings, hcommit', happlied, ?_, ?_, ?_, m'.replica.snapshotIndex -
    m.replica.snapshotIndex, ?_, ?_, ?_⟩
  · exact hfirm.spans.lastIndex_eq.trans h.spans.lastIndex_eq.symm
  · exact hfirm.spans.lastTerm_eq.trans h.spans.lastTerm_eq.symm
  · rw [hfirm.machine, h.machine, happlied]
  · exact (Nat.add_sub_cancel' hbase).symm
  · rw [Nat.add_sub_cancel' hbase, ← happlied]
    exact hfirm.applied
  · rw [hfirm.spans.log, h.spans.log, List.drop_drop, Nat.add_sub_cancel' hbase]

/-- A member that starts where a firm one was. -/
theorem Firm.resumes (h : m.Firm x) (hd : d.contents = m.disk.contents)
    (hu : d.unreadable = false) (run : start m.replica.settings d now = .ok (.ok m')) :
    m.Resumes m' ∧ m'.replica.ballot = m.saved := by
  have hl : d.Leaves x m.replica.snapshotIndex m.replica.commitIndex :=
    ⟨hd ▸ h.leaves.yields, hd ▸ h.leaves.low, hd ▸ h.leaves.high, hu⟩
  obtain ⟨-, -, -, hballot, -⟩ := firm_start hl.yields hu run
  rw [hd] at hballot
  exact ⟨h.toKnows.resumes h.settled hl (by rw [hd]; exact h.reach_eq) run, hballot.trans h.stored⟩

/-- All that a firm member has written can be read back and executed. -/
theorem Firm.exists_start (h : m.Firm x) (hv : m.replica.settings.validate = .ok ())
    (hw : x.length ≤ maxWord) (hd : d.contents = m.disk.contents) (hu : d.unreadable = false)
    (hrel : ∀ n w, d.fails n w = false) (now : Instant) :
    ∃ m', start m.replica.settings d now = .ok (.ok m') := by
  refine Member.exists_start (hd ▸ h.yields) hu hrel hv hw ?_ now
  rw [hd, h.reach_eq, h.base_eq, ← h.settled]
  exact h.executed

end Member

namespace World

/-- A message that the node sent is of the term. -/
def Tells (w : World) (v : NodeId) (term : Nat) : Prop :=
  (∃ r ∈ w.requests, r.sender = v ∧ r.body.term = term) ∨
    ∃ r reply, (r, reply) ∈ w.replies ∧ r.receiver = v ∧ reply.term = term

/-- The ballot of a member was refused by its disk, and the node has told it to nobody: no message
is of a term that is not stored, and none gives a vote that is not stored. -/
structure Withholds (w : World) (v : NodeId) (m : Member MemoryDisk) : Prop where
  refused : ∃ n < m.disk.tried, m.disk.fails n (.ballot m.replica.ballot) = true
  behind : m.disk.contents.ballot.Precedes m.replica.ballot
  term : m.disk.contents.ballot.term ≠ m.replica.term → ¬ w.Tells v m.replica.term
  vote : ∀ u, m.replica.vote = some u → ¬ w.Backs v u m.replica.term

end World

namespace Chronicle

variable {H : Chronicle} {c : Conditions} {P : NodeId → Ballot → Prop} {w : World} {v : NodeId}
  {m : Member MemoryDisk} {f : History}

/-- Messages are of terms that are stored. -/
theorem Endures.term_le (h : H.Endures c P w) {term : Nat} (ht : w.Tells v term) :
    term ≤ H.term v := by
  rcases ht with ⟨r, hr, rfl, rfl⟩ | ⟨r, reply, hr, rfl, rfl⟩
  · exact (h.told r hr).2
  · exact (h.answered r reply hr).2

theorem Endures.withholds (h : H.Endures c P w) (up : w.sites v = .up m)
    (hruns : H.Runs c.members v m f) (hne : m.replica.ballot ≠ m.saved) : w.Withholds v m := by
  have hsworn := (h.elections.sworn v m up).1
  have hstored : m.disk.contents.ballot = m.saved := hruns.firm.stored
  have hbehind : m.disk.contents.ballot.Precedes m.replica.ballot := hstored ▸ hsworn.behind
  refine ⟨hruns.firm.offered.resolve_left hne, hbehind, fun hterm ht => ?_, fun u hu hb => ?_⟩
  · have hle := h.term_le ht
    have hlt := hbehind.term_le
    rw [← hruns.term, ← hstored] at hle
    exact hterm (Nat.le_antisymm hlt hle)
  · -- the vote would be stored
    have hpast := h.elections.past v _ (h.elections.of_backs hb)
    rw [World.stored, up, Site.disk_up, hstored] at hpast
    obtain ⟨t, vote, hsaved⟩ : ∃ t vote, m.saved = ⟨t, vote⟩ := ⟨_, _, rfl⟩
    have hbehind := hsworn.behind
    rw [hsaved] at hpast hbehind hne
    obtain rfl : m.replica.term = t := Nat.le_antisymm hpast.term_le hbehind.term_le
    rw [hpast.eq_of_vote, ← hu] at hne
    exact hne rfl

end Chronicle

/-- **Restart equivalence.** Take any run from empty disks, whatever writes fail in it, and the end
of any section of a node that has not halted. A member that starts on the node's disk with its
settings resumes it, and its ballot is the node's, or the disk refused that and the node has
withheld it. If the start can write, there is such a member. -/
theorem restart_equivalence {c : Conditions} {w : World} (h : HaltingReachable c w) {v : NodeId}
    {m : Member MemoryDisk} (up : w.sites v = .up m) (running : m.stopped = false)
    {d : MemoryDisk} (hd : d.contents = m.disk.contents) (hu : d.unreadable = m.disk.unreadable)
    (now : Instant) :
    ((∀ n w, d.fails n w = false) →
      ∃ m', Member.start m.replica.settings d now = .ok (.ok m')) ∧
    ∀ m', Member.start m.replica.settings d now = .ok (.ok m') → m.Resumes m' ∧
      (m'.replica.ballot = m.replica.ballot ∨ w.Withholds v m) := by
  obtain ⟨P, H, h⟩ := h.endures
  obtain ⟨f, hruns⟩ := (h.up v m up).runs running
  have hu := hu.trans hruns.firm.readable
  have hw : f.length ≤ maxWord := by
    rw [hruns.grafted.length_eq]
    exact h.length_le (h.sound.upright v).rooted
  refine ⟨fun hrel => hruns.firm.exists_start hruns.valid hw hd hu hrel now, fun m' run => ?_⟩
  obtain ⟨hresumes, hballot⟩ := hruns.firm.resumes hd hu run
  refine ⟨hresumes, ?_⟩
  by_cases hsaved : m.replica.ballot = m.saved
  · exact .inl (hballot.trans hsaved.symm)
  · exact .inr (h.withholds up hruns hsaved)

/-! ## A node of its own

It executes a command, is started again and stands for the next term, but cannot write its ballot.
-/

namespace Solo

/-- No ballot of term 2 can be written. -/
def refuses : Nat → DiskWrite → Bool
  | _, .ballot b => b.term == 2
  | _, _ => false

def conditions : Conditions where
  members := [1]
  distinct := by decide
  admits := Command.Valued
  fails _ := refuses

def member (r : Replica) (contents : DiskContents) (tried : Nat) : Member MemoryDisk :=
  { Duo.member r contents tried with
    disk := { contents := contents, tried := tried, fails := refuses } }

def started : Member MemoryDisk := member (.create 1 [1] {}) {} 1

/-- The node in term 1, for which it has voted for itself. -/
def voting : Replica := { started.replica with term := 1, vote := some 1 }

def leader : Member MemoryDisk :=
  member { voting with role := .leader, leader := some 1 } { ballot := ⟨1, some 1⟩ } 2

def entry : Entry := ⟨1, 1, ⟨.put, "k", some "v"⟩⟩

/-- What is on the disk once the command was executed. -/
def contents : DiskContents := { ballot := ⟨1, some 1⟩, log := [entry], commit := 1 }

def executed : Replica := { voting with log := [entry], commitIndex := 1, lastApplied := 1 }

def committed : Member MemoryDisk :=
  { member { executed with role := .leader, leader := some 1 } contents 4 with
    machine := .ofList [("k", "v")] }

def restarted : Member MemoryDisk :=
  { member executed contents 5 with machine := .ofList [("k", "v")] }

/-- The node after its candidacy. -/
def refused : Member MemoryDisk :=
  { member { executed with term := 2, leader := some 1 } contents 6 with
    machine := .ofList [("k", "v")]
    saved := ⟨1, some 1⟩ }

theorem exists_refused : ∃ w, HaltingReachable conditions w ∧ w.sites 1 = .up refused := by
  have hstart : Member.start ⟨1, [], {}⟩ { fails := refuses } (.ofMillis 0) =
      .ok (.ok started) := rfl
  have hlead : started.campaign =
      .ok ({ leader with outbox := [.startHeartbeat] }, none) := rfl
  have hpropose : leader.propose (.ofMillis 0) entry.command 7 =
      .ok ({ committed with outbox := [.settle 7 (.ok .done)] }, .ok 1) := by with_unfolding_all rfl
  have hrestart : Member.start ⟨1, [], {}⟩ committed.disk (.ofMillis 0) =
      .ok (.ok restarted) := by with_unfolding_all rfl
  have hstand : restarted.campaign = .ok (refused, none) := rfl
  have h₁ : HaltingReachable conditions _ := .single ⟨1, .start rfl (.refl _) hstart⟩
  have h₂ := h₁.act 1 rfl rfl (.timeout hlead) fun _ => ⟨_, rfl⟩
  have h₃ := h₂.act 1 rfl rfl (.propose (fun _ => rfl) rfl hpropose) fun _ => ⟨_, rfl⟩
  have h₄ := h₃.tail ⟨1, .stop rfl⟩
  have h₅ := h₄.tail ⟨1, .start rfl (.refl _) hrestart⟩
  have h₆ := h₅.act 1 rfl rfl (.timeout hstand) fun _ => ⟨_, rfl⟩
  exact ⟨_, h₆, rfl⟩

end Solo

/-- The node of `Solo` comes back with the command executed and in the term before. -/
theorem restart_equivalence_solo : ∃ w m', HaltingReachable Solo.conditions w ∧
    w.sites 1 = .up Solo.refused ∧ Solo.refused.stopped = false ∧
    Member.start Solo.refused.replica.settings Solo.refused.disk (.ofMillis 0) = .ok (.ok m') ∧
    m'.machine = .ofList [("k", "v")] ∧ m'.replica.ballot ≠ Solo.refused.replica.ballot ∧
    Solo.refused.Resumes m' ∧ w.Withholds 1 Solo.refused := by
  obtain ⟨w, h, up⟩ := Solo.exists_refused
  obtain ⟨-, hstart⟩ := restart_equivalence h up rfl (d := Solo.refused.disk) rfl rfl (.ofMillis 0)
  have run : Member.start Solo.refused.replica.settings Solo.refused.disk (.ofMillis 0) =
      .ok (.ok { Solo.restarted with disk := { Solo.restarted.disk with tried := 7 } }) := by
    with_unfolding_all rfl
  obtain ⟨hresumes, hballot⟩ := hstart _ run
  have hne : Solo.restarted.replica.ballot ≠ Solo.refused.replica.ballot := by decide
  exact ⟨w, _, h, up, rfl, run, rfl, hne, hresumes, hballot.resolve_left hne⟩

end ReplicatedStore
