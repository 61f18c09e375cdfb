import ReplicatedStore.Proofs.Executing
import ReplicatedStore.Proofs.LateAnswers
import ReplicatedStore.Proofs.Recovering
/-!
# Crashes in the middle of a snapshot

A node folds its log into an image, or installs the image of its leader, and stops after any of
the writes (`snapshot_steps_recover`). A fold is recovered as if it had not begun. So is an
installation, or as if it had ended, but for one gap: the image is written before the log, and a
start that finds the image with the log of before keeps every entry above it, also those that the
installation discards. `torn_installation` is a node that comes back with such an entry.
-/
namespace ReplicatedStore

open History

/-! ## Where logs are folded -/

namespace Member

variable {m m₀ m₁ : Member MemoryDisk} {x y : History} {now : Instant}

/-- The member has written its commit index and executed all that is committed. -/
def Executes (m m₁ : Member MemoryDisk) : Prop :=
  ∃ m₀, m.write (.commit m.replica.commitIndex) = (m₀, none) ∧
    applyAll { m₀ with replica := m.replica.takeCommitted.1 } m.replica.takeCommitted.2 = (m₁, none)

theorem Ready.executes (h : m.Ready x) (he : m.Executes m₁) : m₁.Ready x ∧ m₁.CaughtUp := by
  obtain ⟨m₀, hw, happ⟩ := he
  obtain rfl := write_ok hw
  rw [h.spans.takeCommitted h.applied h.committed h.bounded] at happ
  obtain ⟨m₂, err, happ₂, hcore, -, hiff, hmachine⟩ :=
    applyAll_cases (m.counted (m.disk.tried + 1)) ((x.drop m.replica.lastApplied).take
      (m.replica.commitIndex - m.replica.lastApplied))
  unfold counted at happ₂
  obtain ⟨rfl, rfl⟩ := Prod.mk.inj (happ₂.symm.trans happ)
  obtain ⟨hmirrors, hcaught⟩ := h.toMirrors.applyAll hcore (hiff.1 rfl) (hmachine rfl)
  have hr := (core_eq_iff.1 hcore).1
  exact ⟨⟨hmirrors, by rw [hr]; exact h.valid, h.fits⟩, hcaught⟩

end Member

namespace World

/-- The points at which a node folds its log into an image, if it is due: on its own, or when it has
executed what is committed. -/
inductive Folds (c : Conditions) (w : World) (v : NodeId) : Member MemoryDisk → Prop
  | alone {m} (up : w.sites v = .up m) (running : m.stopped = false) : Folds c w v m
  | executing {m m₁} (applies : w.Applies c v m) (executes : m.Executes m₁) : Folds c w v m₁

end World

/-- Wherever a log is folded, it is that of a history which the disk yields. -/
theorem Chronicle.Endures.ready_folds {H : Chronicle} {c : Conditions}
    {P : NodeId → Ballot → Prop} {w : World} {v : NodeId} {m : Member MemoryDisk}
    (h : H.Endures c P w) (hfolds : w.Folds c v m) : ∃ x, m.Ready x ∧ m.CaughtUp := by
  cases hfolds with
  | alone up running =>
    obtain ⟨f, hruns⟩ := (h.up v m up).runs running
    exact ⟨f, h.ready hruns, hruns.firm.settled, hruns.firm.commit⟩
  | executing applies executes =>
    obtain ⟨x, hready⟩ := h.ready_applies applies
    exact ⟨x, hready.executes executes⟩

/-- **Snapshot steps recover.** Take any run from empty disks, whatever writes fail in it, and stop
a node after any of the writes of a section that moves its image base.

* An install request: whoever starts on the disk resumes the node as it was before the section, or
  as the section leaves it when nothing stops it. Or the disk has the image and still the log of
  before, and the node held another entry at the image's last position and more above it: then it
  resumes the node after the section, but with these entries.
* A fold: whoever starts on the disk resumes the node as it was. -/
theorem snapshot_steps_recover {c : Conditions} {w : World} (h : HaltingReachable c w)
    (v : NodeId) :
    (∀ m, w.sites v = .up m → m.stopped = false → ∀ r ∈ w.requests, r.receiver = v →
      ∀ q, r.body = .installRequest q → ∀ now k m₁ reply,
        (m.cutAfter k).answerInstall now q = .ok (m₁, reply) →
        ∃ m₂ answer, m.mended.answerInstall now q = .ok (m₂, .ok answer) ∧
          (m.Recovers m₁.disk.contents ∨ m₂.Recovers m₁.disk.contents ∨
            m.Torn ⟨q.entries, q.lastIndex, q.lastTerm, now⟩ m₁.disk.contents ∧
              (m₂.keeping m.replica.log).Recovers m₁.disk.contents)) ∧
    ∀ m, w.Folds c v m → ∀ now k m₁ failure,
      (m.cutAfter k).takeImage now = .ok (m₁, failure) → m.Recovers m₁.disk.contents := by
  obtain ⟨P, H, h⟩ := h.endures
  refine ⟨fun m up running r sent _ q body now k m₁ reply run => ?_,
    fun m hfolds now k m₁ failure run => ?_⟩
  · obtain ⟨f, hruns⟩ := (h.up v m up).runs running
    obtain ⟨htold, -⟩ := h.told r sent
    rw [body] at htold
    obtain ⟨R, hR, hle, hterm, hentries, -⟩ := htold
    exact hruns.firm.recovers_install (fun hge => h.matching up hruns hge hR)
      (h.sound.lawful _ R hR).sane hle hterm hentries hruns.valid (h.ready hruns).fits
      (h.fits _ R hR) run
  · obtain ⟨x, hready, hcaught⟩ := h.ready_folds hfolds
    exact hready.recovers_fold hcaught hready.valid hready.fits run

/-! ## An installation that is torn

Three nodes whose disks take everything. Node 3 leads term 1 and has two entries that nobody else
holds. Node 1 leads term 2 with the vote of node 2, commits an entry with it, folds its log, and
ships the image to node 3. -/

namespace Usurped

def conditions : Conditions where
  members := [1, 2, 3]
  distinct := Trio.conditions.distinct
  admits := Command.Valued
  fails _ _ _ := false

theorem reliable : conditions.Reliable := fun _ _ _ => rfl

def started (v : NodeId) : Member MemoryDisk := Duo.member (Trio.blank v) {} 1

/-- A node standing for a term, when it has stood for all terms before. -/
def standing (v : NodeId) (term : Nat) : Member MemoryDisk :=
  Duo.member { Trio.blank v with role := .candidate, term := term, vote := some v, votes := [v] }
    { ballot := ⟨term, some v⟩ } (term + 1)

/-- Node 2 when it has voted in every term so far. -/
def voting (term : Nat) (u : NodeId) : Member MemoryDisk :=
  Duo.member { Trio.blank 2 with term := term, vote := some u } { ballot := ⟨term, some u⟩ }
    (term + 1)

def first : Entry := ⟨1, 1, ⟨.put, "a", some "1"⟩⟩

def second : Entry := ⟨1, 2, ⟨.put, "b", some "2"⟩⟩

/-- Node 3 in term 1. -/
def ruling : Replica :=
  { Trio.blank 3 with
    role := .leader
    term := 1
    vote := some 3
    leader := some 3
    next := .ofList [(1, 1), (2, 1)]
    matched := .ofList [(1, 0), (2, 0)] }

/-- Node 3 with entries of its own, and its calls for them. -/
def ruler (log : List Entry) (pending : Table Nat Waiter) : Member MemoryDisk :=
  { Duo.member { ruling with log := log } { ballot := ⟨1, some 3⟩, log := log }
      (log.length + 2) with
    pending := pending }

/-- Node 3 when it has heard of term 2. -/
def deposed : Member MemoryDisk :=
  Duo.member { Trio.blank 3 with term := 2, log := [first, second] }
    { ballot := ⟨2, none⟩, log := [first, second] } 5

def entry : Entry := ⟨2, 1, ⟨.put, "k", some "v"⟩⟩

/-- Node 1 in term 2, when node 2 holds so many of its entries. -/
def usurping (held : Nat) : Replica :=
  { Trio.blank 1 with
    role := .leader
    term := 2
    vote := some 1
    leader := some 1
    next := .ofList [(2, held + 1), (3, 1)]
    matched := .ofList [(2, held), (3, 0)] }

def usurper : Member MemoryDisk := Duo.member (usurping 0) { ballot := ⟨2, some 1⟩ } 3

/-- Node 1 waiting for its peers. -/
def proposer : Member MemoryDisk :=
  { Duo.member { usurping 0 with log := [entry] } { ballot := ⟨2, some 1⟩, log := [entry] } 4 with
    pending := .ofList [(1, ⟨2, 9⟩)] }

def append : AppendRequest := ⟨2, 1, 0, 0, [entry], 0⟩

def holder : Member MemoryDisk :=
  Duo.member { Trio.blank 2 with term := 2, vote := some 1, leader := some 1, log := [entry] }
    { ballot := ⟨2, some 1⟩, log := [entry] } 4

def image : Image := ⟨[entry], 1, 2, .ofMillis 0⟩

/-- Node 1 when it has folded its log. -/
def folded : Member MemoryDisk :=
  { Duo.member { usurping 1 with
      snapshotIndex := 1, snapshotTerm := 2, commitIndex := 1, lastApplied := 1 }
      { ballot := ⟨2, some 1⟩, commit := 1, image := some image } 7 with
    machine := .ofList [("k", "v")]
    image := some image }

def install : InstallRequest := ⟨2, 1, 1, 2, [entry]⟩

/-- The request with which node 1 ships its image to node 3. -/
def shipped : Request := ⟨1, 3, .installRequest install⟩

theorem exists_shipped : ∃ w, HaltingReachable conditions w ∧ w.sites 3 = .up deposed ∧
    shipped ∈ w.requests := by
  have hstart : ∀ v ∈ [1, 2, 3], Member.start ⟨v, Trio.peers v, Duo.config v⟩ {} (.ofMillis 0) =
      .ok (.ok (started v)) := by
    simp only [List.forall_mem_cons, List.not_mem_nil, false_implies, implies_true, and_true]
    exact ⟨rfl, rfl, rfl⟩
  have hstand₃ : (started 3).campaign = .ok (standing 3 1, some ⟨1, 3, 0, 0⟩) := rfl
  have hvote : (started 2).answerVote ⟨1, 3, 0, 0⟩ =
      ({ voting 1 3 with outbox := [.resetElectionTimer] }, .ok (.voteReply 1 true)) := rfl
  have hcount : (standing 3 1).countVote 1 2 1 true =
      .ok ({ ruler [] .empty with outbox := [.startHeartbeat] }, false) := rfl
  have hpropose : (ruler [] .empty).propose (.ofMillis 0) first.command 7 =
      .ok (ruler [first] (.ofList [(1, ⟨1, 7⟩)]), .ok 1) := by cbv
  have hpropose' : (ruler [first] (.ofList [(1, ⟨1, 7⟩)])).propose (.ofMillis 0) second.command 8 =
      .ok (ruler [first, second] (.ofList [(1, ⟨1, 7⟩), (2, ⟨1, 8⟩)]), .ok 2) := by cbv
  have hstand : (started 1).campaign = .ok (standing 1 1, some ⟨1, 1, 0, 0⟩) := rfl
  have hstand' : (standing 1 1).campaign = .ok (standing 1 2, some ⟨2, 1, 0, 0⟩) := rfl
  have hvote' : (voting 1 3).answerVote ⟨2, 1, 0, 0⟩ =
      ({ voting 2 1 with outbox := [.resetElectionTimer] }, .ok (.voteReply 2 true)) := rfl
  have hcount' : (standing 1 2).countVote 2 2 2 true =
      .ok ({ usurper with outbox := [.startHeartbeat] }, false) := rfl
  have hdepose : (ruler [first, second] (.ofList [(1, ⟨1, 7⟩), (2, ⟨1, 8⟩)])).answerVote
      ⟨2, 1, 0, 0⟩ =
      ({ deposed with outbox := [.stopHeartbeat,
        .settle 7 (.error (.unsettled (.leadershipLost none))),
        .settle 8 (.error (.unsettled (.leadershipLost none)))] }, .ok (.voteReply 2 false)) := rfl
  have hcommand : usurper.propose (.ofMillis 0) entry.command 9 = .ok (proposer, .ok 1) := by cbv
  have hfetch : proposer.nextRequest 2 1 = .ok (.ok (some (.appendRequest append))) := rfl
  have happend : (voting 2 1).answerAppend (.ofMillis 0) append =
      .ok ({ holder with outbox := [.resetElectionTimer] }, .ok (.appendReply 2 true)) := rfl
  have hrecord : proposer.recordReply (.ofMillis 0) 2 1 (.appendReply 2 true) =
      .ok ({ folded with outbox := [.settle 9 (.ok .done)] }, true) := by cbv
  have hship : folded.nextRequest 3 1 = .ok (.ok (some (.installRequest install))) := rfl
  have h₁ : HaltingReachable conditions _ :=
    .single ⟨1, .start rfl (.refl _) (hstart 1 (by decide))⟩
  have h₂ := h₁.tail ⟨2, .start rfl (.swap ..) (hstart 2 (by decide))⟩
  have h₃ := h₂.tail ⟨3, .start rfl (by decide) (hstart 3 (by decide))⟩
  have h₄ := h₃.act 3 rfl rfl (.timeout hstand₃) fun _ => ⟨_, rfl⟩
  have h₅ := h₄.act 2 rfl rfl (.answerVote (.tail _ (.head _)) rfl rfl hvote) fun _ => ⟨_, rfl⟩
  have h₆ := h₅.act 3 rfl rfl (.countVote (.head _) rfl rfl hcount) fun _ => ⟨_, rfl⟩
  have h₇ := h₆.act 3 rfl rfl (.propose (fun _ => rfl) rfl hpropose) fun _ => ⟨_, rfl⟩
  have h₈ := h₇.act 3 rfl rfl (.propose (fun _ => rfl) rfl hpropose') fun _ => ⟨_, rfl⟩
  have h₉ := h₈.act 1 rfl rfl (.timeout hstand) fun _ => ⟨_, rfl⟩
  have h₁₀ := h₉.act 1 rfl rfl (.timeout hstand') fun _ => ⟨_, rfl⟩
  have h₁₁ := h₁₀.act 2 rfl rfl (.answerVote (List.mem_append_right _ (.head _)) rfl rfl hvote')
    fun _ => ⟨_, rfl⟩
  have h₁₂ := h₁₁.act 1 rfl rfl (.countVote (List.mem_append_right _ (.head _)) rfl rfl hcount')
    fun _ => ⟨_, rfl⟩
  have h₁₃ := h₁₂.act 3 rfl rfl (.answerVote (List.mem_append_left _ (List.mem_append_left _
    (List.mem_append_right _ (.tail _ (.head _))))) rfl rfl hdepose) fun _ => ⟨_, rfl⟩
  have h₁₄ := h₁₃.act 1 rfl rfl (.propose (fun _ => rfl) rfl hcommand) fun _ => ⟨_, rfl⟩
  have h₁₅ := h₁₄.act 1 rfl rfl (.fetch (.head _) hfetch) fun _ => ⟨_, rfl⟩
  have h₁₆ := h₁₅.act 2 rfl rfl (.answerAppend (List.mem_append_right _ (.head _)) rfl rfl happend)
    fun _ => ⟨_, rfl⟩
  have h₁₇ := h₁₆.act 1 rfl rfl (.recordReply (List.mem_append_right _ (.head _)) rfl rfl hrecord)
    fun _ => ⟨_, rfl⟩
  have h₁₈ := h₁₇.act 1 rfl rfl (.fetch (.tail _ (.head _)) hship) fun _ => ⟨_, rfl⟩
  exact ⟨_, h₁₈, rfl, List.mem_append_right _ (.head _)⟩

/-- Node 3 with the image, and this log behind it. -/
def holding (log : List Entry) (contents : DiskContents) (tried : Nat) : Member MemoryDisk :=
  { Duo.member { Trio.blank 3 with
      term := 2, log := log, snapshotIndex := 1, snapshotTerm := 2, commitIndex := 1
      lastApplied := 1 } contents tried with
    machine := .ofList [("k", "v")]
    image := some image }

/-- Node 3 after the section, when nothing stops it. -/
def installed : Member MemoryDisk :=
  { holding [] { ballot := ⟨2, none⟩, commit := 1, image := some image } 8 with
    replica := { (holding [] {} 8).replica with leader := some 1 }
    published := { (holding [] {} 8).published with leader := some 1 }
    outbox := [.resetElectionTimer] }

/-- What node 3 has on its disk when nothing came after the image. -/
def torn : DiskContents := { ballot := ⟨2, none⟩, log := [first, second], image := some image }

def halted : Member MemoryDisk :=
  { installed with
    disk := { contents := torn, tried := 7, fails := (deposed.disk.cutAfter 1).fails }
    image := none
    stopped := true }

/-- Node 3 when it has started on what was left. -/
def revived : Member MemoryDisk := holding [second] { torn with commit := 1 } 1

theorem stops : (deposed.cutAfter 1).answerInstall (.ofMillis 0) install =
    .ok (halted, .error (.storage .diskFull)) := rfl

theorem goesOn : deposed.mended.answerInstall (.ofMillis 0) install =
    .ok (installed, .ok (.installReply 2)) := rfl

theorem restarts : Member.start deposed.replica.settings { contents := torn } (.ofMillis 0) =
    .ok (.ok revived) := rfl

/-- What node 3 comes back with is neither what it had nor what the section leaves. -/
theorem not_resumes_revived : ¬ deposed.Resumes revived ∧ ¬ installed.Resumes revived := by
  refine ⟨fun hresumes => ?_, fun hresumes => ?_⟩
  · exact absurd hresumes.commitIndex (by decide)
  · exact absurd hresumes.lastIndex (by decide)

end Usurped

/-- Node 3 of `Usurped` when it stops after the image. -/
theorem snapshot_steps_recover_usurped : ∃ w, HaltingReachable Usurped.conditions w ∧
    w.sites 3 = .up Usurped.deposed ∧ Usurped.shipped ∈ w.requests ∧
    (Usurped.deposed.cutAfter 1).answerInstall (.ofMillis 0) Usurped.install =
      .ok (Usurped.halted, .error (.storage .diskFull)) ∧
    Usurped.deposed.mended.answerInstall (.ofMillis 0) Usurped.install =
      .ok (Usurped.installed, .ok (.installReply 2)) ∧
    Usurped.deposed.Torn Usurped.image Usurped.torn ∧
    (Usurped.installed.keeping Usurped.deposed.replica.log).Recovers Usurped.torn := by
  obtain ⟨w, h, up, sent⟩ := Usurped.exists_shipped
  obtain ⟨m₂, answer, hrun, hcases⟩ := (snapshot_steps_recover h 3).1 Usurped.deposed up rfl
    Usurped.shipped sent rfl Usurped.install rfl (.ofMillis 0) 1 _ _ Usurped.stops
  obtain ⟨rfl, -⟩ := Prod.mk.inj (Except.ok.inj (Usurped.goesOn.symm.trans hrun))
  obtain ⟨hbefore, hafter⟩ := Usurped.not_resumes_revived
  refine ⟨w, h, up, sent, Usurped.stops, Usurped.goesOn, ?_⟩
  rcases hcases with hrecovers | hrecovers | htorn
  · exact absurd ((hrecovers { contents := Usurped.torn } (.ofMillis 0) rfl rfl).2 _
      Usurped.restarts) hbefore
  · exact absurd ((hrecovers { contents := Usurped.torn } (.ofMillis 0) rfl rfl).2 _
      Usurped.restarts) hafter
  · exact htorn

/-- **An installation is torn.** Node 3 of `Usurped` is a follower that has committed nothing. It
installs the image of node 1 and stops when the image is written. It comes back with the image and,
behind it, the second entry of its own: before the section there was no image, and after it there
would be no entry. -/
theorem torn_installation : ∃ w, HaltingReachable Usurped.conditions w ∧
    Usurped.conditions.Reliable ∧ w.sites 3 = .up Usurped.deposed ∧
    Usurped.deposed.stopped = false ∧ Usurped.deposed.replica.role = .follower ∧
    Usurped.shipped ∈ w.requests ∧
    (Usurped.deposed.cutAfter 1).answerInstall (.ofMillis 0) Usurped.install =
      .ok (Usurped.halted, .error (.storage .diskFull)) ∧
    Usurped.deposed.mended.answerInstall (.ofMillis 0) Usurped.install =
      .ok (Usurped.installed, .ok (.installReply 2)) ∧
    Member.start Usurped.deposed.replica.settings { contents := Usurped.halted.disk.contents }
      (.ofMillis 0) = .ok (.ok Usurped.revived) ∧
    Usurped.deposed.replica.snapshotIndex = 0 ∧ Usurped.deposed.replica.commitIndex = 0 ∧
    Usurped.revived.replica.snapshotIndex = 1 ∧ Usurped.revived.replica.commitIndex = 1 ∧
    Usurped.revived.replica.log = [Usurped.second] ∧
    Usurped.installed.replica.snapshotIndex = 1 ∧ Usurped.installed.replica.log = [] ∧
    ¬ (Usurped.deposed.Resumes Usurped.revived ∨ Usurped.installed.Resumes Usurped.revived) := by
  obtain ⟨w, h, up, sent⟩ := Usurped.exists_shipped
  exact ⟨w, h, Usurped.reliable, up, rfl, rfl, sent, Usurped.stops, Usurped.goesOn,
    Usurped.restarts, rfl, rfl, rfl, rfl, rfl, rfl, rfl, fun hresumes =>
      hresumes.elim Usurped.not_resumes_revived.1 Usurped.not_resumes_revived.2⟩

end ReplicatedStore
