import ReplicatedStore.Proofs.Restarts
import ReplicatedStore.Proofs.World
/-!
# What can be seen at a site

The log, the image and the commit index of a node, whether it runs or its disk waits for the next
start. `Site.Bears s x` says that a site has the history `x`; from it, one lemma for each of the
things that can be seen. `Site.Follows s x` says that all the node has committed, and all it has
applied, is of the history `x`.
-/
namespace ReplicatedStore

open History

namespace Site

/-- The image of what was compacted. -/
def image : Site → Option Image
  | up m => m.image
  | down d => d.contents.image

/-- The last position that was compacted. -/
def base : Site → Nat
  | up m => m.replica.snapshotIndex
  | down d => d.contents.base

/-- The term of the last position that was compacted. -/
def baseTerm : Site → Nat
  | up m => m.replica.snapshotTerm
  | down d => d.contents.image.elim 0 (·.lastTerm)

/-- The entry that the log holds at a position. -/
def entryAt? : Site → Nat → Option Entry
  | up m, i => m.replica.entryAt? i
  | down d, i => if i ≤ d.contents.base then none else d.contents.log[i - d.contents.base - 1]?

/-- The last position of the log, or of what was compacted. -/
def lastIndex : Site → Nat
  | up m => m.replica.lastIndex
  | down d => d.contents.base + d.contents.log.length

def term : Site → Nat
  | up m => m.replica.term
  | down d => d.contents.ballot.term

def commit : Site → Nat
  | up m => m.replica.commitIndex
  | down d => d.contents.commit

/-- What is committed, and what is applied, is of the history: entry by entry above the base, by
its image below, and as what executing it from the first entry on leaves in the machine. -/
structure Follows (s : Site) (x : History) : Prop where
  reached : s.base ≤ s.commit
  bounded : s.commit ≤ x.length
  entries : ∀ i, s.base < i → i ≤ s.commit → s.entryAt? i = x[i - 1]?
  image : Pictures s.image x s.base
  applied : ∀ m, s = up m → m.replica.snapshotIndex ≤ m.replica.lastApplied ∧
    m.replica.lastApplied ≤ m.replica.commitIndex ∧
    m.machine = Image.restore (x.take m.replica.lastApplied)

/-- The site has the history. -/
def Bears : Site → History → Prop
  | up m, x => m.Steady x
  | down d, x => d.Keeps x

variable {s : Site} {x y : History}

namespace Bears

theorem sane (h : s.Bears x) : Sane x := by
  cases s with
  | up m => exact h.spans.sane
  | down d => exact MemoryDisk.Keeps.sane h

theorem base_le (h : s.Bears x) : s.base ≤ s.commit := by
  cases s with
  | up m => exact Nat.le_trans h.applied h.committed
  | down d => exact MemoryDisk.Keeps.reached h

theorem commit_le (h : s.Bears x) : s.commit ≤ x.length := by
  cases s with
  | up m => exact h.toHolds.bounded
  | down d => exact MemoryDisk.Keeps.bounded h

theorem pictures (h : s.Bears x) : Pictures s.image x s.base := by
  cases s with
  | up m => exact h.toHolds.image
  | down d => exact MemoryDisk.Keeps.image h

theorem entryAt?_eq (h : s.Bears x) {i : Nat} (hi : s.base < i) : s.entryAt? i = x[i - 1]? := by
  cases s with
  | up m => exact h.spans.entryAt?_eq hi
  | down d =>
    have hlog := MemoryDisk.Keeps.log h
    simp only [base] at hi
    rw [entryAt?, if_neg (by omega), hlog, List.getElem?_drop]
    congr 1
    omega

theorem lastIndex_eq (h : s.Bears x) : s.lastIndex = x.length := by
  cases s with
  | up m => exact h.spans.lastIndex_eq
  | down d =>
    have hle := Nat.le_trans (MemoryDisk.Keeps.reached h) (MemoryDisk.Keeps.bounded h)
    rw [lastIndex, MemoryDisk.Keeps.log h, List.length_drop]
    omega

theorem baseTerm_eq (h : s.Bears x) : s.baseTerm = x.termAt s.base := by
  cases s with
  | up m => exact h.spans.term
  | down d =>
    have hp := MemoryDisk.Keeps.image h
    cases hi : d.contents.image with
    | none =>
      rw [hi] at hp
      simp only [baseTerm, base, hi, Option.elim_none]
      rw [show d.contents.base = 0 from hp, termAt_zero]
    | some i =>
      rw [hi] at hp
      simp only [baseTerm, base, hi, Option.elim_some]
      exact hp.2.1

end Bears

/-- Nothing is held at or below the base. -/
theorem entryAt?_of_le {i : Nat} (hi : i ≤ s.base) : s.entryAt? i = none := by
  cases s with
  | up m => exact if_pos hi
  | down d => exact if_pos hi

theorem Bears.entryAt? (h : s.Bears x) {i : Nat} {e : Entry} (he : s.entryAt? i = some e) :
    s.base < i ∧ x[i - 1]? = some e := by
  have hi : s.base < i := by
    by_contra hle
    rw [entryAt?_of_le (Nat.le_of_not_lt hle)] at he
    cases he
  exact ⟨hi, h.entryAt?_eq hi ▸ he⟩

/-- A site follows whatever extends what it has committed. -/
theorem Follows.congr (h : s.Follows x) (hp : x.take s.commit <+: y) : s.Follows y := by
  have hlen : (x.take s.commit).length = s.commit := List.length_take_of_le h.bounded
  refine ⟨h.reached, hlen ▸ hp.length_le, fun i hi hle => ?_, ?_, fun m hm => ?_⟩
  · rw [h.entries i hi hle, ← getElem?_of_isPrefix hp (by omega),
      List.getElem?_take_of_lt (by omega)]
  · exact h.image.congr (Nat.le_trans h.reached h.bounded)
      ((take_prefix_take h.reached).trans hp)
  · obtain ⟨hbase, hle, hmachine⟩ := h.applied m hm
    have hcommit : s.commit = m.replica.commitIndex := congrArg Site.commit hm
    refine ⟨hbase, hle, ?_⟩
    rw [hmachine, ← take_of_isPrefix hp (by omega), List.take_take, Nat.min_eq_left (by omega)]

/-- The same for a site that has a history, if all of it could be executed. -/
theorem Bears.follows (h : s.Bears x) (hp : x.take s.commit <+: y) (hv : Valued y) :
    s.Follows y := by
  refine Follows.congr ⟨h.base_le, h.commit_le, fun i hi _ => h.entryAt?_eq hi, h.pictures, ?_⟩ hp
  rintro m rfl
  have hle : m.replica.lastApplied ≤ commit (up m) := h.toHolds.committed
  exact ⟨Member.Holds.applied h.toHolds, h.toHolds.committed,
    h.machine (hv.of_isPrefix ((take_prefix_take hle).trans hp))⟩

end Site

end ReplicatedStore
