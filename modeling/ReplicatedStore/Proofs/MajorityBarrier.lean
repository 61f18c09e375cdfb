import ReplicatedStore.Member.Majority
import ReplicatedStore.Replica.Basic
/-!
# The majority barrier against the quorum

A proposer waits for its peers with two counters and a threshold of its own, and gives up as soon as
too many peers have failed. The replica counts members against its quorum. The two agree in clusters
of every size, and whatever the order of the outcomes (`barrier_exact`).

A barrier that still waits has room on both sides (`Tally.Waiting`): fewer peers than needed were
brought up, and so few have failed that the others are enough. One outcome takes a place on one of
the sides (`Waiting.record_cases`), and there are no more places than peers, so once every peer has
an outcome one side is full (`Waiting.await_cases`).
-/
namespace ReplicatedStore

/-- How many of the outcomes are that a peer was brought up. -/
def succeeded (os : List PeerOutcome) : Nat := os.countP (·.isOk)

/-- How many are that this failed. -/
def failed (os : List PeerOutcome) : Nat := os.countP fun o => !o.isOk

@[simp] theorem succeeded_ok (os : List PeerOutcome) :
    succeeded (.ok () :: os) = succeeded os + 1 := List.countP_cons_of_pos rfl

@[simp] theorem succeeded_error (e : ServiceError) (os : List PeerOutcome) :
    succeeded (.error e :: os) = succeeded os := List.countP_cons_of_neg nofun

@[simp] theorem failed_ok (os : List PeerOutcome) : failed (.ok () :: os) = failed os :=
  List.countP_cons_of_neg nofun

@[simp] theorem failed_error (e : ServiceError) (os : List PeerOutcome) :
    failed (.error e :: os) = failed os + 1 := List.countP_cons_of_pos rfl

theorem length_eq_succeeded_add_failed (os : List PeerOutcome) :
    os.length = succeeded os + failed os := by
  rw [List.length_eq_countP_add_countP (·.isOk), succeeded, failed]
  simp only [Bool.not_eq_true, Bool.decide_eq_false]

namespace Tally

variable {t : Tally}

/-- Neither enough peers were brought up nor have too many failed. -/
structure Waiting (t : Tally) : Prop where
  acks : t.acks < t.needed
  failures : t.needed + t.failures ≤ t.peers

/-- A barrier for one peer or more waits in the beginning. -/
theorem waiting_new (index : Nat) {peers : Nat} (h : 0 < peers) :
    Waiting { index := index, peers := peers } := by
  constructor <;> simp only [needed] <;> omega

/-- **One outcome.** A peer that was brought up takes a place among those needed, which may be the
last; one that failed takes a place among the others, or there was none left. -/
theorem Waiting.record_cases (h : t.Waiting) {o : PeerOutcome}
    (counted : ∀ hint, o ≠ .error (.notLeader hint)) :
    (o = .ok () ∧ t.needed = t.acks + 1 ∧ (t.record o).2 = some (.ok ())) ∨
    (o = .ok () ∧ Waiting { t with acks := t.acks + 1 } ∧
      t.record o = ({ t with acks := t.acks + 1 }, none)) ∨
    ((∃ e, o = .error e) ∧ t.peers = t.needed + t.failures ∧
      (t.record o).2 = some (.error (.unsettled (.noMajority t.index t.acks t.needed)))) ∨
    ((∃ e, o = .error e) ∧ Waiting { t with failures := t.failures + 1 } ∧
      t.record o = ({ t with failures := t.failures + 1 }, none)) := by
  obtain ⟨hacks, hfailures⟩ := h
  cases o with
  | ok _ =>
    by_cases hlast : t.needed ≤ t.acks + 1
    · exact .inl ⟨rfl, by omega, by rw [record]; exact if_pos hlast⟩
    · refine .inr (.inl ⟨rfl, ⟨Nat.not_le.1 hlast, hfailures⟩, ?_⟩)
      rw [record]
      exact congrArg (Prod.mk _) (if_neg hlast)
  | error e =>
    have hrecord : t.record (.error e) = ({ t with failures := t.failures + 1 },
        if t.peers - t.needed < t.failures + 1 then
          some (.error (.unsettled (.noMajority t.index t.acks t.needed))) else none) := by
      cases e with
      | notLeader hint => exact absurd rfl (counted hint)
      | _ => rfl
    rw [hrecord]
    by_cases hfull : t.peers - t.needed < t.failures + 1
    · exact .inr (.inr (.inl ⟨⟨e, rfl⟩, by omega, if_pos hfull⟩))
    · have hroom : t.needed + (t.failures + 1) ≤ t.peers := by omega
      exact .inr (.inr (.inr ⟨⟨e, rfl⟩, ⟨hacks, hroom⟩, congrArg (Prod.mk _) (if_neg hfull)⟩))

/-- An outcome that decides the wait ends it. -/
theorem await_cons_of_some {o result : PeerOutcome} (h : (t.record o).2 = some result)
    (os : List PeerOutcome) : (t.await (o :: os)).2 = some result := by
  rw [await]
  split
  · next hrecord => rwa [hrecord] at h
  · next hrecord =>
    rw [hrecord] at h
    cases h

/-- An outcome that does not decide the wait is counted. -/
theorem await_cons_of_none {o : PeerOutcome} {t' : Tally} (h : t.record o = (t', none))
    (os : List PeerOutcome) : t.await (o :: os) = t'.await os := by
  rw [await, h]

/-- **Any number of outcomes**, no more than there are peers left: enough peers were brought up, or
too few are left for that, or the barrier waits on. -/
theorem Waiting.await_cases {os : List PeerOutcome} (h : t.Waiting)
    (counted : ∀ o ∈ os, ∀ hint, o ≠ .error (.notLeader hint))
    (room : t.acks + t.failures + os.length ≤ t.peers) :
    (t.needed ≤ t.acks + succeeded os ∧ (t.await os).2 = some (.ok ())) ∨
    (t.peers < t.needed + t.failures + failed os ∧ ∃ acks < t.needed,
      (t.await os).2 = some (.error (.unsettled (.noMajority t.index acks t.needed)))) ∨
    (t.acks + succeeded os < t.needed ∧ t.needed + t.failures + failed os ≤ t.peers ∧
      (t.await os).2 = none) := by
  induction os generalizing t with
  | nil => exact .inr (.inr ⟨h.acks, h.failures, rfl⟩)
  | cons o os ih =>
    have hrest := fun o ho => counted o (List.mem_cons_of_mem _ ho)
    rw [List.length_cons] at room
    rcases h.record_cases (counted o List.mem_cons_self) with
      ⟨rfl, hlast, hrecord⟩ | ⟨rfl, hwaits, hrecord⟩ | ⟨⟨e, rfl⟩, hfull, hrecord⟩ |
      ⟨⟨e, rfl⟩, hwaits, hrecord⟩
    · refine .inl ⟨?_, await_cons_of_some hrecord os⟩
      rw [succeeded_ok]
      omega
    · have hos := ih hwaits hrest (by simp only; omega)
      rw [await_cons_of_none hrecord, succeeded_ok, failed_ok, ← Nat.add_assoc,
        Nat.add_right_comm]
      exact hos
    · refine .inr (.inl ⟨?_, t.acks, h.acks, await_cons_of_some hrecord os⟩)
      rw [failed_error]
      omega
    · have hos := ih hwaits hrest (by simp only; omega)
      rw [await_cons_of_none hrecord, succeeded_error, failed_error, ← Nat.add_assoc,
        Nat.add_right_comm]
      exact hos

end Tally

namespace Replica

variable {r : Replica} {os : List PeerOutcome} {index : Nat}

/-- The barrier of a proposal at a position, before any peer has an outcome. -/
def barrier (r : Replica) (index : Nat) : Tally := { index := index, peers := r.peers.length }

/-- Every member but the replica itself is a peer. -/
theorem length_peers (distinct : r.members.Nodup) (own : r.id ∈ r.members) :
    r.peers.length + 1 = r.members.length := by
  have hpeers : r.peers = r.members.erase r.id := by
    rw [distinct.erase_eq_filter, peers]
    exact List.filter_congr fun u _ => by by_cases hu : u = r.id <;> simp [hu]
  rw [hpeers, List.length_erase_of_mem own]
  exact Nat.sub_add_cancel (List.length_pos_of_mem own)

/-- The peers that a barrier needs are a quorum with the proposer. -/
theorem needed_barrier (distinct : r.members.Nodup) (own : r.id ∈ r.members) :
    (r.barrier index).needed = r.quorum - 1 := by
  have hpeers := length_peers distinct own
  simp only [barrier, Tally.needed, quorum]
  omega

/-- Where a barrier is after the first outcomes: what it says is decided by how many of them were
successes, and how many peers have no outcome yet. -/
theorem barrier_cases (distinct : r.members.Nodup) (own : r.id ∈ r.members)
    (served : 0 < r.peers.length) (complete : os.length = r.peers.length)
    (counted : ∀ o ∈ os, ∀ hint, o ≠ .error (.notLeader hint)) (index : Nat) {k : Nat}
    (hk : k ≤ os.length) :
    (r.quorum - 1 ≤ succeeded (os.take k) ∧
      ((r.barrier index).await (os.take k)).2 = some (.ok ())) ∨
    (succeeded (os.take k) + (os.length - k) < r.quorum - 1 ∧ ∃ acks < r.quorum - 1,
      ((r.barrier index).await (os.take k)).2 =
        some (.error (.unsettled (.noMajority index acks (r.quorum - 1))))) ∨
    (succeeded (os.take k) < r.quorum - 1 ∧
      r.quorum - 1 ≤ succeeded (os.take k) + (os.length - k) ∧
      ((r.barrier index).await (os.take k)).2 = none) := by
  have hwaits : (r.barrier index).Waiting := Tally.waiting_new index served
  have hneeded : (r.barrier index).needed = r.quorum - 1 := needed_barrier distinct own
  have hlength : (os.take k).length = k := List.length_take_of_le hk
  have hfailed := length_eq_succeeded_add_failed (os.take k)
  have hcounted : ∀ o ∈ os.take k, ∀ hint, o ≠ .error (.notLeader hint) :=
    fun o ho => counted o (List.mem_of_mem_take ho)
  have hcases := hwaits.await_cases hcounted (by simp only [barrier]; omega)
  have hacks : (r.barrier index).acks = 0 := rfl
  have hfailures : (r.barrier index).failures = 0 := rfl
  have hpeers : (r.barrier index).peers = r.peers.length := rfl
  rw [hneeded, hacks, hfailures, hpeers] at hcases
  rcases hcases with ⟨henough, hr⟩ | ⟨hfew, hr⟩ | ⟨hopen, hroom, hr⟩
  · exact .inl ⟨by omega, hr⟩
  · exact .inr (.inl ⟨by omega, hr⟩)
  · exact .inr (.inr ⟨by omega, by omega, hr⟩)

/-- Once every peer has an outcome the barrier has said yes or no. -/
theorem result_barrier_cases (distinct : r.members.Nodup) (own : r.id ∈ r.members)
    (served : 0 < r.peers.length) (complete : os.length = r.peers.length)
    (counted : ∀ o ∈ os, ∀ hint, o ≠ .error (.notLeader hint)) (index : Nat) :
    ((r.barrier index).await os).2 = some ((r.barrier index).result os) ∧
    ((r.quorum - 1 ≤ succeeded os ∧ (r.barrier index).result os = .ok ()) ∨
      (succeeded os < r.quorum - 1 ∧ ∃ acks < r.quorum - 1, (r.barrier index).result os =
        .error (.unsettled (.noMajority index acks (r.quorum - 1))))) := by
  have hend := barrier_cases distinct own served complete counted index (Nat.le_refl _)
  rw [List.take_length, Nat.sub_self, Nat.add_zero] at hend
  rcases hend with ⟨henough, hr⟩ | ⟨hfew, acks, hacks, hr⟩ | ⟨hopen, hroom, -⟩
  · rw [Tally.result, hr, Option.getD_some]
    exact ⟨rfl, .inl ⟨henough, rfl⟩⟩
  · rw [Tally.result, hr, Option.getD_some]
    exact ⟨rfl, .inr ⟨hfew, acks, hacks, rfl⟩⟩
  · exact absurd hroom (Nat.not_le.2 hopen)

/-- **The barrier is exact**, whatever the order of the outcomes. It gives success just if a quorum
less one of the peers were brought up, and an error else, and it never comes to the end of the
outcomes undecided. After any number of them it has said yes just if that many were successes, has
said no just if too few peers are left for that, and waits just if neither is so. -/
theorem barrier_exact (distinct : r.members.Nodup) (own : r.id ∈ r.members)
    (served : 0 < r.peers.length) (complete : os.length = r.peers.length)
    (counted : ∀ o ∈ os, ∀ hint, o ≠ .error (.notLeader hint)) (index : Nat) :
    ((r.barrier index).result os = .ok () ↔ r.quorum - 1 ≤ succeeded os) ∧
    (succeeded os < r.quorum - 1 → ∃ acks < r.quorum - 1,
      (r.barrier index).result os =
        .error (.unsettled (.noMajority index acks (r.quorum - 1)))) ∧
    ((r.barrier index).await os).2 = some ((r.barrier index).result os) ∧
    ∀ k ≤ os.length,
      (((r.barrier index).await (os.take k)).2 = some (.ok ()) ↔
        r.quorum - 1 ≤ succeeded (os.take k)) ∧
      ((∃ acks < r.quorum - 1, ((r.barrier index).await (os.take k)).2 =
          some (.error (.unsettled (.noMajority index acks (r.quorum - 1))))) ↔
        succeeded (os.take k) + (os.length - k) < r.quorum - 1) ∧
      (((r.barrier index).await (os.take k)).2 = none ↔ succeeded (os.take k) < r.quorum - 1 ∧
        r.quorum - 1 ≤ succeeded (os.take k) + (os.length - k)) := by
  obtain ⟨hdecided, hresult⟩ :=
    result_barrier_cases distinct own served complete counted index
  refine ⟨?_, fun hfew => ?_, hdecided, fun k hk => ?_⟩
  · rcases hresult with ⟨henough, hr⟩ | ⟨hfew, acks, -, hr⟩
    · exact iff_of_true hr henough
    · exact iff_of_false (by simp [hr]) (Nat.not_le.2 hfew)
  · rcases hresult with ⟨henough, -⟩ | ⟨-, hr⟩
    · exact absurd henough (Nat.not_le.2 hfew)
    · exact hr
  · rcases barrier_cases distinct own served complete counted index hk with
      ⟨henough, hr⟩ | ⟨hfew, acks, hacks, hr⟩ | ⟨hopen, hroom, hr⟩
    · refine ⟨iff_of_true hr henough, iff_of_false ?_ ?_, iff_of_false ?_ ?_⟩
      · simp [hr]
      · omega
      · simp [hr]
      · omega
    · refine ⟨iff_of_false ?_ ?_, iff_of_true ⟨acks, hacks, hr⟩ hfew, iff_of_false ?_ ?_⟩
      · simp [hr]
      · omega
      · simp [hr]
      · omega
    · refine ⟨iff_of_false ?_ ?_, iff_of_false ?_ ?_, iff_of_true hr ⟨hopen, hroom⟩⟩
      · simp [hr]
      · omega
      · simp [hr]
      · omega

/-- The outcomes of four peers: two are brought up, a third hangs and a fourth needs an image that
is not there. -/
def mixedOutcomes : List PeerOutcome :=
  [.error (.transport (.timeout 3)), .ok (), .error (.unsettled (.noSnapshotFor 2)), .ok ()]

/-- A proposal of one of five members waits for the last of them. -/
theorem barrier_exact_five :
    (create 1 [1, 2, 3, 4, 5] {}).members.Nodup ∧
    mixedOutcomes.length = (create 1 [1, 2, 3, 4, 5] {}).peers.length ∧
    (∀ o ∈ mixedOutcomes, ∀ hint, o ≠ .error (.notLeader hint)) ∧
    (((create 1 [1, 2, 3, 4, 5] {}).barrier 7).await (mixedOutcomes.take 3)).2 = none ∧
    ((create 1 [1, 2, 3, 4, 5] {}).barrier 7).result mixedOutcomes = .ok () := by
  have hdistinct : (create 1 [1, 2, 3, 4, 5] {}).members.Nodup := by decide
  have hcounted : ∀ o ∈ mixedOutcomes, ∀ hint, o ≠ .error (.notLeader hint) := by
    simp [mixedOutcomes]
  have hexact := barrier_exact hdistinct (by decide) (by decide) (by decide) hcounted 7
  exact ⟨hdistinct, by decide, hcounted, (hexact.2.2.2 3 (by decide)).2.2.2 (by decide),
    hexact.1.2 (by decide)⟩

end Replica

end ReplicatedStore
