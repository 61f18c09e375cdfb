import ReplicatedStore.Text.Decimal
import ReplicatedStore.Word
/-!
# Consensus settings

Timing and compaction parameters of a member, and what makes them unusable.

* `Config.flaw?_eq_none_iff`: settings are usable exactly when the rules hold.
* `electionTimeout_mem`: an election timeout lies in its range.
-/
namespace ReplicatedStore

/-- Settings of a member; durations in milliseconds. Mirrors `RaftConfig`. -/
structure Config where
  /-- Least election timeout. -/
  electionMin : Nat := 150
  /-- Greatest election timeout. -/
  electionMax : Nat := 300
  /-- Time between two heartbeats of a leader. -/
  heartbeat : Nat := 50
  /-- Log length from which the applied part is compacted. -/
  snapshotThreshold : Nat := 1000
  deriving DecidableEq, Repr

/-- Why settings are unusable. -/
inductive ConfigFlaw where
  | noElectionTimeout
  | emptyElectionRange (low high : Nat)
  | heartbeatOutOfRange (heartbeat low : Nat)
  | noSnapshotThreshold
  deriving DecidableEq, Repr

/-- The wording of a flaw. -/
def ConfigFlaw.message : ConfigFlaw → String
  | .noElectionTimeout => "election_timeout_min must be positive"
  | .emptyElectionRange low high =>
    s!"election_timeout_min ({Decimal.write low}) must be below election_timeout_max ({Decimal.write high})"
  | .heartbeatOutOfRange beat low =>
    s!"heartbeat_interval ({Decimal.write beat}) must be positive and below election_timeout_min ({Decimal.write low})"
  | .noSnapshotThreshold => "snapshot_threshold must be positive"

namespace Config

/-- The first flaw of the settings. Mirrors `validate`. -/
def flaw? (c : Config) : Option ConfigFlaw :=
  if c.electionMin = 0 then some .noElectionTimeout
  else if c.electionMin ≥ c.electionMax then some (.emptyElectionRange c.electionMin c.electionMax)
  else if c.heartbeat = 0 ∨ c.heartbeat ≥ c.electionMin then
    some (.heartbeatOutOfRange c.heartbeat c.electionMin)
  else if c.snapshotThreshold = 0 then some .noSnapshotThreshold
  else none

/-- Whether a log of a given length is to be compacted. Mirrors `should_snapshot`. -/
def shouldSnapshot (c : Config) (length : Nat) : Bool := c.snapshotThreshold ≤ length

theorem flaw?_eq_none_iff {c : Config} :
    c.flaw? = none ↔ 0 < c.heartbeat ∧ c.heartbeat < c.electionMin ∧ c.electionMin < c.electionMax ∧
      0 < c.snapshotThreshold := by
  unfold flaw?
  split
  · simp; omega
  · split
    · simp; omega
    · split
      · simp; omega
      · split
        · simp; omega
        · simp; omega

end Config

/-- The election timeout that a random draw gives; the range must not be empty. Mirrors
`random_election_timeout`. -/
def electionTimeout (low high draw : Nat) : Except Fault Nat :=
  if low ≤ high then .ok (low + draw % (high - low + 1)) else .error .range

theorem electionTimeout_mem {low high draw t : Nat} (h : electionTimeout low high draw = .ok t) :
    low ≤ t ∧ t ≤ high := by
  unfold electionTimeout at h
  split at h
  · have := Nat.mod_lt draw (show 0 < high - low + 1 by omega)
    simp only [Except.ok.injEq] at h
    omega
  · simp at h

end ReplicatedStore
