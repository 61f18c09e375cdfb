import Mathlib.Data.List.Perm.Subperm
import ReplicatedStore.Message
/-!
# Majorities

Two majorities of the same members have one in common.
-/
namespace ReplicatedStore

/-- More than half of the members. -/
structure Majority (members Q : List NodeId) : Prop where
  distinct : Q.Nodup
  known : Q ⊆ members
  large : members.length < 2 * Q.length

/-- Enough votes of different members are a majority, in whatever order one lists the members. -/
theorem Majority.of_quorum {members listed votes : List NodeId} (h : listed.Perm members)
    (hd : votes.Nodup) (hk : votes ⊆ members) (hq : listed.length / 2 + 1 ≤ votes.length) :
    Majority members votes := by
  refine ⟨hd, hk, ?_⟩
  rw [h.length_eq] at hq
  omega

theorem Majority.meet {members Q Q' : List NodeId} (h : Majority members Q)
    (h' : Majority members Q') : ∃ u ∈ Q, u ∈ Q' := by
  apply Classical.byContradiction
  intro hnone
  have hdistinct : (Q ++ Q').Nodup :=
    List.nodup_append.2 ⟨h.distinct, h'.distinct, fun u hu u' hu' heq => hnone ⟨u, hu, heq ▸ hu'⟩⟩
  have hsub : Q ++ Q' ⊆ members := List.append_subset.2 ⟨h.known, h'.known⟩
  have hlen := (List.subperm_of_subset hdistinct hsub).length_le
  have hl := h.large
  have hl' := h'.large
  rw [List.length_append] at hlen
  omega

end ReplicatedStore
