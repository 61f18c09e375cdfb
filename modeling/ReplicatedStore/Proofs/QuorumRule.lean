import ReplicatedStore.Proofs.Leading
import ReplicatedStore.Proofs.Merging
/-!
# The rule by which a leader commits

A leader may commit a position that is new, that a quorum holds, itself included, and whose entry is
of its own term (`Replica.Committable`). It does not search for one: it sorts what the members hold
in descending order and looks at the one position at the place of the quorum. For a leader that
keeps its log and its books in order (`Replica.Ordered`) that is the same as to search for the
highest (`advanceCommit_greatest`):

* a quorum holds a position just if the place of the quorum shows it or a higher one
  (`le_iff_quorum`), so below that place nothing is held by too few, and above it everything;
* terms do not fall along the log, so the entry at that place is of the leader's term as soon as a
  lower one is.
-/
namespace ReplicatedStore

/-- In a descending list, nothing from a position on is larger than what stands there. -/
theorem le_of_mem_drop_of_descending {l : List Nat} (h : l.Pairwise fun a b => b ≤ a) {k i a : Nat}
    (hk : l[k]? = some i) (ha : a ∈ l.drop k) : a ≤ i := by
  obtain ⟨hlt, rfl⟩ := List.getElem?_eq_some_iff.1 hk
  have hdrop := h.sublist (List.drop_sublist k l)
  rw [List.drop_eq_getElem_cons hlt] at hdrop ha
  rcases List.mem_cons.1 ha with rfl | ha
  · exact Nat.le_refl _
  · exact (List.pairwise_cons.1 hdrop).1 a ha

/-- In a descending list, a position shows at least `n` just if that many entries and one more are
at least `n`. -/
theorem lt_length_filter_iff_of_descending {l : List Nat} (h : l.Pairwise fun a b => b ≤ a)
    {k i n : Nat} (hk : l[k]? = some i) : k < (l.filter (n ≤ ·)).length ↔ n ≤ i := by
  constructor
  · intro hlt
    by_contra hni
    -- from the position on everything is too small
    have hrest : (l.drop k).filter (n ≤ ·) = [] := by
      rw [List.filter_eq_nil_iff]
      intro a ha
      have hle := le_of_mem_drop_of_descending h hk ha
      rw [decide_eq_true_eq]
      omega
    have hsplit := congrArg (fun l => (l.filter (n ≤ ·)).length) (List.take_append_drop k l)
    simp only [List.filter_append, hrest, List.append_nil] at hsplit
    have hfew : ((l.take k).filter (n ≤ ·)).length ≤ k :=
      Nat.le_trans (List.length_filter_le _ _) (List.length_take_le _ _)
    omega
  · intro hni
    have hsub : (l.filter (i ≤ ·)).Sublist (l.filter (n ≤ ·)) := by
      refine List.monotone_filter_right l fun a ha => ?_
      rw [decide_eq_true_eq] at ha ⊢
      omega
    exact Nat.lt_of_lt_of_le (lt_length_filter_of_descending h hk) hsub.length_le

namespace Replica

variable {r : Replica} {n : Nat}

/-- The peers that are known to hold a position. -/
def holders (r : Replica) (n : Nat) : List NodeId :=
  r.peers.filter fun p => (r.matched.get? p).any (n ≤ ·)

/-- The leader may commit up to a position: it is not committed yet, a quorum holds it with the
leader, and its entry is of this term. -/
structure Committable (r : Replica) (n : Nat) : Prop where
  fresh : r.commitIndex < n
  held : r.quorum ≤ (r.holders n).length + 1
  current : (r.entryAt? n).map (·.term) = some r.term

instance (r : Replica) (n : Nat) : Decidable (r.Committable n) :=
  decidable_of_iff (r.commitIndex < n ∧ r.quorum ≤ (r.holders n).length + 1 ∧
      (r.entryAt? n).map (·.term) = some r.term)
    ⟨fun ⟨hfresh, hheld, hcurrent⟩ => ⟨hfresh, hheld, hcurrent⟩,
      fun ⟨hfresh, hheld, hcurrent⟩ => ⟨hfresh, hheld, hcurrent⟩⟩

/-- What a leader keeps is in order: no member is named twice, every entry is at its position, terms
do not fall from the base up to the present one, what the base covers is committed, and no peer is
taken to hold more than there is. -/
structure Ordered (r : Replica) : Prop where
  distinct : r.members.Nodup
  numbered : r.Numbered
  rising : r.log.Pairwise fun e e' => e.term ≤ e'.term
  spanned : ∀ e ∈ r.log, r.snapshotTerm ≤ e.term ∧ e.term ≤ r.term
  base : r.snapshotIndex ≤ r.commitIndex
  matched : ∀ p ∈ r.peers, ∀ k, r.matched.get? p = some k → k ≤ r.lastIndex

/-- The holdings are what the books say of the peers, and the end of the leader's own log. -/
theorem holdings_perm_books (r : Replica) : r.holdings.Perm
    (r.peers.map (fun p => (r.matched.get? p).getD 0) ++ [r.lastIndex]) :=
  List.mergeSort_perm _ _

/-- There are enough members for the quorum to have a place among them. -/
theorem quorum_le_length_holdings (h : r.members.Nodup) : r.quorum ≤ r.holdings.length := by
  have hlen : r.holdings.length = r.peers.length + 1 := by
    rw [r.holdings_perm_books.length_eq, List.length_append, List.length_map,
      List.length_singleton]
  have hothers : r.members.length ≤ r.peers.length + 1 := by
    have hpeers : r.peers = r.members.erase r.id := by
      rw [h.erase_eq_filter, peers]
      exact List.filter_congr fun u _ => by simp [bne, beq_eq_decide]
    rw [hpeers, List.length_erase]
    split <;> omega
  have hquorum : r.quorum = r.members.length / 2 + 1 := rfl
  omega

/-- Of what the members hold, so much is at least `n`: one for each peer known to hold it, and one
for the leader. -/
theorem length_filter_holdings (hpos : 0 < n) (hlast : n ≤ r.lastIndex) :
    (r.holdings.filter (n ≤ ·)).length = (r.holders n).length + 1 := by
  have hknown : ∀ p : NodeId,
      decide (n ≤ (r.matched.get? p).getD 0) = (r.matched.get? p).any (n ≤ ·) := by
    intro p
    cases r.matched.get? p with
    | none => simpa using Nat.pos_iff_ne_zero.1 hpos
    | some k => rfl
  rw [(r.holdings_perm_books.filter (n ≤ ·)).length_eq, List.filter_append, List.length_append,
    List.filter_map, List.length_map, List.filter_cons_of_pos (by simpa using hlast),
    List.filter_nil, List.length_singleton, holders]
  simp only [Function.comp_def, hknown]

/-- A quorum holds what stands at its place and everything below, and nothing above. -/
theorem le_iff_quorum {i : Nat} (hi : r.holdings[r.quorum - 1]? = some i) (hpos : 0 < n)
    (hlast : n ≤ r.lastIndex) : n ≤ i ↔ r.quorum ≤ (r.holders n).length + 1 := by
  have hquorum : r.quorum = r.members.length / 2 + 1 := rfl
  rw [← lt_length_filter_iff_of_descending r.holdings_descending hi,
    length_filter_holdings hpos hlast]
  omega

namespace Ordered

/-- What stands at the place of the quorum is in the log. -/
theorem le_lastIndex (h : r.Ordered) {i : Nat} (hi : r.holdings[r.quorum - 1]? = some i) :
    i ≤ r.lastIndex := by
  have hmem := r.holdings_perm_books.mem_iff.1 (List.mem_of_getElem? hi)
  rcases List.mem_append.1 hmem with hmem | hmem
  · obtain ⟨p, hp, rfl⟩ := List.mem_map.1 hmem
    cases hk : r.matched.get? p with
    | none => exact Nat.zero_le _
    | some k => exact h.matched p hp k hk
  · exact Nat.le_of_eq (List.mem_singleton.1 hmem)

/-- Above an entry of the present term there are only entries of the present term. -/
theorem term_eq (h : r.Ordered) {i : Nat} {e e' : Entry} (he : r.entryAt? n = some e)
    (hterm : e.term = r.term) (he' : r.entryAt? i = some e') (hle : n ≤ i) : e'.term = r.term := by
  have hbase := lt_of_entryAt? he
  rw [entryAt?_of_lt hbase] at he
  rw [entryAt?_of_lt (by omega)] at he'
  have hupper := (h.spanned e' (List.mem_of_getElem? he')).2
  rcases Nat.eq_or_lt_of_le hle with rfl | hlt
  · rw [he] at he'
    exact Option.some.inj he' ▸ hterm
  · obtain ⟨hl, rfl⟩ := List.getElem?_eq_some_iff.1 he
    obtain ⟨hl', rfl⟩ := List.getElem?_eq_some_iff.1 he'
    have hlower := List.pairwise_iff_getElem.1 h.rising _ _ hl hl' (by omega)
    omega

/-- The place of the quorum decides for all positions: what may be committed is not above it, and
if anything may, so may the position that stands there. -/
theorem committable_at_quorum (h : r.Ordered) {i : Nat}
    (hi : r.holdings[r.quorum - 1]? = some i) (hn : r.Committable n) :
    n ≤ i ∧ r.Committable i := by
  obtain ⟨hfresh, hheld, hcurrent⟩ := hn
  obtain ⟨e, he, hterm⟩ := Option.map_eq_some_iff.1 hcurrent
  have hle : n ≤ i := (le_iff_quorum hi (by omega) (h.numbered.le_lastIndex he)).2 hheld
  have hlast := h.le_lastIndex hi
  have hbase := h.base
  obtain ⟨e', he'⟩ := h.numbered.exists_entryAt? (i := i) (by omega) hlast
  refine ⟨hle, by omega, (le_iff_quorum hi (by omega) hlast).1 (Nat.le_refl i), ?_⟩
  rw [he', Option.map_some, h.term_eq he hterm he' hle]

/-- The test of the leader at the place of the quorum is that it may commit it. -/
theorem committable_iff (h : r.Ordered) {i : Nat} (hi : r.holdings[r.quorum - 1]? = some i) :
    r.Committable i ↔ r.commitIndex < i ∧ r.termAt i = r.term := by
  have hlast := h.le_lastIndex hi
  have hbase := h.base
  constructor
  · rintro ⟨hfresh, -, hcurrent⟩
    obtain ⟨e, he, hterm⟩ := Option.map_eq_some_iff.1 hcurrent
    exact ⟨hfresh, termAt_of_entryAt? he ▸ hterm⟩
  · rintro ⟨hfresh, hterm⟩
    obtain ⟨e, he⟩ := h.numbered.exists_entryAt? (i := i) (by omega) hlast
    refine ⟨hfresh, (le_iff_quorum hi (by omega) hlast).1 (Nat.le_refl i), ?_⟩
    rw [he, Option.map_some, ← termAt_of_entryAt? he, hterm]

end Ordered

/-- **A leader commits exactly by the rule.** If it may commit any position, it commits the highest
that it may, and says so; else it stays as it is, and says that. -/
theorem advanceCommit_greatest (leads : r.role = .leader) (h : r.Ordered) :
    (∃ n, r.Committable n ∧ (∀ k, r.Committable k → k ≤ n) ∧
        r.advanceCommit = .ok ({ r with commitIndex := n }, true)) ∨
      (∀ k, ¬ r.Committable k) ∧ r.advanceCommit = .ok (r, false) := by
  have hquorum : r.quorum = r.members.length / 2 + 1 := rfl
  have hlen := quorum_le_length_holdings h.distinct
  obtain ⟨i, hi⟩ : ∃ i, r.holdings[r.quorum - 1]? = some i :=
    ⟨_, List.getElem?_eq_getElem (by omega)⟩
  have hrun : r.advanceCommit =
      if r.Committable i then .ok ({ r with commitIndex := i }, true) else .ok (r, false) := by
    simp only [advanceCommit, Replica.leads, leads, decide_true, Bool.not_true, Bool.false_eq_true,
      if_false, hi, h.committable_iff hi]
  by_cases hmay : r.Committable i
  · rw [if_pos hmay] at hrun
    exact .inl ⟨i, hmay, fun k hk => (h.committable_at_quorum hi hk).1, hrun⟩
  · rw [if_neg hmay] at hrun
    exact .inr ⟨fun k hk => hmay (h.committable_at_quorum hi hk).2, hrun⟩

/-- A leader of five, in term 3 with an image of the first two entries. Of its own term are the
entries from 4 on, and two of its peers have not answered it yet. -/
def leadingFive : Replica :=
  { create 1 [1, 2, 3, 4, 5] {} with
    role := .leader
    term := 3
    log := [⟨2, 3, .put "a" "x"⟩, ⟨3, 4, .put "b" "y"⟩, ⟨3, 5, .delete "a"⟩]
    snapshotIndex := 2
    snapshotTerm := 1
    commitIndex := 2
    lastApplied := 2
    matched := .ofList [(2, 5), (3, 4)] }

/-- It commits position 4, which a quorum holds with it, but not its last position. -/
theorem advanceCommit_greatest_leadingFive :
    leadingFive.role = .leader ∧ leadingFive.Ordered ∧ leadingFive.Committable 4 ∧
      (∀ k, leadingFive.Committable k → k ≤ 4) ∧
      leadingFive.advanceCommit = .ok ({ leadingFive with commitIndex := 4 }, true) := by
  have hordered : leadingFive.Ordered := by
    refine ⟨by decide, ?_, by decide, by decide, by decide, by decide⟩
    rintro (_ | _ | _ | k) e he <;> cases he <;> rfl
  have hmay : leadingFive.Committable 4 := by decide
  rcases advanceCommit_greatest rfl hordered with ⟨n, hn, hgreatest, hrun⟩ | ⟨hnone, -⟩
  · obtain ⟨e, he, -⟩ := Option.map_eq_some_iff.1 hn.current
    have hlast : n ≤ 5 := hordered.numbered.le_lastIndex he
    have hnot : ¬ leadingFive.Committable 5 := by decide
    have hlow := hgreatest 4 hmay
    obtain rfl : n = 4 := by
      rcases Nat.eq_or_lt_of_le hlast with rfl | hlt
      · exact absurd hn hnot
      · omega
    exact ⟨rfl, hordered, hmay, hgreatest, hrun⟩
  · exact absurd hmay (hnone 4)

end Replica

end ReplicatedStore
