import ReplicatedStore.Proofs.Quorums
import ReplicatedStore.Proofs.ReplicaLogs
import ReplicatedStore.Replica.Leader
/-!
# What a leader knows of its peers

A leader keeps two positions for each peer. `Replica.Tracks` says that they are inside its log, and
that what it takes a peer to hold is committed or was acknowledged. From this:

* its requests show its own log (`Tracks.appendRequest`, `Tracks.heartbeat`);
* what it commits is held by a majority (`majority_holding`), because it stands at the place of the
  quorum among what each member is known to hold, in descending order.
-/
namespace ReplicatedStore

open History

/-- In a descending list, so many entries are at least as large as the one at a position. -/
theorem lt_length_filter_of_descending {l : List Nat} (h : l.Pairwise fun a b => b ≤ a) {k i : Nat}
    (hk : l[k]? = some i) : k < (l.filter (i ≤ ·)).length := by
  have hall : ∀ n ∈ l.take (k + 1), decide (i ≤ n) = true := by
    intro n hn
    obtain ⟨j, hj⟩ := List.getElem?_of_mem hn
    rw [List.getElem?_take] at hj
    split at hj
    · next hlt =>
      obtain ⟨hjl, hj⟩ := List.getElem?_eq_some_iff.1 hj
      obtain ⟨hkl, hk⟩ := List.getElem?_eq_some_iff.1 hk
      rw [decide_eq_true_eq, ← hj, ← hk]
      rcases Nat.lt_or_ge j k with hjk | hjk
      · exact List.pairwise_iff_getElem.1 h j k hjl hkl hjk
      · obtain rfl : j = k := by omega
        exact Nat.le_refl _
    · cases hj
  have hsub : ((l.take (k + 1)).filter (i ≤ ·)).Sublist (l.filter (i ≤ ·)) :=
    (List.take_sublist _ _).filter _
  have hlen := hsub.length_le
  rw [List.filter_eq_self.2 hall, List.length_take_of_le (List.getElem?_eq_some_iff.1 hk).1] at hlen
  exact hlen

namespace Replica

/-- What a member is known to hold. -/
def holding (r : Replica) (u : NodeId) : Nat :=
  if u = r.id then r.lastIndex else (r.matched.get? u).getD 0

theorem holdings_perm (r : Replica) : r.holdings.Perm ((r.peers ++ [r.id]).map r.holding) := by
  refine (List.mergeSort_perm _ _).trans (List.Perm.of_eq ?_)
  rw [List.map_append]
  congr 1
  · refine List.map_congr_left fun u hu => ?_
    have hne : u ≠ r.id := of_decide_eq_true (List.mem_filter.1 hu).2
    rw [holding, if_neg hne]
  · simp [holding]

theorem holdings_descending (r : Replica) : r.holdings.Pairwise fun a b => b ≤ a := by
  have h : r.holdings.Pairwise fun a b => decide (b ≤ a) = true := by
    refine List.pairwise_mergeSort (fun a b c hab hbc => ?_) (fun a b => ?_) _
    · simp only [decide_eq_true_eq] at *
      omega
    · simp only [Bool.or_eq_true, decide_eq_true_eq]
      omega
  exact h.imp fun hab => of_decide_eq_true hab

/-- A majority holds what stands at the place of the quorum. -/
theorem majority_holding {r : Replica} (hid : r.id ∈ r.members) (hdistinct : r.members.Nodup)
    {i : Nat} (h : r.holdings[r.quorum - 1]? = some i) :
    ∃ Q, Majority r.members Q ∧ ∀ u ∈ Q, (u = r.id ∨ u ∈ r.peers) ∧ i ≤ r.holding u := by
  have hcount := lt_length_filter_of_descending r.holdings_descending h
  have hperm := (r.holdings_perm.filter (i ≤ ·)).length_eq
  rw [List.filter_map, List.length_map] at hperm
  refine ⟨(r.peers ++ [r.id]).filter (i ≤ r.holding ·), ⟨?_, ?_, ?_⟩, ?_⟩
  · refine List.Pairwise.filter _ (List.nodup_append.2 ⟨hdistinct.filter _, by simp, ?_⟩)
    intro u hu u' hu' heq
    have hne : u ≠ r.id := of_decide_eq_true (List.mem_filter.1 hu).2
    exact hne (heq.trans (List.mem_singleton.1 hu'))
  · intro u hu
    rcases List.mem_append.1 (List.mem_filter.1 hu).1 with hu | hu
    · exact (List.mem_filter.1 hu).1
    · exact List.mem_singleton.1 hu ▸ hid
  · have hq : r.quorum = r.members.length / 2 + 1 := rfl
    have hfun : ((fun x => decide (i ≤ x)) ∘ r.holding) = fun u => decide (i ≤ r.holding u) := rfl
    rw [hfun] at hperm
    omega
  · intro u hu
    obtain ⟨hmem, hle⟩ := List.mem_filter.1 hu
    refine ⟨?_, of_decide_eq_true hle⟩
    rcases List.mem_append.1 hmem with hu | hu
    · exact .inr hu
    · exact .inl (List.mem_singleton.1 hu)

/-! ## Proposals -/

/-- A leader puts the command at the end of its log. Nobody else appends anything. -/
theorem propose_cases {r : Replica} {command : Command} {p : Option (Replica × Entry)}
    (h : r.propose command = .ok p) :
    (r.role ≠ .leader ∧ p = none) ∨
      (r.role = .leader ∧ r.lastIndex + 1 ≤ maxWord ∧
        p = some ({ r with log := r.log ++ [⟨r.term, r.lastIndex + 1, command⟩] },
          ⟨r.term, r.lastIndex + 1, command⟩)) := by
  unfold propose at h
  split at h
  · next hleads =>
    cases h
    exact .inl ⟨by simpa [leads] using hleads, rfl⟩
  · next hleads =>
    obtain ⟨index, hindex, h⟩ := bind_eq_ok.1 h
    obtain ⟨hword, rfl⟩ := Word.add_eq_ok_iff.1 hindex
    cases h
    exact .inr ⟨by simpa [leads] using hleads, hword, rfl⟩

/-! ## Recording answers -/

/-- The books after a peer's answer. -/
def answered (r : Replica) (success : Bool) (sender : NodeId) (lastSent : Nat) : Replica :=
  if success then
    let matched := max ((r.matched.get? sender).getD 0) lastSent
    { r with
      matched := r.matched.insert sender matched
      next := r.next.insert sender (matched + 1) }
  else
    let next := (r.next.get? sender).getD 1
    { r with next := r.next.insert sender (if 1 < next then next - 1 else next) }

theorem advanceCommit_spec {r r' : Replica} {advanced : Bool}
    (h : r.advanceCommit = .ok (r', advanced)) :
    (r' = r ∧ advanced = false) ∨
      (advanced = true ∧ r.role = .leader ∧ ∃ i, r.holdings[r.quorum - 1]? = some i ∧
        r.commitIndex < i ∧ r.termAt i = r.term ∧ r' = { r with commitIndex := i }) := by
  unfold advanceCommit at h
  split at h
  · cases h
    exact .inl ⟨rfl, rfl⟩
  · next hleads =>
    split at h
    · cases h
    · next i hi =>
      split at h
      · next hcond =>
        cases h
        refine .inr ⟨rfl, ?_, i, hi, hcond.1, hcond.2, rfl⟩
        simpa [leads] using hleads
      · cases h
        exact .inl ⟨rfl, rfl⟩

theorem recordAppend_spec {r r' : Replica} {term lastSent : Nat} {success advanced : Bool}
    {sender : NodeId} (h : r.recordAppend term success sender lastSent = .ok (r', advanced)) :
    (r.term < term ∧ r' = r.follow term ∧ advanced = false) ∨ (r' = r ∧ advanced = false) ∨
      (r.role = .leader ∧ term = r.term ∧
        ((success = true ∧
            (r.answered success sender lastSent).advanceCommit = .ok (r', advanced)) ∨
          (success = false ∧ r' = r.answered success sender lastSent ∧ advanced = false))) := by
  unfold recordAppend at h
  split at h
  · next hlt =>
    cases h
    exact .inl ⟨hlt, rfl, rfl⟩
  · next hge =>
    split at h
    · cases h
      exact .inr (.inl ⟨rfl, rfl⟩)
    · next hcond =>
      simp only [Bool.or_eq_true, Bool.not_eq_true', decide_eq_true_eq, not_or,
        Bool.not_eq_false] at hcond
      have hrole : r.role = .leader := of_decide_eq_true hcond.1
      refine .inr (.inr ⟨hrole, by omega, ?_⟩)
      cases success with
      | true =>
        obtain ⟨next, hnext, h⟩ := bind_eq_ok.1 h
        obtain ⟨-, rfl⟩ := Word.add_eq_ok_iff.1 hnext
        exact .inl ⟨rfl, h⟩
      | false =>
        cases h
        exact .inr ⟨rfl, rfl, rfl⟩

/-- The books are inside a log of this length, and what a peer is taken to hold is committed or was
acknowledged. -/
structure Tracks (r : Replica) (length : Nat) (acked : NodeId → Nat → Prop) : Prop where
  next : ∀ p n, r.next.get? p = some n → 1 ≤ n ∧ n ≤ length + 1
  matched : ∀ p k, r.matched.get? p = some k → k ≤ length ∧ (k ≤ r.commitIndex ∨ acked p k)

variable {r r' : Replica} {x : History} {length : Nat} {acked acked' : NodeId → Nat → Prop}

theorem Tracks.mono (h : Tracks r length acked) {length' : Nat} (hl : length ≤ length')
    (hn : r'.next = r.next) (hm : r'.matched = r.matched) (hc : r.commitIndex ≤ r'.commitIndex)
    (ha : ∀ p k, acked p k → acked' p k) : Tracks r' length' acked' where
  next p n hp := by
    have := h.next p n (hn ▸ hp)
    omega
  matched p k hp := by
    obtain ⟨hk, hk'⟩ := h.matched p k (hm ▸ hp)
    exact ⟨Nat.le_trans hk hl, hk'.imp (fun hle => Nat.le_trans hle hc) (ha p k)⟩

theorem tracks_lead (h : r.lead = .ok r') : Tracks r' r.lastIndex acked := by
  obtain ⟨next, hnext, h⟩ := bind_eq_ok.1 h
  obtain ⟨-, rfl⟩ := Word.add_eq_ok_iff.1 hnext
  cases h
  constructor
  · intro p n hp
    obtain ⟨u, -, heq⟩ := List.mem_map.1 (Table.mem_of_get?_ofList hp)
    cases heq
    omega
  · intro p k hp
    obtain ⟨u, -, heq⟩ := List.mem_map.1 (Table.mem_of_get?_ofList hp)
    cases heq
    exact ⟨Nat.zero_le _, .inl (Nat.zero_le _)⟩

theorem Tracks.answered (h : Tracks r length acked) {success : Bool} {sender : NodeId}
    {lastSent : Nat}
    (hs : success = true → lastSent ≤ length ∧ (lastSent ≤ r.commitIndex ∨ acked sender lastSent)) :
    Tracks (r.answered success sender lastSent) length acked := by
  unfold Replica.answered
  cases success with
  | true =>
    obtain ⟨hle, hheld⟩ := hs rfl
    -- the larger of two positions that are held is held
    have hmax : max ((r.matched.get? sender).getD 0) lastSent ≤ length ∧
        (max ((r.matched.get? sender).getD 0) lastSent ≤ r.commitIndex ∨
          acked sender (max ((r.matched.get? sender).getD 0) lastSent)) := by
      cases hm : r.matched.get? sender with
      | none => rw [Option.getD_none, Nat.zero_max]; exact ⟨hle, hheld⟩
      | some k =>
        rw [Option.getD_some]
        rcases Nat.le_total k lastSent with hk | hk
        · rw [Nat.max_eq_right hk]; exact ⟨hle, hheld⟩
        · rw [Nat.max_eq_left hk]; exact h.matched sender k hm
    constructor
    · intro p n hp
      simp only [if_true, Table.get?_insert] at hp
      split at hp
      · cases hp
        omega
      · exact h.next p n hp
    · intro p k hp
      simp only [if_true, Table.get?_insert] at hp
      split at hp
      · next heq =>
        obtain rfl : p = sender := Std.LawfulEqOrd.eq_of_compare heq
        cases hp
        exact hmax
      · exact h.matched p k hp
  | false =>
    refine ⟨fun p n hp => ?_, h.matched⟩
    have hnext : 1 ≤ (r.next.get? sender).getD 1 ∧ (r.next.get? sender).getD 1 ≤ length + 1 := by
      cases hn : r.next.get? sender with
      | none => rw [Option.getD_none]; omega
      | some n => exact h.next sender n hn
    simp only [Bool.false_eq_true, if_false, Table.get?_insert] at hp
    split at hp
    · cases hp
      split <;> omega
    · exact h.next p n hp

/-! ## Requests -/

theorem needsImage_iff {peer : NodeId} {next : Nat} (hnext : r.next.get? peer = some next) :
    r.needsImage peer = true ↔ 0 < r.snapshotIndex ∧ next ≤ r.snapshotIndex := by
  simp only [needsImage, hnext, Option.any_some, Bool.and_eq_true, decide_eq_true_eq]

theorem needsImage_eq_false_iff {peer : NodeId} {next : Nat}
    (hnext : r.next.get? peer = some next) :
    r.needsImage peer = false ↔ (0 < r.snapshotIndex → r.snapshotIndex < next) := by
  rw [← Bool.not_eq_true, needsImage_iff hnext, not_and, Nat.not_le]

/-- Only a leader sends requests, and to a peer only if it does not need the image. -/
theorem sendable?_eq_some_iff {peer : NodeId} {next : Nat} :
    r.sendable? peer = some next ↔
      r.role = .leader ∧ r.needsImage peer = false ∧ r.next.get? peer = some next := by
  simp only [sendable?, leads, Option.ite_none_left_eq_some, Bool.or_eq_true, Bool.not_eq_true',
    decide_eq_false_iff_not, not_or, Decidable.not_not, Bool.not_eq_true, and_assoc]

theorem role_of_sendable {peer : NodeId} {next : Nat} (hs : r.sendable? peer = some next) :
    r.role = .leader :=
  (sendable?_eq_some_iff.1 hs).1

/-- A request with entries is the window from the peer's next position to the end of the log. -/
theorem appendRequest?_eq_some_iff {peer : NodeId} {q : AppendRequest} :
    r.appendRequest? peer = .ok (some q) ↔
      ∃ next, r.sendable? peer = some next ∧ r.snapshotIndex < maxWord ∧
        q = r.window next (r.log.drop (next - r.snapshotIndex - 1)) := by
  unfold appendRequest?
  constructor
  · intro hq
    split at hq
    · cases hq
    · next next hs =>
      obtain ⟨es, hes, hq⟩ := bind_eq_ok.1 hq
      obtain ⟨hroom, rfl⟩ := entriesFrom_eq_ok_iff.1 hes
      cases hq
      exact ⟨next, hs, hroom, rfl⟩
  · rintro ⟨next, hs, hroom, rfl⟩
    rw [hs]
    exact bind_eq_ok.2 ⟨_, entriesFrom_eq_ok_iff.2 ⟨hroom, rfl⟩, rfl⟩

/-- Only a leader sends entries. -/
theorem role_of_appendRequest {peer : NodeId} {q : AppendRequest}
    (hq : r.appendRequest? peer = .ok (some q)) : r.role = .leader := by
  obtain ⟨next, hs, -⟩ := appendRequest?_eq_some_iff.1 hq
  exact role_of_sendable hs

theorem role_of_heartbeat {peer : NodeId} {q : AppendRequest} (hq : r.heartbeat? peer = some q) :
    r.role = .leader := by
  unfold heartbeat? at hq
  obtain ⟨next, hs, -⟩ := Option.map_eq_some_iff.1 hq
  exact role_of_sendable hs

theorem Tracks.sendable (h : Tracks r length acked) {peer : NodeId} {next : Nat}
    (hs : r.sendable? peer = some next) : r.snapshotIndex < next ∧ next ≤ length + 1 := by
  obtain ⟨-, hneeds, hnext⟩ := sendable?_eq_some_iff.1 hs
  have hlt := (needsImage_eq_false_iff hnext).1 hneeds
  obtain ⟨h1, hle⟩ := h.next peer next hnext
  omega

theorem shows_window (h : r.Spans x) {next : Nat} (hlt : r.snapshotIndex < next)
    (hle : next ≤ x.length + 1) {es : List Entry} (hes : es <+: x.drop (next - 1)) :
    Shows (r.window next es) x := by
  have hlen := hes.length_le
  rw [List.length_drop] at hlen
  have hprev : r.snapshotIndex ≤ next - 1 := by omega
  refine ⟨?_, h.termAt_eq hprev, List.prefix_iff_eq_take.1 hes⟩
  simp only [window]
  omega

/-- A request with entries shows the leader's log. -/
theorem Tracks.appendRequest (h : Tracks r x.length acked) (hx : r.Spans x) {peer : NodeId}
    {q : AppendRequest} (hq : r.appendRequest? peer = .ok (some q)) :
    Shows q x ∧ q.term = r.term ∧ q.leaderCommit = r.commitIndex := by
  obtain ⟨next, hs, -, rfl⟩ := appendRequest?_eq_some_iff.1 hq
  obtain ⟨hlt, hle⟩ := h.sendable hs
  exact ⟨shows_window hx hlt hle (hx.drop_eq hlt ▸ List.prefix_rfl), rfl, rfl⟩

/-- A heartbeat shows the leader's log. -/
theorem Tracks.heartbeat (h : Tracks r x.length acked) (hx : r.Spans x) {peer : NodeId}
    {q : AppendRequest} (hq : r.heartbeat? peer = some q) :
    Shows q x ∧ q.term = r.term ∧ q.leaderCommit = r.commitIndex := by
  unfold heartbeat? at hq
  obtain ⟨next, hs, rfl⟩ := Option.map_eq_some_iff.1 hq
  obtain ⟨hlt, hle⟩ := h.sendable hs
  exact ⟨shows_window hx hlt hle List.nil_prefix, rfl, rfl⟩

end Replica

end ReplicatedStore
