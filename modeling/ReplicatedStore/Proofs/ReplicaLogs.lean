import ReplicatedStore.Proofs.Histories
import ReplicatedStore.Replica.Compaction
import ReplicatedStore.Replica.Follower
/-!
# The log of a replica as part of a history

A replica holds the entries above its snapshot base; `Replica.Spans r x` says that these are the
part of the history `x` above the base, and that the base has the term it has in `x`. Through it
every operation on the log is one on histories:

* `Spans.placeAll`: placing a window of a leader's history adopts the leader's prefix up to the
  window's end.
* `Spans.rebase`: so does making room for an image.
* `Spans.compact`: compaction changes nothing.

`Spans.placeAll` needs that the log and the leader's history agree below any position at which
they have the same term (`Matching`), and that what the base covers is a prefix of the leader's.
-/
namespace ReplicatedStore

open History

namespace Replica

/-- The log is the part of a history above the snapshot base. -/
structure Spans (r : Replica) (x : History) : Prop where
  base : r.snapshotIndex ≤ x.length
  log : r.log = x.drop r.snapshotIndex
  term : r.snapshotTerm = x.termAt r.snapshotIndex
  sane : Sane x

/-- Below a position at which two histories have the same term, they agree. -/
def Matching (x y : History) : Prop :=
  ∀ k, k < x.length → k < y.length → x.termAt (k + 1) = y.termAt (k + 1) →
    x.take (k + 1) = y.take (k + 1)

/-- Only the log, its base and what is applied differ. -/
def SameButLog (r r' : Replica) : Prop :=
  ∃ log base term applied,
    r' = { r with log := log, snapshotIndex := base, snapshotTerm := term, lastApplied := applied }

theorem SameButLog.refl (r : Replica) : SameButLog r r := ⟨_, _, _, _, rfl⟩

theorem SameButLog.trans {r r' r'' : Replica} (h : SameButLog r r') (h' : SameButLog r' r'') :
    SameButLog r r'' := by
  obtain ⟨_, _, _, _, rfl⟩ := h
  obtain ⟨_, _, _, _, rfl⟩ := h'
  exact ⟨_, _, _, _, rfl⟩

theorem SameButLog.commit {r r' : Replica} (h : SameButLog r r') :
    r'.commitIndex = r.commitIndex := by
  obtain ⟨_, _, _, _, rfl⟩ := h
  rfl

theorem SameButLog.role {r r' : Replica} (h : SameButLog r r') : r'.role = r.role := by
  obtain ⟨_, _, _, _, rfl⟩ := h
  rfl

theorem SameButLog.term {r r' : Replica} (h : SameButLog r r') : r'.term = r.term := by
  obtain ⟨_, _, _, _, rfl⟩ := h
  rfl

theorem SameButLog.ballot {r r' : Replica} (h : SameButLog r r') : r'.ballot = r.ballot := by
  obtain ⟨_, _, _, _, rfl⟩ := h
  rfl

/-- The entries from a position on, which start at the first one of the log for a position that the
log is past. -/
theorem entriesFrom_eq_ok_iff {r : Replica} {i : Nat} {es : List Entry} :
    r.entriesFrom i = .ok es ↔
      r.snapshotIndex < maxWord ∧ es = r.log.drop (i - r.snapshotIndex - 1) := by
  have hfirst : max i (r.snapshotIndex + 1) - r.snapshotIndex - 1 = i - r.snapshotIndex - 1 := by
    omega
  constructor
  · intro he
    obtain ⟨first, hf, he⟩ := bind_eq_ok.1 he
    obtain ⟨hroom, rfl⟩ := Word.add_eq_ok_iff.1 hf
    cases he
    exact ⟨hroom, by rw [hfirst]⟩
  · rintro ⟨hroom, rfl⟩
    refine bind_eq_ok.2 ⟨_, Word.add_eq_ok_iff.2 ⟨hroom, rfl⟩, ?_⟩
    rw [hfirst]
    rfl

namespace Spans

variable {r : Replica} {x : History}

theorem congr {r' : Replica} (h : r.Spans x) (hl : r'.log = r.log)
    (hs : r'.snapshotIndex = r.snapshotIndex) (ht : r'.snapshotTerm = r.snapshotTerm) :
    r'.Spans x where
  base := hs ▸ h.base
  log := by rw [hl, hs, h.log]
  term := by rw [ht, hs, h.term]
  sane := h.sane

theorem entryAt?_eq (h : r.Spans x) {i : Nat} (hi : r.snapshotIndex < i) :
    r.entryAt? i = x[i - 1]? := by
  rw [entryAt?, if_neg (by omega), h.log, List.getElem?_drop]
  congr 1
  omega

theorem termAt_eq (h : r.Spans x) {i : Nat} (hi : r.snapshotIndex ≤ i) :
    r.termAt i = x.termAt i := by
  unfold Replica.termAt
  split
  · next h0 => rw [h0, termAt_zero]
  · next h0 =>
    split
    · next hs => rw [hs, h.term]
    · next hs =>
      rw [h.entryAt?_eq (by omega), History.termAt, if_neg h0]

theorem lastIndex_eq (h : r.Spans x) : r.lastIndex = x.length := by
  rw [lastIndex, h.log]
  rcases Nat.lt_or_ge r.snapshotIndex x.length with hlt | hge
  · have hlast : (x.drop r.snapshotIndex).getLast? = x[x.length - 1]? := by
      rw [List.getLast?_eq_getElem?, List.getElem?_drop, List.length_drop]
      congr 1
      omega
    obtain ⟨e, he, -⟩ := exists_getElem? (x := x) (i := x.length) (by omega) (Nat.le_refl _)
    have hidx := h.sane.index _ e he
    simp only [hlast, he, Option.map_some, Option.getD_some, hidx]
    omega
  · have hb := h.base
    rw [List.drop_eq_nil_of_le hge]
    simp only [List.getLast?_nil, Option.map_none, Option.getD_none]
    omega

theorem lastTerm_eq (h : r.Spans x) : r.lastTerm = x.lastTerm := by
  rw [Replica.lastTerm, h.log, History.lastTerm]
  rcases Nat.lt_or_ge r.snapshotIndex x.length with hlt | hge
  · obtain ⟨e, he, ht⟩ := exists_getElem? (x := x) (i := x.length) (by omega) (Nat.le_refl _)
    have hlast : (x.drop r.snapshotIndex).getLast? = some e := by
      rw [List.getLast?_eq_getElem?, List.getElem?_drop, List.length_drop, ← he]
      congr 1
      omega
    rw [hlast, ht]
    rfl
  · have hb := h.base
    rw [List.drop_eq_nil_of_le hge, h.term, show r.snapshotIndex = x.length by omega]
    rfl

/-- A log that is found to be as complete is. -/
theorem behind (h : r.Spans x) {lastIndex lastTerm : Nat} {z : History}
    (hi : lastIndex = z.length) (ht : lastTerm = z.lastTerm)
    (hdate : r.isUpToDate lastIndex lastTerm = true) : Behind x z := by
  simp only [isUpToDate, h.lastTerm_eq, h.lastIndex_eq, Bool.or_eq_true, Bool.and_eq_true,
    decide_eq_true_eq] at hdate
  rcases hdate with hlt | ⟨heq, hle⟩
  · exact .inl (ht ▸ hlt)
  · exact .inr ⟨(ht ▸ heq).symm, hi ▸ hle⟩

theorem drop_eq (h : r.Spans x) {i : Nat} (hi : r.snapshotIndex < i) :
    r.log.drop (i - r.snapshotIndex - 1) = x.drop (i - 1) := by
  rw [h.log, List.drop_drop]
  congr 1
  omega

theorem entriesFrom_eq (h : r.Spans x) {i : Nat} (hi : r.snapshotIndex < i) {es : List Entry}
    (he : r.entriesFrom i = .ok es) : es = x.drop (i - 1) :=
  (entriesFrom_eq_ok_iff.1 he).2.trans (h.drop_eq hi)

/-- The log as it is after an append. -/
theorem concat (h : r.Spans x) {e : Entry} (hx : Sane (x ++ [e])) :
    ({ r with log := r.log ++ [e] } : Replica).Spans (x ++ [e]) where
  base := by
    have := h.base
    simp only [List.length_append]
    omega
  log := by rw [h.log, List.drop_append_of_le_length h.base]
  term := by rw [h.term]; exact termAt_of_isPrefix (List.prefix_append _ _) h.base
  sane := hx

end Spans

/-! ## Placing entries -/

theorem Matching.refl_take {x y : History} (h : Matching x y) {k : Nat} (hx : k < x.length)
    (hy : k < y.length) (ht : x[k].term = y[k].term) : y.take (k + 1) <+: x := by
  have hm := h k hx hy (by
    rw [termAt_of_getElem? (List.getElem?_eq_getElem hx),
      termAt_of_getElem? (List.getElem?_eq_getElem hy), ht])
  exact hm ▸ List.take_prefix _ _

/-- What a change report says about the log before and after. -/
def Reports (x x' : History) : Option LogChange → Prop
  | none => x' = x
  | some (.appended start) => start = x.length + 1 ∧ x <+: x'
  | some .rewritten => True

theorem Reports.push {x x' : History} {change : Option LogChange} {i : Nat} {e : Entry}
    (h : Reports x x' change) (hi : i = x'.length + 1) :
    Reports x (x' ++ [e]) (change <|> some (.appended i)) := by
  match change with
  | none =>
    obtain rfl : x' = x := h
    exact ⟨hi, List.prefix_append _ _⟩
  | some (.appended start) => exact ⟨h.1, h.2.trans (List.prefix_append _ _)⟩
  | some .rewritten => trivial

theorem Spans.truncate {r : Replica} {x : History} (h : r.Spans x) {i : Nat}
    (hi : r.snapshotIndex < i) (hx : i ≤ x.length) : (r.truncate i).Spans (x.take (i - 1)) := by
  rw [Replica.truncate, if_pos hi]
  have hlen : (x.take (i - 1)).length = i - 1 := List.length_take_of_le (by omega)
  refine ⟨by simp only [hlen]; omega, ?_, ?_, h.sane.of_isPrefix (List.take_prefix _ _)⟩
  · simp only [h.log]
    rw [List.drop_take]
    congr 1
    omega
  · simp only [h.term]
    exact (termAt_of_isPrefix (List.take_prefix _ _) (by omega)).symm

/-- An entry that the log has, or had before it was compacted, is left alone. -/
theorem Spans.place_held {r : Replica} {x : History} (h : r.Spans x) {j : Nat} {e : Entry}
    (he : x[j]? = some e) (change : Option LogChange) : r.place (j + 1) e change = (r, change) := by
  unfold Replica.place
  split
  · rfl
  · next hgt => simp [h.entryAt?_eq (i := j + 1) (by omega), he]

/-- An entry of another term gives way, with all that comes after it. -/
theorem Spans.place_conflict {r : Replica} {x : History} (h : r.Spans x) {j : Nat}
    {e held : Entry} (hj : r.snapshotIndex < j + 1) (hheld : x[j]? = some held)
    (hne : held.term ≠ e.term) (he : e.index = j + 1) (change : Option LogChange) :
    r.place (j + 1) e change =
      ({ r.truncate (j + 1) with log := (r.truncate (j + 1)).log ++ [e] }, some .rewritten) := by
  have hset : ({ e with index := j + 1 } : Entry) = e := by rw [← he]
  unfold Replica.place
  rw [if_neg (Nat.not_le.2 hj), h.entryAt?_eq hj, Nat.add_sub_cancel, hheld]
  simp only [if_neg hne, hset]

/-- An entry that comes next is put at the end. -/
theorem Spans.place_next {r : Replica} {x : History} (h : r.Spans x) {e : Entry}
    (he : e.index = x.length + 1) (change : Option LogChange) :
    r.place (x.length + 1) e change =
      ({ r with log := r.log ++ [e] }, change <|> some (.appended (x.length + 1))) := by
  have hset : ({ e with index := x.length + 1 } : Entry) = e := by rw [← he]
  have hbase : r.snapshotIndex < x.length + 1 := Nat.lt_succ_of_le h.base
  unfold Replica.place
  rw [if_neg (Nat.not_le.2 hbase), h.entryAt?_eq hbase, Nat.add_sub_cancel,
    List.getElem?_eq_none (Nat.le_refl _)]
  simp only [hset]

/-- One step of merging a leader's history `y`: what stands below position `j` is merged, the entry
there is next. -/
theorem Spans.place {r : Replica} {x y : History} {j : Nat} {change : Option LogChange}
    (h : r.Spans (adopt x (y.take j))) (hm : Matching x y) (hy : Sane y) (hj : j < y.length)
    (hb : x.take r.snapshotIndex <+: y) (hbx : r.snapshotIndex ≤ x.length)
    (hc : Reports x (adopt x (y.take j)) change) :
    ∃ log, (r.place (j + 1) y[j] change).1 = { r with log := log } ∧
      (r.place (j + 1) y[j] change).1.Spans (adopt x (y.take (j + 1))) ∧
      Reports x (adopt x (y.take (j + 1))) (r.place (j + 1) y[j] change).2 := by
  have hget : y[j]? = some y[j] := List.getElem?_eq_getElem hj
  have hidx : y[j].index = j + 1 := hy.index _ _ hget
  have hlen : (y.take j).length = j := List.length_take_of_le (Nat.le_of_lt hj)
  have hlen' : (y.take (j + 1)).length = j + 1 := List.length_take_of_le hj
  by_cases hhas : y.take (j + 1) <+: x
  · -- the entry was there already
    have hheld : x[j]? = some y[j] := by
      rw [← getElem?_of_isPrefix hhas (by omega), List.getElem?_take_of_lt (Nat.lt_succ_self j),
        hget]
    rw [adopt, if_pos ((take_prefix_take (Nat.le_succ j)).trans hhas)] at h hc
    rw [adopt, if_pos hhas, h.place_held hheld]
    exact ⟨_, rfl, h, hc⟩
  · have hsucc : y.take (j + 1) = y.take j ++ [y[j]] := by rw [List.take_add_one, hget]; rfl
    have hsane : Sane (y.take j ++ [y[j]]) := hsucc ▸ hy.of_isPrefix (List.take_prefix _ _)
    have hbase : r.snapshotIndex < j + 1 := by
      -- what is below the base agrees with the leader's history
      refine Nat.lt_of_not_le fun hle => ?_
      have hlen'' : (x.take r.snapshotIndex).length = r.snapshotIndex := List.length_take_of_le hbx
      have hcov : y.take (j + 1) <+: x.take r.snapshotIndex :=
        List.prefix_of_prefix_length_le (List.take_prefix _ _) hb (by omega)
      exact hhas (hcov.trans (List.take_prefix _ _))
    rw [adopt, if_neg hhas, hsucc]
    by_cases hend : adopt x (y.take j) = y.take j
    · -- the log ends here
      rw [hend] at h hc
      have hnext := h.place_next (e := y[j]) (by omega) change
      rw [hlen] at hnext
      rw [hnext]
      exact ⟨_, rfl, h.concat hsane, hc.push (by omega)⟩
    · -- another entry stands there, and the rest of the log goes
      obtain ⟨hpre, hx⟩ := (adopt_eq_or x (y.take j)).resolve_right fun hnot => hend hnot.2
      rw [hx] at h hend
      have hlt : j < x.length := by
        refine Nat.lt_of_not_le fun hge => ?_
        exact hend (hpre.eq_of_length_le (by omega)).symm
      have hterm : x[j].term ≠ y[j].term := fun heq => hhas (hm.refl_take hlt hj heq)
      have hxy : x.take j = y.take j := by
        rw [← take_of_isPrefix hpre (by omega), List.take_take, Nat.min_self]
      have ht := h.truncate hbase (by omega)
      rw [Nat.add_sub_cancel, hxy] at ht
      rw [h.place_conflict hbase (List.getElem?_eq_getElem hlt) hterm hidx]
      refine ⟨(r.truncate (j + 1)).log ++ [y[j]], ?_, ht.concat hsane, trivial⟩
      unfold Replica.truncate
      split <;> rfl

/-- Placing a window of a leader's history adopts the leader's prefix up to the window's end. -/
theorem Spans.placeAll {x y : History} (hm : Matching x y) (hy : Sane y)
    (n : Nat) {r : Replica} {j : Nat} {change : Option LogChange}
    (h : r.Spans (adopt x (y.take j))) (hn : j + n ≤ y.length)
    (hb : x.take r.snapshotIndex <+: y) (hbx : r.snapshotIndex ≤ x.length)
    (hc : Reports x (adopt x (y.take j)) change) :
    ∃ log, (r.placeAll (j + 1) change ((y.drop j).take n)).1 = { r with log := log } ∧
      (r.placeAll (j + 1) change ((y.drop j).take n)).1.Spans (adopt x (y.take (j + n))) ∧
      Reports x (adopt x (y.take (j + n))) (r.placeAll (j + 1) change ((y.drop j).take n)).2 := by
  induction n generalizing r j change with
  | zero => exact ⟨_, rfl, h, hc⟩
  | succ n ih =>
    have hcons : (y.drop j).take (n + 1) = y[j] :: (y.drop (j + 1)).take n := by
      rw [List.drop_eq_getElem_cons (by omega), List.take_succ_cons]
    obtain ⟨log, hr, hs, hc'⟩ := h.place hm hy (by omega) hb hbx hc
    rw [hcons, Replica.placeAll, show j + (n + 1) = j + 1 + n by omega]
    obtain ⟨log', hr', hs', hc''⟩ := ih hs (by omega) (by rw [hr]; exact hb)
      (by rw [hr]; exact hbx) hc'
    exact ⟨log', by rw [hr', hr], hs', hc''⟩

/-! ## Append requests -/

/-- Everything but the standing of the replica is the same: what it is, and its log. -/
structure SameLog (r r' : Replica) : Prop where
  id : r'.id = r.id
  members : r'.members = r.members
  config : r'.config = r.config
  log : r'.log = r.log
  base : r'.snapshotIndex = r.snapshotIndex
  baseTerm : r'.snapshotTerm = r.snapshotTerm
  commit : r'.commitIndex = r.commitIndex
  applied : r'.lastApplied = r.lastApplied

theorem SameLog.refl (r : Replica) : SameLog r r := ⟨rfl, rfl, rfl, rfl, rfl, rfl, rfl, rfl⟩

theorem SameLog.trans {r r' r'' : Replica} (h : SameLog r r') (h' : SameLog r' r'') :
    SameLog r r'' :=
  ⟨h'.id.trans h.id, h'.members.trans h.members, h'.config.trans h.config, h'.log.trans h.log,
    h'.base.trans h.base, h'.baseTerm.trans h.baseTerm, h'.commit.trans h.commit,
    h'.applied.trans h.applied⟩

theorem Spans.of_sameLog {r r' : Replica} {x : History} (h : r.Spans x) (hs : SameLog r r') :
    r'.Spans x := h.congr hs.log hs.base hs.baseTerm

theorem sameLog_follow (r : Replica) (term : Nat) : SameLog r (r.follow term) := by
  unfold follow
  split <;> exact ⟨rfl, rfl, rfl, rfl, rfl, rfl, rfl, rfl⟩

theorem sameLog_accept (r : Replica) (term : Nat) (leader : NodeId) :
    SameLog r (r.accept term leader) := by
  have hf := sameLog_follow r term
  unfold accept
  split
  · exact ⟨hf.id, hf.members, hf.config, hf.log, hf.base, hf.baseTerm, hf.commit, hf.applied⟩
  · exact ⟨rfl, rfl, rfl, rfl, rfl, rfl, rfl, rfl⟩

/-- The request shows a window of a history. -/
structure Shows (q : AppendRequest) (y : History) : Prop where
  fits : q.prevIndex + q.entries.length ≤ y.length
  prevTerm : q.prevTerm = y.termAt q.prevIndex
  entries : q.entries = (y.drop q.prevIndex).take q.entries.length

/-- An anchored log agrees with the leader's up to the anchor. -/
theorem Spans.prefix_of_anchors {r : Replica} {x y : History} (h : r.Spans x) (hm : Matching x y)
    (hb : x.take r.snapshotIndex <+: y) {i : Nat} (hi : i ≤ y.length)
    (ha : r.anchors i (y.termAt i)) : y.take i <+: x := by
  have hlen : (y.take i).length = i := List.length_take_of_le hi
  rcases Nat.lt_or_ge r.snapshotIndex i with hlt | hge
  · obtain ⟨k, rfl⟩ : ∃ k, i = k + 1 := ⟨i - 1, by omega⟩
    have ha' : k + 1 ≤ x.length ∧ x.termAt (k + 1) = y.termAt (k + 1) := by
      simpa [anchors, Nat.not_le.2 hlt, h.lastIndex_eq, h.termAt_eq (Nat.le_of_lt hlt)] using ha
    exact hm k (by omega) (by omega) ha'.2 ▸ List.take_prefix _ _
  · have hcov : y.take i <+: x.take r.snapshotIndex :=
      List.prefix_of_prefix_length_le (List.take_prefix _ _) hb (by
        rw [hlen, List.length_take_of_le h.base]
        exact hge)
    exact hcov.trans (List.take_prefix _ _)

/-- The commit index stayed where it was, or moved up to the bound at most. -/
def CommitFollowed (r r' : Replica) (bound : Nat) (advanced : Bool) : Prop :=
  (advanced = false ∧ r'.commitIndex = r.commitIndex) ∨
    (advanced = true ∧ r.commitIndex < r'.commitIndex ∧ r'.commitIndex ≤ bound)

theorem followCommit_spec (r : Replica) (leaderCommit lastNew : Nat) :
    (∃ commit, (r.followCommit leaderCommit lastNew).1 = { r with commitIndex := commit }) ∧
      CommitFollowed r (r.followCommit leaderCommit lastNew).1 (min leaderCommit lastNew)
        (r.followCommit leaderCommit lastNew).2 := by
  simp only [followCommit]
  split
  · next h => exact ⟨⟨_, rfl⟩, .inr ⟨rfl, h.2, Nat.min_le_left _ _⟩⟩
  · exact ⟨⟨_, rfl⟩, .inl ⟨rfl, rfl⟩⟩

/-- **Merging a window.** A request of an old term or without an anchor changes no entry; any other
makes the log adopt the leader's history up to the window's end. -/
theorem Spans.takeEntries {r r' : Replica} {x y : History} {q : AppendRequest} {o : AppendOutcome}
    (h : r.Spans x) (hm : Matching x y) (hy : Sane y) (hw : Shows q y)
    (hb : x.take r.snapshotIndex <+: y) (ht : r.takeEntries q = .ok (r', o)) :
    (q.term < r.term ∧ r' = r ∧ o = ⟨false, false, none, false⟩) ∨
    (r.term ≤ q.term ∧ r' = r.accept q.term q.leader ∧ o = ⟨false, true, none, false⟩) ∨
    (r.term ≤ q.term ∧
      (∃ log commit, r' = { r.accept q.term q.leader with log := log, commitIndex := commit }) ∧
      r'.Spans (adopt x (y.take (q.prevIndex + q.entries.length))) ∧
      o.success = true ∧
      Reports x (adopt x (y.take (q.prevIndex + q.entries.length))) o.change ∧
      CommitFollowed r r' (min q.leaderCommit (q.prevIndex + q.entries.length))
        o.commitAdvanced) := by
  have hacc := sameLog_accept r q.term q.leader
  have ha := h.of_sameLog hacc
  unfold Replica.takeEntries at ht
  split at ht
  · next hlt =>
    simp only [Except.ok.injEq, Prod.mk.injEq] at ht
    exact .inl ⟨hlt, ht.1.symm, ht.2.symm⟩
  · next hge =>
    simp only at ht
    split at ht
    · simp only [Except.ok.injEq, Prod.mk.injEq] at ht
      exact .inr (.inl ⟨Nat.not_lt.1 hge, ht.1.symm, ht.2.symm⟩)
    · next hanch =>
      obtain ⟨lastNew, hadd, ht⟩ := bind_eq_ok.1 ht
      obtain ⟨-, rfl⟩ := Word.add_eq_ok_iff.1 hadd
      have hfits := hw.fits
      have hpre : y.take q.prevIndex <+: x :=
        ha.prefix_of_anchors hm (by rw [hacc.base]; exact hb) (by omega)
          (by simpa [hw.prevTerm] using hanch)
      have hx : adopt x (y.take q.prevIndex) = x := if_pos hpre
      have hnone : Reports x (adopt x (y.take q.prevIndex)) none := hx
      obtain ⟨log, hr, hs, hrep⟩ := Spans.placeAll hm hy q.entries.length (j := q.prevIndex)
        (by rw [hx]; exact ha) hfits (by rw [hacc.base]; exact hb)
        (by rw [hacc.base]; exact h.base) hnone
      rw [← hw.entries] at hr hs hrep
      generalize hp : (r.accept q.term q.leader).placeAll (q.prevIndex + 1) none q.entries = p
        at ht hr hs hrep
      obtain ⟨r₁, change⟩ := p
      simp only at ht hr hs hrep
      refine .inr (.inr ⟨Nat.not_lt.1 hge, ?_⟩)
      obtain ⟨⟨commit, hf⟩, hcommit⟩ :=
        r₁.followCommit_spec q.leaderCommit (q.prevIndex + q.entries.length)
      simp only [pure, Except.pure, Except.ok.injEq, Prod.mk.injEq] at ht
      obtain ⟨rfl, rfl⟩ := ht
      have hr₁ : r₁.commitIndex = r.commitIndex := by rw [hr]; exact hacc.commit
      refine ⟨⟨log, commit, by rw [hf, hr]⟩, hs.congr (by rw [hf]) (by rw [hf]) (by rw [hf]), rfl,
        hrep, ?_⟩
      rwa [CommitFollowed, ← hr₁]

/-! ## Images and compaction -/

/-- **Making room for an image** of a leader's history up to `n` adopts that prefix. -/
theorem Spans.rebase {r r' : Replica} {x y : History} {n : Nat} (h : r.Spans x)
    (hm : Matching x y) (hy : Sane y) (hn : n ≤ y.length) (hlt : r.snapshotIndex < n)
    (hr : r.rebase n (y.termAt n) = .ok r') :
    (∃ log, r' = { r with
      log := log, snapshotIndex := n, snapshotTerm := y.termAt n, commitIndex := n,
      lastApplied := n }) ∧
    r'.Spans (adopt x (y.take n)) := by
  have hlen : (y.take n).length = n := List.length_take_of_le hn
  have hterm : (adopt x (y.take n)).termAt n = y.termAt n := by
    rw [← termAt_of_isPrefix (prefix_adopt x (y.take n)) (by omega),
      termAt_of_isPrefix (List.take_prefix _ _) (by omega)]
  have hbase : n ≤ (adopt x (y.take n)).length := by
    have := (prefix_adopt x (y.take n)).length_le
    omega
  have hsane : Sane (adopt x (y.take n)) := h.sane.adopt (hy.of_isPrefix (List.take_prefix _ _))
  obtain ⟨k, rfl⟩ : ∃ k, n = k + 1 := ⟨n - 1, by omega⟩
  simp only [Replica.rebase] at hr
  split at hr
  · next hheld =>
    rw [h.lastIndex_eq, h.termAt_eq (by omega)] at hheld
    have hpre : y.take (k + 1) <+: x := hm k (by omega) (by omega) hheld.2 ▸ List.take_prefix _ _
    obtain ⟨covered, hsub, hr⟩ := bind_eq_ok.1 hr
    obtain ⟨-, rfl⟩ := Word.sub_eq_ok_iff.1 hsub
    obtain ⟨r₁, hdrop, hr⟩ := bind_eq_ok.1 hr
    simp only [pure, Except.pure, Except.ok.injEq] at hr
    subst hr
    unfold dropFirst at hdrop
    split at hdrop
    · simp only [Except.ok.injEq] at hdrop
      subst hdrop
      refine ⟨⟨_, rfl⟩, hbase, ?_, hterm.symm, hsane⟩
      simp only [adopt, if_pos hpre, h.log, List.drop_drop]
      congr 1
      omega
    · cases hdrop
  · next hheld =>
    simp only [pure, Except.pure, bind, Except.bind, Except.ok.injEq] at hr
    subst hr
    have hnot : ¬ y.take (k + 1) <+: x := by
      intro hpre
      have hle := hpre.length_le
      rw [h.lastIndex_eq, h.termAt_eq (by omega)] at hheld
      exact hheld ⟨by omega, by
        rw [← termAt_of_isPrefix hpre (by omega),
          termAt_of_isPrefix (List.take_prefix _ _) (by omega)]⟩
    refine ⟨⟨_, rfl⟩, hbase, ?_, hterm.symm, hsane⟩
    simp only [adopt, if_neg hnot]
    rw [List.drop_eq_nil_of_le (by omega)]

/-- **Compaction** moves the base up to what is applied and hands out what it removes. -/
theorem Spans.compact {r r' : Replica} {x : History} {removed : List Entry} (h : r.Spans x)
    (hb : r.snapshotIndex ≤ r.lastApplied) (ha : r.lastApplied ≤ x.length)
    (hr : r.compact r.lastApplied = .ok (r', removed)) :
    r'.Spans x ∧ removed = (x.drop r.snapshotIndex).take (r.lastApplied - r.snapshotIndex) ∧
      ∃ log term, r' = { r with
        log := log, snapshotIndex := r.lastApplied, snapshotTerm := term } := by
  have hlast := h.lastIndex_eq
  unfold Replica.compact at hr
  rw [show min (min r.lastApplied r.lastApplied) r.lastIndex = r.lastApplied by omega] at hr
  simp only at hr
  split at hr
  · next hle =>
    simp only [Except.ok.injEq, Prod.mk.injEq] at hr
    obtain ⟨rfl, rfl⟩ := hr
    have heq : r.lastApplied = r.snapshotIndex := by omega
    refine ⟨h, by rw [heq, Nat.sub_self, List.take_zero], r.log, r.snapshotTerm, ?_⟩
    cases r
    cases heq
    rfl
  · next hgt =>
    obtain ⟨r₁, hdrop, hr⟩ := bind_eq_ok.1 hr
    simp only [pure, Except.pure, Except.ok.injEq, Prod.mk.injEq] at hr
    obtain ⟨rfl, rfl⟩ := hr
    unfold dropFirst at hdrop
    split at hdrop
    · simp only [Except.ok.injEq] at hdrop
      subst hdrop
      refine ⟨⟨ha, ?_, h.termAt_eq hb, h.sane⟩, by rw [h.log], _, _, rfl⟩
      simp only [h.log, List.drop_drop]
      congr 1
      omega
    · cases hdrop

/-- The entries that are to be applied are the stretch of the history between what is applied and
what is committed. -/
theorem Spans.takeCommitted {r : Replica} {x : History} (h : r.Spans x)
    (hb : r.snapshotIndex ≤ r.lastApplied) (ha : r.lastApplied ≤ r.commitIndex)
    (hc : r.commitIndex ≤ x.length) :
    r.takeCommitted =
      ({ r with lastApplied := r.commitIndex },
        (x.drop r.lastApplied).take (r.commitIndex - r.lastApplied)) := by
  have key : ∀ n i, r.snapshotIndex ≤ i → i + n ≤ x.length →
      (List.range' (i + 1) n).filterMap r.entryAt? = (x.drop i).take n := by
    intro n
    induction n with
    | zero => simp
    | succ n ih =>
      intro i hi hn
      rw [List.range'_succ, List.filterMap_cons, h.entryAt?_eq (by omega), Nat.add_sub_cancel,
        List.getElem?_eq_getElem (by omega), List.drop_eq_getElem_cons (by omega),
        List.take_succ_cons, ih (i + 1) (by omega) (by omega)]
  rw [Replica.takeCommitted, key _ _ hb (by omega), Nat.max_eq_right ha]

end Replica

end ReplicatedStore
