import ReplicatedStore.Proofs.Histories
import ReplicatedStore.Proofs.ReplicaLogs
import ReplicatedStore.Proofs.SteadySections
/-!
# Merging a leader's log

What a member's log becomes when a leader's entries are placed in it, as it follows from the terms
alone: nothing is asked of what either has compacted, and nothing of where the entries came from.

`Replica.Merges l f j` says that the log of `f` is that of `l` up to `j` wherever both hold an
entry. A window that is anchored starts from there (`Merges.of_anchors`), and placing the next
entry moves `j` by one: an entry that is there already changes nothing, any other takes the place
of all that comes after (`Merges.place_cases`). So a window that runs to the leader's end leaves
the log alone if it merges already, and else makes it end where the leader's ends
(`takeEntries_taken`).
-/
namespace ReplicatedStore

namespace Replica

/-! ## Two logs -/

/-- Every entry of the log carries its position. -/
def Numbered (r : Replica) : Prop :=
  ∀ (k : Nat) (e : Entry), r.log[k]? = some e → e.index = r.snapshotIndex + k + 1

/-- Where both logs hold an entry of one term, they hold the same entry, and the same entries
below it as far as both still hold them. -/
def Matches (l f : Replica) : Prop :=
  ∀ i e e', l.entryAt? i = some e → f.entryAt? i = some e' → e.term = e'.term → e = e' ∧
    ∀ j g g', j < i → l.entryAt? j = some g → f.entryAt? j = some g' → g = g'

/-- The logs agree up to a position, as far as neither has compacted it. -/
def AgreesTo (l f : Replica) (n : Nat) : Prop :=
  ∀ i, i ≤ n → l.snapshotIndex < i → f.snapshotIndex < i → f.entryAt? i = l.entryAt? i

variable {l f r : Replica}

theorem Matches.mono {l' f' : Replica} (h : l.Matches f)
    (hl : ∀ i e, l'.entryAt? i = some e → l.entryAt? i = some e)
    (hf : ∀ i e, f'.entryAt? i = some e → f.entryAt? i = some e) : l'.Matches f' := by
  intro i e e' he he' hterm
  obtain ⟨heq, hbelow⟩ := h i e e' (hl i e he) (hf i e' he') hterm
  exact ⟨heq, fun j g g' hj hg hg' => hbelow j g g' hj (hl j g hg) (hf j g' hg')⟩

theorem entryAt?_of_lt {i : Nat} (h : r.snapshotIndex < i) :
    r.entryAt? i = r.log[i - r.snapshotIndex - 1]? := if_neg (Nat.not_le.2 h)

theorem lt_of_entryAt? {i : Nat} {e : Entry} (h : r.entryAt? i = some e) : r.snapshotIndex < i := by
  refine Nat.lt_of_not_le fun hle => ?_
  rw [entryAt?, if_pos hle] at h
  cases h

theorem termAt_of_entryAt? {i : Nat} {e : Entry} (h : r.entryAt? i = some e) :
    r.termAt i = e.term := by
  have hlt := lt_of_entryAt? h
  rw [termAt, if_neg (by omega), if_neg (by omega), h]
  rfl

theorem termAt_base (h : 0 < r.snapshotIndex) : r.termAt r.snapshotIndex = r.snapshotTerm := by
  rw [termAt, if_neg (by omega), if_pos rfl]

/-- Only the log and its base say what is held. -/
theorem entryAt?_congr {r' : Replica} (hlog : r'.log = r.log)
    (hbase : r'.snapshotIndex = r.snapshotIndex) (i : Nat) : r'.entryAt? i = r.entryAt? i := by
  rw [entryAt?, entryAt?, hlog, hbase]

/-- A log that was compacted holds what it did after its base. -/
theorem entryAt?_drop {r' : Replica} {n i : Nat} (hlog : r'.log = r.log.drop n)
    (hbase : r'.snapshotIndex = r.snapshotIndex + n) (hi : r'.snapshotIndex < i) :
    r'.entryAt? i = r.entryAt? i := by
  rw [entryAt?_of_lt hi, entryAt?_of_lt (by omega), hlog, hbase, List.getElem?_drop]
  congr 1
  omega

theorem lastIndex_congr {r' : Replica} (hlog : r'.log = r.log)
    (hbase : r'.snapshotIndex = r.snapshotIndex) : r'.lastIndex = r.lastIndex := by
  rw [lastIndex, lastIndex, hlog, hbase]

theorem lastIndex_concat (r : Replica) (e : Entry) :
    Replica.lastIndex { r with log := r.log ++ [e] } = e.index := by
  simp [lastIndex]

theorem SameLog.entryAt?_eq {r' : Replica} (h : SameLog r r') (i : Nat) :
    r'.entryAt? i = r.entryAt? i := entryAt?_congr h.log h.base i

theorem SameLog.lastIndex_eq {r' : Replica} (h : SameLog r r') : r'.lastIndex = r.lastIndex :=
  lastIndex_congr h.log h.base

theorem SameLog.termAt_eq {r' : Replica} (h : SameLog r r') (i : Nat) :
    r'.termAt i = r.termAt i := by rw [termAt, termAt, h.base, h.baseTerm, h.entryAt?_eq]

namespace Numbered

theorem lastIndex_eq (h : r.Numbered) : r.lastIndex = r.snapshotIndex + r.log.length := by
  rw [lastIndex, List.getLast?_eq_getElem?]
  rcases Nat.eq_zero_or_pos r.log.length with h0 | hpos
  · simp [List.length_eq_zero_iff.1 h0]
  · have hget : r.log[r.log.length - 1]? = some r.log[r.log.length - 1] :=
      List.getElem?_eq_getElem (by omega)
    have hindex := h _ _ hget
    rw [hget, Option.map_some, Option.getD_some, hindex]
    omega

/-- Between its base and its end the log holds every position. -/
theorem exists_entryAt? (h : r.Numbered) {i : Nat} (hlt : r.snapshotIndex < i)
    (hle : i ≤ r.lastIndex) : ∃ e, r.entryAt? i = some e := by
  rw [h.lastIndex_eq] at hle
  rw [entryAt?_of_lt hlt]
  exact ⟨_, List.getElem?_eq_getElem (by omega)⟩

theorem index_entryAt? (h : r.Numbered) {i : Nat} {e : Entry} (he : r.entryAt? i = some e) :
    e.index = i := by
  have hlt := lt_of_entryAt? he
  rw [entryAt?_of_lt hlt] at he
  have hindex := h _ _ he
  omega

theorem le_lastIndex (h : r.Numbered) {i : Nat} {e : Entry} (he : r.entryAt? i = some e) :
    i ≤ r.lastIndex := by
  have hlt := lt_of_entryAt? he
  rw [entryAt?_of_lt hlt] at he
  have hlen := (List.getElem?_eq_some_iff.1 he).1
  rw [h.lastIndex_eq]
  omega

theorem of_sameLog {r' : Replica} (h : r.Numbered) (hs : SameLog r r') : r'.Numbered := by
  intro k e he
  rw [hs.base]
  exact h k e (hs.log ▸ he)

end Numbered

/-- The log up to a position, and an entry after it. -/
def endWith (r : Replica) (j : Nat) (e : Entry) : Replica :=
  { r with log := r.log.take (j - r.snapshotIndex) ++ [e] }

section EndWith

variable {i j : Nat} {e : Entry}

/-- Below the entry the log is what it was. -/
theorem entryAt?_endWith_of_le (hj : j ≤ r.snapshotIndex + r.log.length) (hi : i ≤ j) :
    (r.endWith j e).entryAt? i = r.entryAt? i := by
  have hlen : (r.log.take (j - r.snapshotIndex)).length = j - r.snapshotIndex :=
    List.length_take_of_le (by omega)
  unfold entryAt? endWith
  split
  · rfl
  · next hlt =>
    simp only at hlt ⊢
    rw [List.getElem?_append_left (by omega), List.getElem?_take_of_lt (by omega)]

theorem entryAt?_endWith_self (hbase : r.snapshotIndex ≤ j)
    (hj : j ≤ r.snapshotIndex + r.log.length) : (r.endWith j e).entryAt? (j + 1) = some e := by
  have hlen : (r.log.take (j - r.snapshotIndex)).length = j - r.snapshotIndex :=
    List.length_take_of_le (by omega)
  have hlt : (r.endWith j e).snapshotIndex < j + 1 := Nat.lt_succ_of_le hbase
  rw [entryAt?_of_lt hlt]
  simp only [endWith]
  rw [List.getElem?_append_right (by omega), hlen,
    show j + 1 - r.snapshotIndex - 1 - (j - r.snapshotIndex) = 0 by omega]
  rfl

theorem Numbered.endWith (h : r.Numbered) (hbase : r.snapshotIndex ≤ j)
    (hj : j ≤ r.snapshotIndex + r.log.length) (he : e.index = j + 1) :
    (r.endWith j e).Numbered := by
  have hlen : (r.log.take (j - r.snapshotIndex)).length = j - r.snapshotIndex :=
    List.length_take_of_le (by omega)
  intro k e' hk
  rcases History.getElem?_concat hk with hk | ⟨rfl, rfl⟩
  · rw [List.getElem?_take] at hk
    split at hk
    · exact h k e' hk
    · cases hk
  · simp only [Replica.endWith, hlen]
    omega

theorem Numbered.lastIndex_endWith (h : r.Numbered) (hbase : r.snapshotIndex ≤ j)
    (hj : j ≤ r.snapshotIndex + r.log.length) (he : e.index = j + 1) :
    (r.endWith j e).lastIndex = j + 1 := by
  rw [(h.endWith hbase hj he).lastIndex_eq]
  simp only [Replica.endWith, List.length_append, List.length_take, List.length_singleton]
  omega

end EndWith

/-! ## Placing a leader's entries -/

/-- The follower's log is the leader's up to a position, wherever both hold an entry, and reaches
that position. -/
structure Merges (l f : Replica) (j : Nat) : Prop where
  numbered : f.Numbered
  matching : l.Matches f
  agrees : l.AgreesTo f j
  reach : j ≤ f.lastIndex

theorem Merges.mono {i j : Nat} (h : Merges l f j) (hij : i ≤ j) : Merges l f i :=
  ⟨h.numbered, h.matching, fun k hk => h.agrees k (Nat.le_trans hk hij),
    Nat.le_trans hij h.reach⟩

/-- Only the log and its base count. -/
theorem Merges.congr {f' : Replica} {j : Nat} (h : Merges l f j) (hlog : f'.log = f.log)
    (hbase : f'.snapshotIndex = f.snapshotIndex) : Merges l f' j := by
  have hentry := entryAt?_congr hlog hbase
  refine ⟨fun k e he => ?_, h.matching.mono (fun _ _ he => he) fun i e he => ?_,
    fun i hi hli hfi => ?_, ?_⟩
  · rw [hbase]
    exact h.numbered k e (hlog ▸ he)
  · rw [← he, hentry]
  · rw [hentry]
    exact h.agrees i hi hli (hbase ▸ hfi)
  · rw [lastIndex_congr hlog hbase]
    exact h.reach

/-- What placing a leader's entries up to a position makes of a log: nothing if it merges them
already; if not, the log ends there. -/
def Placed (l f f' : Replica) (j : Nat) : Prop :=
  f' = f ∧ Merges l f j ∨
    ¬ Merges l f j ∧ (∃ log, f' = { f with log := log }) ∧ Merges l f' j ∧ f'.lastIndex = j

namespace Placed

variable {f' f'' : Replica} {i j : Nat}

theorem merges (h : Placed l f f' j) : Merges l f' j := by
  rcases h with ⟨rfl, h⟩ | ⟨-, -, h, -⟩ <;> exact h

theorem log (h : Placed l f f' j) : ∃ log, f' = { f with log := log } := by
  rcases h with ⟨rfl, -⟩ | ⟨-, h, -, -⟩
  · exact ⟨_, rfl⟩
  · exact h

theorem trans (h : Placed l f f' i) (h' : Placed l f' f'' j) (hij : i ≤ j) : Placed l f f'' j := by
  rcases h with ⟨rfl, -⟩ | ⟨hnot, ⟨log, rfl⟩, hf', hend⟩
  · exact h'
  · refine .inr ⟨fun hall => hnot (hall.mono hij), ?_, h'.merges, ?_⟩
    · obtain ⟨log', rfl⟩ := h'.log
      exact ⟨log', rfl⟩
    · rcases h' with ⟨rfl, hall⟩ | ⟨-, -, -, hend'⟩
      · have hreach := hall.reach
        omega
      · exact hend'

end Placed

namespace Merges

/-- An anchor makes the logs agree up to it. -/
theorem of_anchors (hl : l.Numbered) (hf : f.Numbered) (hm : l.Matches f) {i : Nat}
    (hi : i ≤ l.lastIndex) (ha : f.anchors i (l.termAt i) = true) : Merges l f i := by
  have hlast := hf.lastIndex_eq
  simp only [anchors, Bool.or_eq_true, Bool.and_eq_true, decide_eq_true_eq] at ha
  rcases Nat.lt_or_ge f.snapshotIndex i with hlt | hle
  · obtain ⟨hreach, hterm⟩ := ha.resolve_left (Nat.not_le.2 hlt)
    refine ⟨hf, hm, fun j hj hlj hfj => ?_, hreach⟩
    obtain ⟨e, he⟩ := hl.exists_entryAt? (i := i) (by omega) hi
    obtain ⟨e', he'⟩ := hf.exists_entryAt? hlt hreach
    rw [termAt_of_entryAt? he, termAt_of_entryAt? he'] at hterm
    obtain ⟨rfl, hbelow⟩ := hm i e e' he he' hterm.symm
    rcases Nat.lt_or_eq_of_le hj with hji | rfl
    · obtain ⟨g, hg⟩ := hl.exists_entryAt? (i := j) hlj (by omega)
      obtain ⟨g', hg'⟩ := hf.exists_entryAt? (i := j) hfj (by omega)
      rw [hg, hg', hbelow j g g' hji hg hg']
    · rw [he, he']
  · exact ⟨hf, hm, fun j hj _ hfj => absurd hfj (by omega), by omega⟩

/-- The leader's next entry in the place of all that came after. -/
theorem endWith {j : Nat} {e : Entry} (h : Merges l f j) (hl : l.Numbered)
    (he : l.entryAt? (j + 1) = some e) (hbase : f.snapshotIndex ≤ j) :
    Merges l (f.endWith j e) (j + 1) ∧ (f.endWith j e).lastIndex = j + 1 := by
  have hj : j ≤ f.snapshotIndex + f.log.length := h.numbered.lastIndex_eq ▸ h.reach
  have hindex := hl.index_entryAt? he
  have hnumbered := h.numbered.endWith hbase hj hindex
  have hlast := h.numbered.lastIndex_endWith hbase hj hindex
  have hagrees : l.AgreesTo (f.endWith j e) (j + 1) := by
    intro i hi hli hfi
    rcases Nat.lt_or_eq_of_le hi with hlt | rfl
    · rw [entryAt?_endWith_of_le hj (by omega)]
      exact h.agrees i (by omega) hli hfi
    · rw [entryAt?_endWith_self hbase hj, he]
  refine ⟨⟨hnumbered, ?_, hagrees, Nat.le_of_eq hlast.symm⟩, hlast⟩
  -- a position that both hold is at most `j + 1`, where the logs agree
  have hsame : ∀ i g g', l.entryAt? i = some g → (f.endWith j e).entryAt? i = some g' →
      g = g' := by
    intro i g g' hg hg'
    have hi := hnumbered.le_lastIndex hg'
    rw [hlast] at hi
    have := hagrees i hi (lt_of_entryAt? hg) (lt_of_entryAt? hg')
    rw [hg, hg'] at this
    exact (Option.some.inj this).symm
  exact fun i g g' hg hg' _ => ⟨hsame i g g' hg hg', fun k a a' _ ha ha' => hsame k a a' ha ha'⟩

/-- **One step.** Placing the leader's next entry changes nothing if the log merges it already; if
not, the log ends with it. -/
theorem place_cases {j : Nat} {e : Entry} (h : Merges l f j) (hl : l.Numbered)
    (he : l.entryAt? (j + 1) = some e) (change : Option LogChange) :
    Placed l f (f.place (j + 1) e change).1 (j + 1) := by
  have hlast := h.numbered.lastIndex_eq
  have hreach := h.reach
  have hset : ({ e with index := j + 1 } : Entry) = e := by
    have hindex := hl.index_entryAt? he
    rw [← hindex]
  unfold Replica.place
  split
  · next hcovered =>
    -- the follower's image covers the position
    exact .inl ⟨rfl, h.numbered, h.matching, fun i hi _ hfi => absurd hfi (by omega), by omega⟩
  · next hbase =>
    obtain ⟨hput, hend⟩ := h.endWith hl he (by omega)
    unfold Replica.endWith at hput hend
    split
    · next held hheld =>
      split
      · next hterm =>
        -- the entry was there already
        obtain ⟨rfl, -⟩ := h.matching _ e held he hheld hterm.symm
        refine .inl ⟨rfl, h.numbered, h.matching, fun i hi hli hfi => ?_,
          h.numbered.le_lastIndex hheld⟩
        rcases Nat.lt_or_eq_of_le hi with hlt | rfl
        · exact h.agrees i (by omega) hli hfi
        · rw [hheld, he]
      · next hterm =>
        -- another entry stands there, and the rest of the log goes
        simp only [truncate, if_pos (Nat.lt_of_not_le hbase), hset]
        rw [show j + 1 - f.snapshotIndex - 1 = j - f.snapshotIndex by omega]
        refine .inr ⟨fun hmerges => hterm ?_, ⟨_, rfl⟩, hput, hend⟩
        have hsame := hmerges.agrees (j + 1) (Nat.le_refl _) (lt_of_entryAt? he) (by omega)
        rw [hheld, he] at hsame
        rw [Option.some.inj hsame]
    · next hnone =>
      -- the log ends here
      refine .inr ⟨fun hmerges => ?_, ?_⟩
      · obtain ⟨e', he'⟩ := hmerges.numbered.exists_entryAt? (by omega) hmerges.reach
        cases he'.symm.trans hnone
      · rw [entryAt?_of_lt (by omega), List.getElem?_eq_none_iff] at hnone
        rw [List.take_of_length_le (by omega)] at hput hend
        simp only [hset]
        exact ⟨⟨_, rfl⟩, hput, hend⟩

/-- **The whole window.** -/
theorem placeAll_cases (hl : l.Numbered) (es : List Entry) {f : Replica} {j : Nat}
    (h : Merges l f j) (hes : ∀ k e, es[k]? = some e → l.entryAt? (j + 1 + k) = some e)
    (change : Option LogChange) :
    Placed l f (f.placeAll (j + 1) change es).1 (j + es.length) := by
  induction es generalizing f j change with
  | nil => exact .inl ⟨rfl, h⟩
  | cons e es ih =>
    have hstep := h.place_cases hl (hes 0 e rfl) change
    have hrun := ih hstep.merges (fun k e' hk => by
      rw [show j + 1 + 1 + k = j + 1 + (k + 1) by omega]
      exact hes (k + 1) e' hk) (f.place (j + 1) e change).2
    rw [Replica.placeAll, List.length_cons, show j + (es.length + 1) = j + 1 + es.length by omega]
    exact hstep.trans hrun (Nat.le_add_right _ _)

end Merges

/-! ## Append requests -/

/-- The request carries the leader's entries after a position, to the end of its log. -/
structure Carries (q : AppendRequest) (l : Replica) : Prop where
  prevTerm : q.prevTerm = l.termAt q.prevIndex
  entries : ∀ k e, q.entries[k]? = some e → l.entryAt? (q.prevIndex + 1 + k) = some e
  ends : q.prevIndex + q.entries.length = l.lastIndex

/-- What a member is once it has taken such a request. -/
structure Taken (l f f' : Replica) (q : AppendRequest) : Prop where
  term : f'.term = q.term
  base : f'.snapshotIndex = f.snapshotIndex
  baseTerm : f'.snapshotTerm = f.snapshotTerm
  applied : f'.lastApplied = f.lastApplied
  commit : f'.commitIndex = max f.commitIndex (min q.leaderCommit l.lastIndex)
  merges : Merges l f' l.lastIndex
  log : f'.log = f.log ∧ Merges l f l.lastIndex ∨
    ¬ Merges l f l.lastIndex ∧ f'.lastIndex = l.lastIndex

theorem followCommit_eq {leaderCommit lastNew : Nat} (h : lastNew ≤ r.lastIndex) :
    (r.followCommit leaderCommit lastNew).1 =
      { r with commitIndex := max r.commitIndex (min leaderCommit lastNew) } := by
  simp only [followCommit, show min (min leaderCommit lastNew) r.lastIndex =
    min leaderCommit lastNew by omega]
  split
  · next hmoves => rw [show max r.commitIndex (min leaderCommit lastNew) =
      min leaderCommit lastNew by omega]
  · next hstays => rw [show max r.commitIndex (min leaderCommit lastNew) = r.commitIndex by omega]

theorem SameLog.anchors_eq {r' : Replica} (h : SameLog r r') (i t : Nat) :
    r'.anchors i t = r.anchors i t := by
  rw [anchors, anchors, h.base, h.lastIndex_eq, h.termAt_eq]

/-- A request without an anchor is refused. -/
theorem takeEntries_refused {q : AppendRequest} (ht : f.term ≤ q.term)
    (ha : f.anchors q.prevIndex q.prevTerm = false) :
    f.takeEntries q = .ok (f.accept q.term q.leader, ⟨false, true, none, false⟩) := by
  rw [takeEntries]
  simp only [if_neg (Nat.not_lt.2 ht), (sameLog_accept f q.term q.leader).anchors_eq, ha,
    Bool.not_false, if_true]

/-- **A request with an anchor is taken**, and the logs agree to the leader's end. -/
theorem takeEntries_taken {q : AppendRequest} (hl : l.Numbered) (hroom : l.lastIndex ≤ maxWord)
    (hf : f.Numbered) (hm : l.Matches f) (ht : f.term ≤ q.term) (hq : Carries q l)
    (ha : f.anchors q.prevIndex q.prevTerm = true) :
    ∃ f' o, f.takeEntries q = .ok (f', o) ∧ o.success = true ∧ Taken l f f' q := by
  have hs := sameLog_accept f q.term q.leader
  have hstart : Merges l (f.accept q.term q.leader) q.prevIndex :=
    (Merges.of_anchors hl hf hm (by have := hq.ends; omega) (hq.prevTerm ▸ ha)).congr hs.log hs.base
  have hplaced := hstart.placeAll_cases hl q.entries hq.entries none
  rw [hq.ends] at hplaced
  generalize hp : (f.accept q.term q.leader).placeAll (q.prevIndex + 1) none q.entries = p
    at hplaced
  obtain ⟨f₁, change⟩ := p
  obtain ⟨log, hf₁⟩ := hplaced.log
  have hmerges := hplaced.merges
  refine ⟨{ f₁ with commitIndex := max f₁.commitIndex (min q.leaderCommit l.lastIndex) },
    ⟨true, true, change, (f₁.followCommit q.leaderCommit l.lastIndex).2⟩, ?_, rfl, ?_⟩
  · rw [takeEntries]
    simp only [if_neg (Nat.not_lt.2 ht), hs.anchors_eq, ha, Bool.not_true, Bool.false_eq_true,
      if_false, hp]
    refine bind_eq_ok.2 ⟨l.lastIndex, Word.add_eq_ok_iff.2 ⟨by rw [hq.ends]; exact hroom, hq.ends⟩,
      ?_⟩
    rw [← followCommit_eq hmerges.reach]
    rfl
  · simp only at hf₁ hmerges
    have hterm := (accept_spec ht q.leader).2
    refine ⟨by rw [hf₁]; exact hterm, by rw [hf₁]; exact hs.base,
      by rw [hf₁]; exact hs.baseTerm, by rw [hf₁]; exact hs.applied,
      by rw [hf₁]; simp only [hs.commit], hmerges.congr rfl rfl, ?_⟩
    rcases hplaced with ⟨hsame, hall⟩ | ⟨hnot, -, -, hend⟩
    · simp only at hsame
      exact .inl ⟨by rw [hsame]; exact hs.log, hall.congr hs.log.symm hs.base.symm⟩
    · exact .inr ⟨fun hall => hnot (hall.congr hs.log hs.base), hend⟩

/-! ## Images -/

/-- A log that has made room for an image up to a position: it keeps what comes after if it agrees
there, and nothing otherwise. -/
structure Rebased (f f' : Replica) (n term : Nat) : Prop where
  shape : ∃ log, f' = { f with
    log := log, snapshotIndex := n, snapshotTerm := term, commitIndex := n, lastApplied := n }
  numbered : f'.Numbered
  held : ∀ i e, f'.entryAt? i = some e → f.entryAt? i = some e
  kept : n ≤ f.lastIndex → f.termAt n = term →
    f'.lastIndex = f.lastIndex ∧ ∀ i, n < i → f'.entryAt? i = f.entryAt? i
  dropped : ¬ (n ≤ f.lastIndex ∧ f.termAt n = term) → f'.lastIndex = n

theorem exists_rebased (hf : f.Numbered) {n : Nat} (hbase : f.snapshotIndex ≤ n) (term : Nat) :
    ∃ f', f.rebase n term = .ok f' ∧ Rebased f f' n term := by
  have hlast := hf.lastIndex_eq
  by_cases hagrees : n ≤ f.lastIndex ∧ f.termAt n = term
  · have hfits : n - f.snapshotIndex ≤ f.log.length := by omega
    have hentry : ∀ i, n < i → Replica.entryAt? { f with
        log := f.log.drop (n - f.snapshotIndex), snapshotIndex := n, snapshotTerm := term,
        commitIndex := n, lastApplied := n } i = f.entryAt? i := by
      intro i hi
      rw [entryAt?_of_lt (show f.snapshotIndex < i by omega)]
      refine (entryAt?_of_lt hi).trans ?_
      simp only [List.getElem?_drop]
      congr 1
      omega
    have hnumbered : Numbered { f with
        log := f.log.drop (n - f.snapshotIndex), snapshotIndex := n, snapshotTerm := term,
        commitIndex := n, lastApplied := n } := by
      intro k e he
      simp only [List.getElem?_drop] at he
      have hindex := hf _ e he
      simp only
      omega
    refine ⟨_, ?_, ⟨_, rfl⟩, hnumbered, fun i e he => ?_, fun _ _ => ⟨?_, hentry⟩,
      fun hnot => absurd hagrees hnot⟩
    · rw [rebase, if_pos hagrees]
      exact bind_eq_ok.2 ⟨_, Word.sub_eq_ok_iff.2 ⟨hbase, rfl⟩, bind_eq_ok.2
        ⟨{ f with log := f.log.drop (n - f.snapshotIndex) }, if_pos hfits, rfl⟩⟩
    · rwa [hentry i (lt_of_entryAt? he)] at he
    · rw [hnumbered.lastIndex_eq]
      simp only [List.length_drop]
      omega
  · refine ⟨_, by rw [rebase, if_neg hagrees]; rfl, ⟨_, rfl⟩, fun k e he => by simp at he,
      fun i e he => ?_, fun hle hterm => absurd ⟨hle, hterm⟩ hagrees, fun _ => rfl⟩
    rw [entryAt?_of_lt (lt_of_entryAt? he)] at he
    simp at he

end Replica

end ReplicatedStore
