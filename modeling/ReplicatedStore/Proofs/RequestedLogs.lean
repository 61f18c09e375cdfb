import ReplicatedStore.Proofs.Merging
import ReplicatedStore.Proofs.Sources
/-!
# Logs that take any request

What requests make of a log when nothing is known of who sent them. An entry is placed under the
position at which it is placed, whatever position it carries (`placeAll_renumber`), so the log stays
lined up with its base and its positions stay words (`Sourced.takeAny`). Which entries are new is
told truly (`Reported`), as the disk is written by that.

A log loses an entry only where a request holds another one. So if the request respects what is
committed, that stays (`Sourced.le_placeAll`).
-/
namespace ReplicatedStore

/-- The position of the entry is a word. -/
def Entry.Placeable (e : Entry) : Prop := e.index ≤ maxWord

/-! ## Positions of any kind -/

/-- The entries under consecutive positions. -/
def renumber (i : Nat) : List Entry → List Entry
  | [] => []
  | e :: es => { e with index := i } :: renumber (i + 1) es

theorem length_renumber (i : Nat) (es : List Entry) : (renumber i es).length = es.length := by
  induction es generalizing i with
  | nil => rfl
  | cons e es ih => rw [renumber, List.length_cons, List.length_cons, ih]

theorem getElem?_renumber (i : Nat) (es : List Entry) (k : Nat) :
    (renumber i es)[k]? = es[k]?.map fun e => { e with index := i + k } := by
  induction es generalizing i k with
  | nil => rfl
  | cons e es ih =>
    cases k with
    | zero => rfl
    | succ k =>
      rw [renumber, List.getElem?_cons_succ, ih, List.getElem?_cons_succ,
        show i + 1 + k = i + (k + 1) by omega]

theorem lined_renumber (i : Nat) (es : List Entry) : Lined i (renumber (i + 1) es) := by
  intro k e hk
  rw [getElem?_renumber] at hk
  obtain ⟨e', -, rfl⟩ := Option.map_eq_some_iff.1 hk
  exact Nat.add_right_comm i 1 k

theorem Lined.placeable {i : Nat} {es : List Entry} (h : Lined i es)
    (hfits : i + es.length ≤ maxWord) {e : Entry} (he : e ∈ es) : e.Placeable := by
  obtain ⟨k, hk⟩ := List.getElem?_of_mem he
  have hindex := h k e hk
  have hlt := (List.getElem?_eq_some_iff.1 hk).1
  unfold Entry.Placeable
  omega

namespace Replica

variable {r r' r₁ : Replica} {S : Entry → Prop} {q : AppendRequest} {o : AppendOutcome}

theorem placeAll_renumber (r : Replica) (i : Nat) (change : Option LogChange) (es : List Entry) :
    r.placeAll i change (renumber i es) = r.placeAll i change es := by
  induction es generalizing r i change with
  | nil => rfl
  | cons e es ih =>
    have hplace : r.place i { e with index := i } change = r.place i e change := rfl
    rw [renumber, placeAll, placeAll, hplace]
    exact ih ..

/-! ## Append requests -/

/-- A request is of an old term, or has no anchor, or its entries are placed. -/
theorem takeEntries_cases (h : r.takeEntries q = .ok (r', o)) :
    (q.term < r.term ∧ r' = r ∧ o = ⟨false, false, none, false⟩) ∨
    (r.term ≤ q.term ∧ r' = r.accept q.term q.leader ∧ o = ⟨false, true, none, false⟩) ∨
    (r.term ≤ q.term ∧ (r.accept q.term q.leader).anchors q.prevIndex q.prevTerm = true ∧
      q.prevIndex + q.entries.length ≤ maxWord ∧ ∃ r₁ change advanced,
        (r.accept q.term q.leader).placeAll (q.prevIndex + 1) none q.entries = (r₁, change) ∧
        r₁.followCommit q.leaderCommit (q.prevIndex + q.entries.length) = (r', advanced) ∧
        o = ⟨true, true, change, advanced⟩) := by
  unfold takeEntries at h
  split at h
  · next hold =>
    cases h
    exact .inl ⟨hold, rfl, rfl⟩
  · next hnew =>
    have hge := Nat.not_lt.1 hnew
    simp only at h
    split at h
    · cases h
      exact .inr (.inl ⟨hge, rfl, rfl⟩)
    · next hanchored =>
      obtain ⟨lastNew, hlast, h⟩ := bind_eq_ok.1 h
      obtain ⟨hfits, rfl⟩ := Word.add_eq_ok_iff.1 hlast
      cases h
      exact .inr (.inr ⟨hge, by simpa using hanchored, hfits, _, _, _, rfl, rfl, rfl⟩)

theorem Sourced.numbered (h : r.Sourced S) : r.Numbered := h.lined

/-- A request is anchored inside the log. -/
theorem Sourced.le_of_anchors (h : r.Sourced S) {i term : Nat} (ha : r.anchors i term = true) :
    i ≤ r.lastIndex := by
  have hlast := h.lastIndex_eq
  simp only [anchors, Bool.or_eq_true, Bool.and_eq_true, decide_eq_true_eq] at ha
  omega

theorem exists_place (r : Replica) (i : Nat) (e : Entry) (change : Option LogChange) :
    ∃ log, (r.place i e change).1 = { r with log := log } := by
  unfold place
  split
  · exact ⟨r.log, rfl⟩
  · next hgt =>
    split
    · split
      · exact ⟨r.log, rfl⟩
      · rw [truncate, if_pos (Nat.lt_of_not_le hgt)]
        exact ⟨_, rfl⟩
    · exact ⟨_, rfl⟩

/-- Placing entries changes nothing but the log. -/
theorem exists_placeAll (r : Replica) (i : Nat) (change : Option LogChange) (es : List Entry) :
    ∃ log, (r.placeAll i change es).1 = { r with log := log } := by
  induction es generalizing r i change with
  | nil => exact ⟨r.log, rfl⟩
  | cons e es ih =>
    obtain ⟨log, hplace⟩ := r.exists_place i e change
    obtain ⟨log', hrest⟩ := ih (r.place i e change).1 (i + 1) (r.place i e change).2
    exact ⟨log', by rw [placeAll, hrest, hplace]⟩

/-- **What is reported is true**: a log without a change is as it was, and one to which entries were
added has them after its end. -/
def Reported (r r' : Replica) : Option LogChange → Prop
  | none => r'.log = r.log
  | some (.appended start) => start = r.lastIndex + 1 ∧ r.log <+: r'.log
  | some .rewritten => True

theorem Reported.place (h : Reported r r₁ change) (hr₁ : r₁.Sourced S)
    (hbase : r₁.snapshotIndex = r.snapshotIndex) {i : Nat} (hi : i ≤ r₁.lastIndex + 1) (e : Entry) :
    Reported r (r₁.place i e change).1 (r₁.place i e change).2 := by
  unfold Replica.place
  split
  · exact h
  · next hgt =>
    split
    · split
      · exact h
      · trivial
    · next hnone =>
      have hge : r₁.lastIndex + 1 ≤ i := by
        rw [entryAt?_of_lt (Nat.lt_of_not_le hgt), List.getElem?_eq_none_iff] at hnone
        have hlast := hr₁.lastIndex_eq
        omega
      match change, h with
      | none, h =>
        refine ⟨?_, h ▸ List.prefix_append _ _⟩
        rw [← lastIndex_congr h hbase]
        omega
      | some (.appended start), h => exact ⟨h.1, h.2.trans (List.prefix_append _ _)⟩
      | some .rewritten, _ => trivial

theorem Reported.placeAll {es : List Entry} (h : Reported r r₁ change) (hr₁ : r₁.Sourced S)
    (hbase : r₁.snapshotIndex = r.snapshotIndex) {i : Nat} (hi : i ≤ r₁.lastIndex)
    (hes : Lined i es) (hS : ∀ e ∈ es, S e) :
    Reported r (r₁.placeAll (i + 1) change es).1 (r₁.placeAll (i + 1) change es).2 := by
  induction es generalizing r₁ i change with
  | nil => exact h
  | cons e es ih =>
    obtain ⟨he, hes⟩ := hes.tail
    have hstep := h.place hr₁ hbase (Nat.succ_le_succ hi) e
    obtain ⟨hs, hle⟩ := hr₁.place (Nat.succ_le_succ hi) he (hS e List.mem_cons_self) change
    obtain ⟨log, hlog⟩ := r₁.exists_place (i + 1) e change
    exact ih hstep hs (by rw [hlog]; exact hbase) hle hes
      fun e' he' => hS e' (List.mem_cons_of_mem _ he')

/-! ## What is committed -/

/-- The request does not hold another entry where the log holds a committed one. -/
def Respects (r : Replica) (q : AppendRequest) : Prop :=
  r.term ≤ q.term → ∀ (k : Nat) (e held : Entry), q.entries[k]? = some e →
    q.prevIndex + 1 + k ≤ r.commitIndex → r.entryAt? (q.prevIndex + 1 + k) = some held →
    held.term = e.term

/-- Entries that hold nothing else up to a position leave the log at least that long. -/
theorem Sourced.le_placeAll {es : List Entry} {i c : Nat} (h : r.Sourced S) (hi : i ≤ r.lastIndex)
    (hes : Lined i es) (hS : ∀ e ∈ es, S e) (hc : c ≤ r.lastIndex)
    (hkeeps : ∀ (k : Nat) (e held : Entry), es[k]? = some e → i + 1 + k ≤ c →
      r.entryAt? (i + 1 + k) = some held → held.term = e.term) (change : Option LogChange) :
    c ≤ (r.placeAll (i + 1) change es).1.lastIndex := by
  induction es generalizing r i change with
  | nil => exact hc
  | cons e es ih =>
    obtain ⟨he, hes⟩ := hes.tail
    have hS' : ∀ e' ∈ es, S e' := fun e' he' => hS e' (List.mem_cons_of_mem _ he')
    obtain ⟨hs, hle⟩ := h.place (Nat.succ_le_succ hi) he (hS e List.mem_cons_self) change
    rcases Nat.lt_or_ge c (i + 1) with hlt | hge
    · -- from here on everything comes after the position
      exact ih hs hle hes hS' (by omega) (fun k _ _ _ hk _ => absurd hk (by omega)) _
    · have hsame : (r.place (i + 1) e change).1 = r := by
        unfold Replica.place
        split
        · rfl
        · next hgt =>
          obtain ⟨held, hheld⟩ := h.numbered.exists_entryAt? (i := i + 1) (by omega) (by omega)
          rw [hheld]
          simp only [hkeeps 0 e held rfl hge hheld, if_true]
      show c ≤ ((r.place (i + 1) e change).1.placeAll (i + 1 + 1) _ es).1.lastIndex
      rw [hsame] at hle ⊢
      refine ih h hle hes hS' hc (fun k e' held hk hck hheld => ?_) _
      rw [show i + 1 + 1 + k = i + 1 + (k + 1) by omega] at hck hheld
      exact hkeeps (k + 1) e' held hk hck hheld

/-- The commit index follows a leader's inside the log. -/
theorem followCommit_le (r : Replica) (leaderCommit lastNew : Nat) :
    r.commitIndex ≤ (r.followCommit leaderCommit lastNew).1.commitIndex ∧
      (r.followCommit leaderCommit lastNew).1.commitIndex ≤ max r.commitIndex r.lastIndex := by
  simp only [followCommit]
  split
  · next hmoves =>
    simp only
    omega
  · exact ⟨Nat.le_refl _, Nat.le_max_left _ _⟩

/-! ## Any request -/

/-- What a request of any content leaves: the log is lined up, its positions are words, and the
change is reported. If the request respects what is committed, that does not shrink. -/
structure TakesAny (r r' : Replica) (q : AppendRequest) (o : AppendOutcome) : Prop where
  sourced : r'.Sourced Entry.Placeable
  base : r'.snapshotIndex = r.snapshotIndex
  baseTerm : r'.snapshotTerm = r.snapshotTerm
  applied : r'.lastApplied = r.lastApplied
  reported : Reported r r' o.change
  committed : r.commitIndex ≤ r.lastIndex → r.Respects q →
    r.commitIndex ≤ r'.commitIndex ∧ r'.commitIndex ≤ r'.lastIndex

theorem TakesAny.of_sameLog (h : r.Sourced Entry.Placeable) (hs : SameLog r r')
    (ho : o.change = none) : TakesAny r r' q o where
  sourced := h.of_sameLog hs
  base := hs.base
  baseTerm := hs.baseTerm
  applied := hs.applied
  reported := by rw [ho]; exact hs.log
  committed hc _ := by
    rw [hs.commit, hs.lastIndex_eq]
    exact ⟨Nat.le_refl _, hc⟩

/-- **Any request.** -/
theorem Sourced.takeAny (h : r.Sourced Entry.Placeable) (run : r.takeEntries q = .ok (r', o)) :
    TakesAny r r' q o := by
  have hs := sameLog_accept r q.term q.leader
  rcases takeEntries_cases run with ⟨-, rfl, rfl⟩ | ⟨-, rfl, rfl⟩ |
    ⟨hterm, hanchored, hfits, r₁, change, advanced, hplaced, hfollowed, rfl⟩
  · exact .of_sameLog h (.refl _) rfl
  · exact .of_sameLog h hs rfl
  · -- the entries are placed under positions of their own
    have hlined := lined_renumber q.prevIndex q.entries
    have hplaceable : ∀ e ∈ renumber (q.prevIndex + 1) q.entries, e.Placeable :=
      fun e he => hlined.placeable (by rwa [length_renumber]) he
    rw [← placeAll_renumber] at hplaced
    have ha := h.of_sameLog hs
    have hi := ha.le_of_anchors hanchored
    have hall := ha.placeAll hi hlined hplaceable none
    have hreported := (show Reported r (r.accept q.term q.leader) none from hs.log).placeAll ha
      hs.base hi hlined hplaceable
    obtain ⟨log, hlog⟩ := (r.accept q.term q.leader).exists_placeAll (q.prevIndex + 1) none
      (renumber (q.prevIndex + 1) q.entries)
    have hcommit : r₁.commitIndex = r.commitIndex := by
      rw [hplaced] at hlog
      exact (congrArg commitIndex hlog).trans hs.commit
    obtain ⟨⟨commit, hfollow⟩, -⟩ := followCommit_spec r₁ q.leaderCommit
      (q.prevIndex + q.entries.length)
    have hmoved := followCommit_le r₁ q.leaderCommit (q.prevIndex + q.entries.length)
    rw [hfollowed] at hfollow hmoved
    obtain rfl : r' = { r₁ with commitIndex := commit } := hfollow
    rw [hplaced] at hall hreported hlog
    obtain rfl : r₁ = { r.accept q.term q.leader with log := log } := hlog
    refine ⟨hall.congr rfl rfl, hs.base, hs.baseTerm, hs.applied, hreported, fun hc hrespects => ?_⟩
    -- what is committed is as long as before, and the rest of the log was moved along
    have hkept :
        r.commitIndex ≤ Replica.lastIndex { r.accept q.term q.leader with log := log } := by
      have hle := ha.le_placeAll (c := r.commitIndex) hi hlined hplaceable
        (by rw [hs.lastIndex_eq]; exact hc) (fun k e held hk hle hheld => ?_) none
      · rwa [hplaced] at hle
      · rw [getElem?_renumber] at hk
        obtain ⟨e', hk', rfl⟩ := Option.map_eq_some_iff.1 hk
        rw [hs.entryAt?_eq] at hheld
        exact hrespects hterm k e' held hk' hle hheld
    refine ⟨hcommit ▸ hmoved.1, Nat.le_trans hmoved.2 ?_⟩
    rw [hcommit]
    exact Nat.max_le.2 ⟨hkept, Nat.le_refl _⟩

/-- The entries after an old end of the log are those that were added to it. -/
theorem Sourced.entriesFrom_eq (h : r.Sourced S) (hbase : r'.snapshotIndex = r.snapshotIndex)
    {es es' : List Entry} (hlog : r'.log = r.log ++ es)
    (run : r'.entriesFrom (r.lastIndex + 1) = .ok es') : es' = es := by
  have hlast := h.lastIndex_eq
  obtain ⟨-, rfl⟩ := entriesFrom_eq_ok_iff.1 run
  rw [hlog, hbase, show r.lastIndex + 1 - r.snapshotIndex - 1 = r.log.length by omega,
    List.drop_left]

/-! ## Other changes of a log -/

/-- A proposal goes to the end of the log. -/
theorem Sourced.propose (h : r.Sourced Entry.Placeable) {command : Command} {e : Entry}
    (run : r.propose command = .ok (some (r', e))) :
    r'.Sourced Entry.Placeable ∧ r.role = .leader ∧ e.index = r.lastIndex + 1 ∧
      e.term = r.term ∧ r' = { r with log := r.log ++ [e] } := by
  obtain ⟨-, hnone⟩ | ⟨hrole, hfits, hsome⟩ := propose_cases run
  · cases hnone
  · cases hsome
    exact ⟨h.concat rfl hfits, hrole, rfl, rfl, rfl⟩

/-- Making room for an image: the base is where the image ends, and what is kept comes after it. -/
theorem exists_rebase {lastIndex lastTerm : Nat} (run : r.rebase lastIndex lastTerm = .ok r') :
    ∃ log, r' = { r with
      log := log, snapshotIndex := lastIndex, snapshotTerm := lastTerm, commitIndex := lastIndex,
      lastApplied := lastIndex } := by
  unfold Replica.rebase at run
  simp only at run
  split at run
  · obtain ⟨n, -, run⟩ := bind_eq_ok.1 run
    obtain ⟨r₁, hr₁, run⟩ := bind_eq_ok.1 run
    cases run
    unfold dropFirst at hr₁
    split at hr₁ <;> cases hr₁
    exact ⟨_, rfl⟩
  · cases run
    exact ⟨_, rfl⟩

/-- There is nothing to compact, or a number of entries goes, and the base moves up by as many. -/
theorem Sourced.compact_cases (h : r.Sourced S) {through : Nat} {removed : List Entry}
    (run : r.compact through = .ok (r', removed)) :
    (removed = [] ∧ r' = r) ∨ (removed ≠ [] ∧ ∃ n, 0 < n ∧ n ≤ r.log.length ∧
      r.snapshotIndex + n ≤ r.lastApplied ∧ r' = { r with
        log := r.log.drop n, snapshotIndex := r.snapshotIndex + n
        snapshotTerm := r.termAt (r.snapshotIndex + n) }) := by
  have hlast := h.lastIndex_eq
  unfold Replica.compact at run
  simp only at run
  split at run
  · cases run
    exact .inl ⟨rfl, rfl⟩
  · next hbase =>
    obtain ⟨r₁, hr₁, run⟩ := bind_eq_ok.1 run
    cases run
    unfold dropFirst at hr₁
    split at hr₁ <;> cases hr₁
    next hlen =>
      have hsum : r.snapshotIndex + (min (min through r.lastApplied) r.lastIndex -
          r.snapshotIndex) = min (min through r.lastApplied) r.lastIndex := by omega
      refine .inr ⟨?_, _, by omega, hlen, by omega, by rw [hsum]⟩
      rw [ne_eq, List.take_eq_nil_iff, ← List.length_eq_zero_iff]
      omega

end Replica

end ReplicatedStore
