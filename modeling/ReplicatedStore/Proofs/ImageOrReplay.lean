import ReplicatedStore.Proofs.AppliedBatches
import ReplicatedStore.Proofs.HaleMembers
import ReplicatedStore.Proofs.Recovering
/-!
# An image or the entries it stands for

A member that lags behind is sent the leader's history from the first entry on, or an image of a
part of it and the entries after that part. The two requests are handled by different code: entries
are compared term by term and executed one by one, an image is compared at its end only, and takes
the place of the machine.

Both leave the same member behind, above where it has compacted its log (`image_or_replay`). For the
machine this is `Image.restore_fold`. For the log it is that both end where the member's log ends if
it merges the whole history, and where the history ends if not (`Replica.Took.log`); the image
leaves that question as it was (`Replica.Rebased.merges_iff`).

Where the log starts is another matter. A member that has executed entries compacts a log that has
grown to the threshold (`Member.Hale.exists_applyCommitted`). The history from the first entry on
makes a longer log than the entries after the image, so it is compacted first, and then less of it
is left than the image would have spared (`replayed_log_cut`).
-/
namespace ReplicatedStore

open History

/-- A log that holds what a history has above a position. -/
def History.above (h : History) (n : Nat) : Replica :=
  { Replica.create 0 [] {} with
    log := h.drop n, snapshotIndex := n, snapshotTerm := h.termAt n }

/-- Entries carry their own position. -/
def History.Indexed (h : History) : Prop :=
  ∀ (k : Nat) (e : Entry), h[k]? = some e → e.index = k + 1

namespace History

variable {h : History} {n i : Nat}

theorem entryAt?_above (hlt : n < i) : (h.above n).entryAt? i = h[i - 1]? := by
  refine (Replica.entryAt?_of_lt (r := h.above n) hlt).trans ?_
  simp only [above, List.getElem?_drop]
  congr 1
  omega

theorem termAt_above (h : History) (n : Nat) : (h.above n).termAt n = h.termAt n := by
  unfold Replica.termAt
  split
  · next h0 => rw [h0, termAt_zero]
  · rw [if_pos (show n = (h.above n).snapshotIndex from rfl)]
    rfl

theorem Indexed.numbered (hi : h.Indexed) (n : Nat) : (h.above n).Numbered := by
  intro k e he
  simp only [above, List.getElem?_drop] at he ⊢
  exact hi _ e he

theorem Indexed.lastIndex_above (hi : h.Indexed) (hn : n ≤ h.length) :
    (h.above n).lastIndex = h.length := by
  rw [(hi.numbered n).lastIndex_eq]
  simp only [above, List.length_drop]
  omega

/-- The request that carries the history above a position. -/
theorem Indexed.carries (hi : h.Indexed) (hn : n ≤ h.length) (term : Nat) (leader : NodeId)
    (commit : Nat) :
    Replica.Carries ⟨term, leader, n, h.termAt n, h.drop n, commit⟩ (h.above n) where
  prevTerm := (termAt_above h n).symm
  entries k e he := by
    simp only [List.getElem?_drop] at he
    rw [entryAt?_above (by simp only; omega), ← he]
    simp only
    congr 1
    omega
  ends := by
    rw [hi.lastIndex_above hn]
    simp only [List.length_drop]
    omega

/-- What is held above a position is held above an earlier one. -/
theorem held_above {e : Entry} (he : (h.above n).entryAt? i = some e) :
    (h.above 0).entryAt? i = some e := by
  have hlt : n < i := Replica.lt_of_entryAt? he
  rw [entryAt?_above hlt] at he
  rw [entryAt?_above (by omega), he]

end History

namespace Replica

variable {f f' : Replica} {h : History} {n : Nat}

theorem Numbered.entryAt?_eq_none (hf : f.Numbered) {i : Nat} (hi : f.lastIndex < i) :
    f.entryAt? i = none := by
  cases he : f.entryAt? i with
  | none => rfl
  | some e => exact absurd (hf.le_lastIndex he) (Nat.not_le.2 hi)

/-- The term where the log ends is the last term. -/
theorem Numbered.lastTerm_eq (hf : f.Numbered) (hpos : 0 < f.lastIndex) :
    f.lastTerm = f.termAt f.lastIndex := by
  have hlast := hf.lastIndex_eq
  rcases List.eq_nil_or_concat f.log with hnil | ⟨es, e, hlog⟩
  · rw [hnil, List.length_nil, Nat.add_zero] at hlast
    rw [hlast, termAt_base (hlast ▸ hpos), lastTerm, hnil]
    rfl
  · rw [List.concat_eq_append] at hlog
    have he : f.entryAt? f.lastIndex = some e := by
      rw [hlast, hlog, entryAt?_of_lt (by simp), hlog, List.length_append, List.length_singleton,
        List.getElem?_append_right (by omega)]
      simp
    rw [termAt_of_entryAt? he, lastTerm, hlog, List.getLast?_concat]
    rfl

/-- A log that merges a history holds it above its base. -/
theorem Merges.entryAt?_eq {j i : Nat} (hm : Merges (h.above n) f j) (hi : i ≤ j) (hlt : n < i)
    (hbase : f.snapshotIndex < i) : f.entryAt? i = h[i - 1]? := by
  rw [hm.agrees i hi hlt hbase, entryAt?_above hlt]

/-- A log that merges a history merges what the history has above a position. -/
theorem Merges.above {j : Nat} (hm : Merges (h.above 0) f j) : Merges (h.above n) f j := by
  refine ⟨hm.numbered, hm.matching.mono (fun _ _ => held_above) fun _ _ he => he,
    fun i hi (hli : n < i) hfi => ?_, hm.reach⟩
  rw [hm.entryAt?_eq hi (by omega) hfi, entryAt?_above hli]

/-- **An image leaves open what merging the history will do.** If the log merges the history, making
room for the image changes nothing above it; if not, what is left ends with the history or does not
merge it either. -/
theorem Rebased.merges_iff (hr : Rebased f f' n (h.termAt n)) (hi : h.Indexed) (hf : f.Numbered)
    (hm : (h.above 0).Matches f) (hbase : f.snapshotIndex < n) (hn : n ≤ h.length) :
    Merges (h.above 0) f h.length ∧ Merges (h.above n) f' h.length ∧
        f'.lastIndex = f.lastIndex ∧ (∀ i, n < i → f'.entryAt? i = f.entryAt? i) ∨
      ¬ Merges (h.above 0) f h.length ∧
        (Merges (h.above n) f' h.length → f'.lastIndex = h.length) := by
  have hpos : 0 < n := by omega
  by_cases hall : Merges (h.above 0) f h.length
  · -- the log has the history's term where the image ends
    have hreach := hall.reach
    have hterm : f.termAt n = h.termAt n := by
      obtain ⟨e, he⟩ := hf.exists_entryAt? hbase (by omega)
      rw [termAt_of_entryAt? he, History.termAt, if_neg (by omega),
        ← hall.entryAt?_eq hn hpos hbase, he]
      rfl
    obtain ⟨hlast, hheld⟩ := hr.kept (by omega) hterm
    obtain ⟨log, rfl⟩ := hr.shape
    refine .inl ⟨hall, ⟨hr.numbered, hall.above.matching.mono (fun _ _ he => he) hr.held,
      fun i hi (hli : n < i) _ => ?_, by omega⟩, hlast, hheld⟩
    rw [hheld i hli, hall.entryAt?_eq hi (by omega) (by omega), entryAt?_above hli]
  · refine .inr ⟨hall, fun hrest => ?_⟩
    by_cases hkept : n ≤ f.lastIndex ∧ f.termAt n = h.termAt n
    · -- the log agrees with the history up to the image, and after it by assumption
      refine absurd ?_ hall
      obtain ⟨hlast, hheld⟩ := hr.kept hkept.1 hkept.2
      have hbelow : Merges (h.above 0) f n := by
        have hlast₀ : n ≤ (h.above 0).lastIndex := by rwa [hi.lastIndex_above (Nat.zero_le _)]
        refine .of_anchors (hi.numbered 0) hf hm hlast₀ ?_
        have hterm : (h.above 0).termAt n = h.termAt n := by
          obtain ⟨e, he, ht⟩ := exists_getElem? hpos hn
          rw [ht, ← termAt_of_entryAt? (r := h.above 0) (by rw [entryAt?_above hpos, he])]
        simp only [anchors, Bool.or_eq_true, Bool.and_eq_true, decide_eq_true_eq, hterm]
        exact .inr hkept
      have hreach := hrest.reach
      obtain ⟨log, rfl⟩ := hr.shape
      refine ⟨hf, hm, fun i hi _ hfi => ?_, by omega⟩
      rcases Nat.lt_or_ge n i with hlt | hge
      · rw [← hheld i hlt, hrest.entryAt?_eq hi hlt hlt, entryAt?_above (by omega)]
      · exact hbelow.agrees i hge (by omega) hfi
    · have hend := hr.dropped hkept
      have hreach := hrest.reach
      omega

end Replica

/-! ## Executing a history -/

namespace Replica

variable {f f' f'' : Replica} {h : History} {n commit term : Nat}

/-- The entries that are committed and not applied are those of the history. -/
theorem Merges.takeCommitted_eq (hm : Merges (h.above n) f h.length) (hn : n ≤ f.lastApplied)
    (hbase : f.snapshotIndex ≤ f.lastApplied) (hcommit : f.commitIndex ≤ h.length) :
    f.takeCommitted.2 = (h.drop f.lastApplied).take (f.commitIndex - f.lastApplied) := by
  have key : ∀ k i, f.lastApplied ≤ i → i + k ≤ h.length →
      (List.range' (i + 1) k).filterMap f.entryAt? = (h.drop i).take k := by
    intro k
    induction k with
    | zero => simp
    | succ k ih =>
      intro i hi hk
      rw [List.range'_succ, List.filterMap_cons, hm.entryAt?_eq (by omega) (by omega) (by omega),
        Nat.add_sub_cancel, List.getElem?_eq_getElem (by omega),
        List.drop_eq_getElem_cons (by omega), List.take_succ_cons,
        ih (i + 1) (by omega) (by omega)]
  rw [takeCommitted]
  rcases Nat.le_total f.lastApplied f.commitIndex with hle | hge
  · exact key _ _ (Nat.le_refl _) (by omega)
  · simp [Nat.sub_eq_zero_of_le hge]

/-- Executing what is committed goes on with the history. -/
theorem Merges.replay_committed (hm : Merges (h.above n) f h.length) (hn : n ≤ f.lastApplied)
    (hbase : f.snapshotIndex ≤ f.lastApplied) (happlied : f.lastApplied ≤ f.commitIndex)
    (hcommit : f.commitIndex ≤ h.length) :
    f.takeCommitted.2.foldl Image.replay (Image.restore (h.take f.lastApplied)) =
      Image.restore (h.take f.commitIndex) := by
  rw [hm.takeCommitted_eq hn hbase hcommit, ← Image.restore_append, ← List.take_add,
    Nat.add_sub_cancel' happlied]

/-! ## Members that are alike above a position -/

/-- The members are alike above a position. -/
structure AlikeAbove (n : Nat) (f f' : Replica) : Prop where
  lastIndex : f.lastIndex = f'.lastIndex
  lastTerm : f.lastTerm = f'.lastTerm
  commit : f.commitIndex = f'.commitIndex
  applied : f.lastApplied = f'.lastApplied
  entries : ∀ i, n < i → f.entryAt? i = f'.entryAt? i

namespace AlikeAbove

theorem refl (n : Nat) (f : Replica) : AlikeAbove n f f := ⟨rfl, rfl, rfl, rfl, fun _ _ => rfl⟩

theorem symm (h : AlikeAbove n f f') : AlikeAbove n f' f :=
  ⟨h.lastIndex.symm, h.lastTerm.symm, h.commit.symm, h.applied.symm,
    fun i hi => (h.entries i hi).symm⟩

theorem trans (h : AlikeAbove n f f') (h' : AlikeAbove n f' f'') : AlikeAbove n f f'' :=
  ⟨h.lastIndex.trans h'.lastIndex, h.lastTerm.trans h'.lastTerm, h.commit.trans h'.commit,
    h.applied.trans h'.applied, fun i hi => (h.entries i hi).trans (h'.entries i hi)⟩

theorem mono {n' : Nat} (h : AlikeAbove n f f') (hn : n ≤ n') : AlikeAbove n' f f' :=
  ⟨h.lastIndex, h.lastTerm, h.commit, h.applied,
    fun i hi => h.entries i (Nat.lt_of_le_of_lt hn hi)⟩

end AlikeAbove

/-- A compaction takes only what it puts into the image. -/
theorem Numbered.exists_compact (hf : f.Numbered) (hbase : f.snapshotIndex ≤ f.lastApplied)
    (hlast : f.lastApplied ≤ f.lastIndex) : ∃ f' removed,
    f.compact f.lastApplied = .ok (f', removed) ∧ f'.snapshotIndex = f.lastApplied ∧
      AlikeAbove f.lastApplied f f' := by
  have hend := hf.lastIndex_eq
  have hthrough : min (min f.lastApplied f.lastApplied) f.lastIndex = f.lastApplied := by omega
  rw [compact]
  simp only [hthrough]
  split
  · next hle =>
    obtain heq : f.lastApplied = f.snapshotIndex := Nat.le_antisymm hle hbase
    exact ⟨f, [], rfl, heq.symm, .refl _ f⟩
  · next hlt =>
    have hfits : f.lastApplied - f.snapshotIndex ≤ f.log.length := by omega
    obtain ⟨f', hf'⟩ : ∃ f', f' = { f with
        log := f.log.drop (f.lastApplied - f.snapshotIndex)
        snapshotIndex := f.lastApplied
        snapshotTerm := f.termAt f.lastApplied } := ⟨_, rfl⟩
    have hbase' : f'.snapshotIndex = f.lastApplied := by rw [hf']
    have hlog' : f'.log = f.log.drop (f.lastApplied - f.snapshotIndex) := by rw [hf']
    have hentries : ∀ i, f.lastApplied < i → f'.entryAt? i = f.entryAt? i := fun i hi =>
      entryAt?_drop hlog' (by omega) (by omega)
    have hnumbered : f'.Numbered := by
      intro k e he
      rw [hlog', List.getElem?_drop] at he
      have hindex := hf _ e he
      omega
    have hend' : f'.lastIndex = f.lastIndex := by
      rw [hnumbered.lastIndex_eq, hlog', List.length_drop]
      omega
    refine ⟨f', f.log.take (f.lastApplied - f.snapshotIndex), ?_, hbase', hend'.symm, ?_, ?_, ?_,
      fun i hi => (hentries i hi).symm⟩
    · rw [dropFirst, if_pos hfits, hf']
      rfl
    · rw [hf.lastTerm_eq (by omega), hnumbered.lastTerm_eq (by omega), hend']
      rcases Nat.eq_or_lt_of_le hlast with heq | hlt'
      · -- nothing is left of the log
        rw [← heq, ← hbase', termAt_base (by omega), hbase', hf']
      · obtain ⟨e, he⟩ := hf.exists_entryAt? (by omega) (Nat.le_refl _)
        rw [termAt_of_entryAt? he, termAt_of_entryAt? (hentries _ hlt' ▸ he)]
    · rw [hf']
    · rw [hf']

/-! ## Taking the two requests -/

/-- Only a commit index that moves is reported. -/
theorem commitIndex_takeEntries {q : AppendRequest} {o : AppendOutcome}
    (run : f.takeEntries q = .ok (f', o)) (hidle : o.commitAdvanced = false) :
    f'.commitIndex = f.commitIndex := by
  have hs := sameLog_accept f q.term q.leader
  rcases takeEntries_cases run with ⟨-, rfl, -⟩ | ⟨-, rfl, -⟩ |
    ⟨-, -, -, f₁, change, advanced, hplaced, hfollow, rfl⟩
  · rfl
  · exact hs.commit
  · obtain ⟨log, hlog⟩ := (f.accept q.term q.leader).exists_placeAll (q.prevIndex + 1) none
      q.entries
    rw [hplaced] at hlog
    obtain ⟨-, hfollowed⟩ := followCommit_spec f₁ q.leaderCommit (q.prevIndex + q.entries.length)
    rw [hfollow] at hfollowed
    obtain ⟨-, hsame⟩ := hfollowed.resolve_right fun hmoved => by
      cases hidle.symm.trans hmoved.1
    exact hsame.trans ((congrArg (·.commitIndex) hlog).trans hs.commit)

/-- A request without entries changes no log. -/
theorem change_takeEntries {q : AppendRequest} {o : AppendOutcome}
    (run : f.takeEntries q = .ok (f', o)) (hnone : q.entries = []) : o.change = none := by
  rcases takeEntries_cases run with ⟨-, -, rfl⟩ | ⟨-, -, rfl⟩ |
    ⟨-, -, -, f₁, change, advanced, hplaced, -, rfl⟩
  · rfl
  · rfl
  · rw [hnone] at hplaced
    cases hplaced
    rfl

/-- What a member is once it has taken the history above a position, before it executes any of
it. -/
structure Took (h : History) (n c t : Nat) (f f' : Replica) (o : AppendOutcome) : Prop where
  success : o.success = true
  term : f'.term = t
  config : f'.config = f.config
  base : f'.snapshotIndex = f.snapshotIndex
  baseTerm : f'.snapshotTerm = f.snapshotTerm
  applied : f'.lastApplied = f.lastApplied
  commit : f'.commitIndex = c
  idle : o.commitAdvanced = false → f.commitIndex = c
  unchanged : n = h.length → o.change = none
  merges : Merges (h.above n) f' h.length
  log : f'.log = f.log ∧ Merges (h.above n) f h.length ∨
    ¬ Merges (h.above n) f h.length ∧ f'.lastIndex = h.length

/-- A request whose anchor holds is taken. -/
theorem exists_took (hi : h.Indexed) (hroom : h.length ≤ maxWord) (leader : NodeId)
    {prevTerm : Nat} (hn : n ≤ h.length) (hprev : prevTerm = h.termAt n) (hf : f.Numbered)
    (hm : (h.above n).Matches f) (ht : f.term ≤ term) (ha : f.anchors n prevTerm = true)
    (hbehind : f.commitIndex ≤ commit) (hc : commit ≤ h.length) : ∃ f' o,
    f.takeEntries ⟨term, leader, n, prevTerm, h.drop n, commit⟩ = .ok (f', o) ∧
      Took h n commit term f f' o := by
  subst hprev
  have hlast := hi.lastIndex_above hn
  obtain ⟨f', o, htake, hsuccess, htaken⟩ := takeEntries_taken (hi.numbered n)
    (by rw [hlast]; exact hroom) hf hm ht (hi.carries hn term leader commit) ha
  have hmerges := htaken.merges
  have hlog := htaken.log
  rw [hlast] at hmerges hlog
  have hcommit : f'.commitIndex = commit := by
    rw [htaken.commit, hlast]
    simp only
    omega
  have hconfig : f'.config = f.config := by
    rcases exists_takeEntries htake with rfl | ⟨log, commit, rfl, -⟩
    · rfl
    · exact (sameLog_accept f term leader).config
  exact ⟨f', o, htake, hsuccess, htaken.term, hconfig, htaken.base, htaken.baseTerm,
    htaken.applied, hcommit, fun hidle => (commitIndex_takeEntries htake hidle).symm.trans hcommit,
    fun heq => change_takeEntries htake (heq ▸ List.drop_length), hmerges, hlog⟩

/-- An image that ends after the commit index is installed. -/
theorem exists_takeImage (hf : f.Numbered) {lastIndex : Nat} (lastTerm : Nat) (ht : f.term ≤ term)
    (leader : NodeId) (hbase : f.snapshotIndex ≤ f.commitIndex) (hn : f.commitIndex < lastIndex) :
    ∃ f', f.takeImage term leader lastIndex lastTerm = .ok (f', ⟨true, true⟩) ∧ f'.term = term ∧
      f'.config = f.config ∧ Rebased (f.accept term leader) f' lastIndex lastTerm := by
  have hs := sameLog_accept f term leader
  obtain ⟨f', hrebase, hrebased⟩ := exists_rebased (hf.of_sameLog hs)
    (show (f.accept term leader).snapshotIndex ≤ lastIndex by rw [hs.base]; omega) lastTerm
  refine ⟨f', ?_, ?_, ?_, hrebased⟩
  · rw [takeImage, if_neg (Nat.not_lt.2 ht)]
    simp only [hs.commit, if_neg (Nat.not_le.2 hn), hrebase]
    rfl
  · obtain ⟨log, rfl⟩ := hrebased.shape
    exact (accept_spec ht leader).2
  · obtain ⟨log, rfl⟩ := hrebased.shape
    exact hs.config

/-- Logs that merge one history, one of them from a position in it on, are alike above that position
if they are above the history. -/
theorem alikeAbove (hn : n ≤ h.length) (hm : Merges (h.above n) f h.length)
    (hm' : Merges (h.above 0) f' h.length) (hbase : f.snapshotIndex = n)
    (hterm : f.snapshotTerm = h.termAt n) (hbase' : f'.snapshotIndex < n)
    (hcommit : f.commitIndex = f'.commitIndex) (happlied : f.lastApplied = f'.lastApplied)
    (hlast : f.lastIndex = f'.lastIndex)
    (hbeyond : ∀ i, h.length < i → f.entryAt? i = f'.entryAt? i) : AlikeAbove n f f' := by
  have hpos : 0 < n := Nat.lt_of_le_of_lt (Nat.zero_le _) hbase'
  have hentries : ∀ i, n < i → f.entryAt? i = f'.entryAt? i := by
    intro i hi
    rcases Nat.lt_or_ge h.length i with hlt | hge
    · exact hbeyond i hlt
    · rw [hm.entryAt?_eq hge hi (by omega), hm'.entryAt?_eq hge (by omega) (by omega)]
  have hreach := hm.reach
  refine ⟨hlast, ?_, hcommit, happlied, hentries⟩
  rw [hm.numbered.lastTerm_eq (by omega), hm'.numbered.lastTerm_eq (by omega), ← hlast]
  rcases Nat.eq_or_lt_of_le (Nat.le_trans hn hreach) with heq | hlt
  · -- the image ends where the log ends
    obtain ⟨e, he, ht⟩ := exists_getElem? hpos hn
    rw [← heq, ← hbase, termAt_base (hbase ▸ hpos), hterm, ht, hbase,
      termAt_of_entryAt? (by rw [hm'.entryAt?_eq hn hpos hbase', he])]
  · obtain ⟨e, he⟩ := hm.numbered.exists_entryAt? (hbase ▸ hlt) (Nat.le_refl _)
    rw [termAt_of_entryAt? he, termAt_of_entryAt? (hentries _ hlt ▸ he)]

/-- The image and the entries after it, or all entries: both are taken, and when what is committed
counts as applied, the members are alike above the image. -/
theorem exists_took_alike (hi : h.Indexed) (hroom : h.length ≤ maxWord) (hf : f.Numbered)
    (hbase : f.snapshotIndex ≤ f.commitIndex) (happlied : f.lastApplied ≤ f.commitIndex)
    (hm : (h.above 0).Matches f) (ht : f.term ≤ term) (hn : f.commitIndex < n) (hnc : n ≤ commit)
    (hc : commit ≤ h.length) (leader : NodeId) : ∃ f₁ f₂ o₂ f₃ o₃,
    f.takeImage term leader n (h.termAt n) = .ok (f₁, ⟨true, true⟩) ∧
      f₁.term = term ∧ f₁.config = f.config ∧ f₁.snapshotIndex = n ∧ f₁.commitIndex = n ∧
      f₁.lastApplied = n ∧
      f₁.takeEntries ⟨term, leader, n, h.termAt n, h.drop n, commit⟩ = .ok (f₂, o₂) ∧
      Took h n commit term f₁ f₂ o₂ ∧
      f.takeEntries ⟨term, leader, 0, 0, h, commit⟩ = .ok (f₃, o₃) ∧
      Took h 0 commit term f f₃ o₃ ∧
      AlikeAbove n f₂.takeCommitted.1 f₃.takeCommitted.1 := by
  have hfit : n ≤ h.length := Nat.le_trans hnc hc
  -- one way: all entries
  obtain ⟨f₃, o₃, htake₃, htook₃⟩ := exists_took hi hroom leader (Nat.zero_le _)
    (termAt_zero h).symm hf hm ht (by simp [anchors]) (by omega) hc
  -- the other way: the image, and the entries after it
  have hs := sameLog_accept f term leader
  have hm₀ : (h.above 0).Matches (f.accept term leader) :=
    hm.mono (fun _ _ he => he) fun i _ he => hs.entryAt?_eq i ▸ he
  obtain ⟨f₁, htake₁, hterm₁, hconfig₁, hrebased⟩ :=
    exists_takeImage hf (h.termAt n) ht leader hbase hn
  have hends := hrebased.merges_iff hi (hf.of_sameLog hs) hm₀ (by rw [hs.base]; omega) hfit
  have hshape : f₁.snapshotIndex = n ∧ f₁.snapshotTerm = h.termAt n ∧ f₁.commitIndex = n ∧
      f₁.lastApplied = n := by
    obtain ⟨log, rfl⟩ := hrebased.shape
    exact ⟨rfl, rfl, rfl, rfl⟩
  obtain ⟨hbase₁, hbaseTerm₁, hcommit₁, happlied₁⟩ := hshape
  obtain ⟨f₂, o₂, htake₂, htook₂⟩ := exists_took hi hroom leader hfit rfl hrebased.numbered
    (hm₀.mono (fun _ _ => held_above) hrebased.held) (Nat.le_of_eq hterm₁)
    (by simp [anchors, hbase₁]) (by omega) hc
  refine ⟨f₁, f₂, o₂, f₃, o₃, htake₁, hterm₁, hconfig₁, hbase₁, hcommit₁, happlied₁, htake₂,
    htook₂, htake₃, htook₃, ?_⟩
  have hends₂ : f₂.lastIndex = f₃.lastIndex ∧ ∀ i, h.length < i →
      f₂.entryAt? i = f₃.entryAt? i := by
    rcases hends with ⟨hall, hall₁, hlast, hheld⟩ | ⟨hnot, hend⟩
    · -- the log goes on after the history, and stays as it is
      have hsame₂ := (htook₂.log.resolve_right fun hnot => hnot.1 hall₁).1
      have hsame₃ := (htook₃.log.resolve_right fun hnot =>
        hnot.1 (hall.congr hs.log.symm hs.base.symm)).1
      refine ⟨?_, fun i hlt => ?_⟩
      · rw [lastIndex_congr hsame₂ htook₂.base, hlast, hs.lastIndex_eq,
          lastIndex_congr hsame₃ htook₃.base]
      · rw [entryAt?_congr hsame₂ htook₂.base, hheld i (by omega), hs.entryAt?_eq,
          entryAt?_congr hsame₃ htook₃.base]
    · -- both logs end with the history
      have hend₃ : f₃.lastIndex = h.length :=
        (htook₃.log.resolve_left fun hall => hnot (hall.2.congr hs.log hs.base)).2
      have hend₂ : f₂.lastIndex = h.length := by
        rcases htook₂.log with ⟨hsame, hall⟩ | ⟨-, hend₂⟩
        · rw [lastIndex_congr hsame htook₂.base, hend hall]
        · exact hend₂
      refine ⟨hend₂.trans hend₃.symm, fun i hlt => ?_⟩
      rw [htook₂.merges.numbered.entryAt?_eq_none (hend₂ ▸ hlt),
        htook₃.merges.numbered.entryAt?_eq_none (hend₃ ▸ hlt)]
  have hcommit₂ := htook₂.commit
  have hcommit₃ := htook₃.commit
  have happlied₂ := htook₂.applied
  have happlied₃ := htook₃.applied
  have hbase₃ := htook₃.base
  refine alikeAbove hfit (htook₂.merges.congr rfl rfl) (htook₃.merges.congr rfl rfl)
    (htook₂.base.trans hbase₁) (htook₂.baseTerm.trans hbaseTerm₁) ?_ (hcommit₂.trans hcommit₃.symm)
    ?_ hends₂.1 hends₂.2
  · simp only [takeCommitted]
    omega
  · simp only [takeCommitted]
    omega

end Replica

/-! ## Hale members -/

namespace Member.Hale

variable {m : Member MemoryDisk} {now : Instant}

theorem exists_takeImage (h : m.Hale) (hn : m.replica.Numbered)
    (hbase : m.replica.snapshotIndex ≤ m.replica.lastApplied)
    (hlast : m.replica.lastApplied ≤ m.replica.lastIndex) (now : Instant) : ∃ m',
    m.takeImage now = .ok (m', none) ∧ m'.Hale ∧ m'.machine = m.machine ∧
      m'.replica.snapshotIndex = m.replica.lastApplied ∧
      m.replica.AlikeAbove m.replica.lastApplied m'.replica := by
  obtain ⟨r, removed, hr, hindex, halike⟩ := hn.exists_compact hbase hlast
  obtain ⟨m', run⟩ := takeImage_succeeds h.writes hr now
  obtain ⟨⟨removed', hr'⟩, hmachine⟩ := takeImage_compacts run
  cases hr.symm.trans hr'
  exact ⟨m', run, h.takeImage run, hmachine, hindex, halike⟩

/-- What is committed is executed, and a log that has grown to the threshold is cut behind it. -/
theorem exists_applyCommitted (h : m.Hale) (hn : m.replica.Numbered)
    (hbase : m.replica.snapshotIndex ≤ m.replica.lastApplied)
    (happlied : m.replica.lastApplied ≤ m.replica.commitIndex)
    (hlast : m.replica.commitIndex ≤ m.replica.lastIndex)
    (hvalued : ∀ e ∈ m.replica.takeCommitted.2, e.command.Valued) (now : Instant) : ∃ m',
    m.applyCommitted now = .ok (m', none) ∧ m'.Hale ∧
      m'.machine = m.replica.takeCommitted.2.foldl Image.replay m.machine ∧
      m'.replica.snapshotIndex = (if m.replica.lastApplied < m.replica.commitIndex ∧
          m.replica.config.snapshotThreshold ≤ m.replica.log.length
        then m.replica.commitIndex else m.replica.snapshotIndex) ∧
      m.replica.takeCommitted.1.AlikeAbove m'.replica.snapshotIndex m'.replica := by
  unfold Member.applyCommitted
  rw [write_eq h.writes]
  simp only
  have hlength := congrArg List.length (hn.index_between hbase hlast)
  rw [List.length_map, List.length_range'] at hlength
  replace hlength : m.replica.takeCommitted.2.length =
    m.replica.commitIndex - m.replica.lastApplied := hlength
  split
  · next hempty =>
    rw [List.isEmpty_iff.1 hempty] at hlength ⊢
    refine ⟨_, rfl, ⟨h.running, h.writes⟩, rfl, ?_, .refl _ _⟩
    rw [if_neg (by rw [List.length_nil] at hlength; omega)]
    rfl
  · next hsome =>
    have hmore : m.replica.lastApplied < m.replica.commitIndex := by
      rw [List.isEmpty_iff, ← List.length_eq_zero_iff] at hsome
      omega
    obtain ⟨m₁, err, happ, hcore, hstopped, hiff, hmachine⟩ := applyAll_cases
      { m with
        replica := m.replica.takeCommitted.1
        disk := { m.disk with
          tried := m.disk.tried + 1
          contents := m.disk.contents.after (.commit m.replica.commitIndex) } }
      m.replica.takeCommitted.2
    obtain rfl : err = none := hiff.2 hvalued
    obtain ⟨hr, hdisk, -⟩ := core_eq_iff.1 hcore
    replace hr : m₁.replica = m.replica.takeCommitted.1 := hr
    have h₁ : m₁.Hale := ⟨hstopped.trans h.running, by rw [hdisk]; exact h.writes⟩
    have hmax : m.replica.takeCommitted.1.lastApplied = m.replica.commitIndex :=
      Nat.max_eq_right happlied
    rw [happ]
    simp only [hr]
    split
    · next hdue =>
      have hdue' := of_decide_eq_true hdue
      obtain ⟨m₂, run, h₂, hsame, hindex, halike⟩ := h₁.exists_takeImage
        (by rw [hr]; exact hn) (by rw [hr, hmax]; exact Nat.le_trans hbase happlied)
        (by rw [hr, hmax]; exact hlast) now
      rw [hr, hmax] at hindex halike
      refine ⟨m₂, run, h₂, hsame.trans (hmachine rfl), ?_, hindex ▸ halike⟩
      rw [hindex, if_pos ⟨hmore, hdue'⟩]
    · next hnot =>
      have hnot' : ¬ m.replica.config.snapshotThreshold ≤ m.replica.log.length :=
        fun hle => hnot (decide_eq_true hle)
      refine ⟨m₁, rfl, h₁, hmachine rfl, ?_, by rw [hr]; exact .refl _ _⟩
      rw [hr, if_neg fun hdue => hnot' hdue.2]
      rfl

theorem exists_persistEntries (h : m.Hale) (change : Option LogChange)
    (hfits : change ≠ none → m.replica.snapshotIndex < maxWord) :
    ∃ m', m.persistEntries change = .ok (m', none) := by
  obtain ⟨m₁, e, hsave⟩ : ∃ m₁ e, m.saveBallot = (m₁, e) := ⟨_, _, rfl⟩
  obtain ⟨rfl, h₁⟩ := h.of_writes (writes_saveBallot hsave)
  have hwrite : ∀ w, ∃ m₂, m₁.write w = (m₂, none) := fun w => ⟨_, write_eq h₁.writes w⟩
  unfold Member.persistEntries
  rw [hsave]
  match change with
  | none => exact ⟨m₁, rfl⟩
  | some (.appended start) =>
    have hes := Replica.entriesFrom_eq_ok_iff (r := m₁.replica) (i := start).2
      ⟨by rw [(writes_saveBallot hsave).replica]; exact hfits nofun, rfl⟩
    obtain ⟨m₂, hw⟩ := hwrite (.append _)
    exact ⟨m₂, bind_eq_ok.2 ⟨_, hes, congrArg Except.ok hw⟩⟩
  | some .rewritten =>
    obtain ⟨m₂, hw⟩ := hwrite (.replace m₁.replica.log)
    exact ⟨m₂, congrArg Except.ok hw⟩

/-- A request that is taken is answered, when what it commits can be executed. -/
theorem exists_answerAppend (h : m.Hale) {q : AppendRequest} {r : Replica} {o : AppendOutcome}
    (hr : m.replica.takeEntries q = .ok (r, o)) (hn : r.Numbered)
    (hbase : r.snapshotIndex ≤ r.lastApplied) (happlied : r.lastApplied ≤ r.commitIndex)
    (hlast : r.commitIndex ≤ r.lastIndex)
    (hidle : o.commitAdvanced = false → r.lastApplied = r.commitIndex)
    (hfits : o.change ≠ none → r.snapshotIndex < maxWord)
    (hvalued : ∀ e ∈ r.takeCommitted.2, e.command.Valued) (now : Instant) : ∃ m',
    m.answerAppend now q = .ok (m', .ok (.appendReply r.term o.success)) ∧
      m'.machine = r.takeCommitted.2.foldl Image.replay m.machine ∧
      m'.replica.snapshotIndex = (if r.lastApplied < r.commitIndex ∧
          r.config.snapshotThreshold ≤ r.log.length then r.commitIndex else r.snapshotIndex) ∧
      r.takeCommitted.1.AlikeAbove m'.replica.snapshotIndex m'.replica := by
  obtain ⟨hcore, hstopped⟩ := gist_eq_iff.1 (gist_noteLeader { m with replica := r } o.resetTimer)
  obtain ⟨hreplica, -, hmachine, -⟩ := core_eq_iff.1 hcore
  have h₀ := (h.withReplica r).of_gist (gist_noteLeader _ o.resetTimer)
  obtain ⟨m₁, hpersist⟩ := h₀.exists_persistEntries o.change
    (by rw [hreplica]; exact hfits)
  have hwrites := writes_persistEntries hpersist
  obtain ⟨-, h₁⟩ := h₀.of_writes hwrites
  have hr₁ : m₁.replica = r := hwrites.replica.trans hreplica
  have hm₁ : m₁.machine = m.machine := by
    obtain ⟨⟨_, _, _, rfl⟩, -⟩ := hwrites
    exact hmachine
  have hfinish : ∀ m₂ : Member MemoryDisk, m₂.Hale →
      (if m₂.finish.stopped then Except.error ServiceError.shutdown
        else .ok (Message.appendReply r.term o.success)) =
          .ok (.appendReply r.term o.success) := fun m₂ h₂ =>
    if_neg (by rw [h₂.finish.running]; exact Bool.false_ne_true)
  unfold Member.answerAppend
  rw [hr]
  simp only [bind, Except.bind, hpersist]
  cases hadvanced : o.commitAdvanced with
  | true =>
    rw [← hr₁] at hn hbase happlied hlast hvalued
    obtain ⟨m₂, run, h₂, hsame, hindex, halike⟩ :=
      h₁.exists_applyCommitted hn hbase happlied hlast hvalued now
    rw [hr₁] at hsame hindex halike
    refine ⟨m₂.finish, ?_, ?_, ?_, ?_⟩
    · simp only [if_true, applyOrHalt, run, bind, Except.bind, pure, Except.pure, hfinish m₂ h₂]
    · rw [(core_eq_iff.1 (quiet_finish m₂).core).2.2.1, hsame, hm₁]
    · rw [replica_finish, hindex]
    · rw [replica_finish]
      exact halike
  | false =>
    -- all that is committed is applied
    have heq := hidle hadvanced
    have hnone : r.takeCommitted.2 = [] := by
      rw [Replica.takeCommitted, heq, Nat.sub_self]
      rfl
    refine ⟨m₁.finish, ?_, ?_, ?_, ?_⟩
    · simp only [Bool.false_eq_true, if_false, pure, Except.pure, hfinish m₁ h₁]
    · rw [(core_eq_iff.1 (quiet_finish m₁).core).2.2.1, hm₁, hnone]
      rfl
    · rw [replica_finish, hr₁, if_neg (by omega)]
    · rw [replica_finish, hr₁]
      exact ⟨rfl, rfl, rfl, by rw [Replica.takeCommitted, heq, Nat.max_self], fun _ _ => rfl⟩

/-- A request with the history above a position is answered, and the history is executed as far as
it is committed. -/
theorem exists_answerAppend_took (hale : m.Hale) {h : History} {n commit term : Nat}
    {q : AppendRequest} {r : Replica} {o : AppendOutcome}
    (hr : m.replica.takeEntries q = .ok (r, o)) (htook : Replica.Took h n commit term m.replica r o)
    (hvalued : h.Valued) (hmachine : m.machine = Image.restore (h.take m.replica.lastApplied))
    (hn : n ≤ m.replica.lastApplied) (hbase : m.replica.snapshotIndex ≤ m.replica.lastApplied)
    (happlied : m.replica.lastApplied ≤ commit) (hc : commit ≤ h.length)
    (hidle : m.replica.commitIndex = commit → m.replica.lastApplied = commit)
    (hfits : n < h.length → m.replica.snapshotIndex < maxWord) (now : Instant) : ∃ m',
    m.answerAppend now q = .ok (m', .ok (.appendReply term true)) ∧
      m'.machine = Image.restore (h.take commit) ∧
      m'.replica.snapshotIndex = (if m.replica.lastApplied < commit ∧
          m.replica.config.snapshotThreshold ≤ m'.replica.lastIndex - m.replica.snapshotIndex
        then commit else m.replica.snapshotIndex) ∧
      r.takeCommitted.1.AlikeAbove m'.replica.snapshotIndex m'.replica := by
  have hmerges := htook.merges
  have hcommit := htook.commit
  have happ := htook.applied
  have hstart := htook.base
  have hreach := hmerges.reach
  have hreplay := hmerges.replay_committed (by omega) (by omega) (by omega) (by omega)
  have hall : ∀ e ∈ r.takeCommitted.2, e.command.Valued := by
    rw [hmerges.takeCommitted_eq (by omega) (by omega) (by omega)]
    exact fun e he => hvalued e (List.mem_of_mem_drop (List.mem_of_mem_take he))
  obtain ⟨m', run, hsame, hindex, halike⟩ := hale.exists_answerAppend hr hmerges.numbered
    (by omega) (by omega) (by omega)
    (fun hnot => by rw [happ, hcommit]; exact hidle (htook.idle hnot))
    (fun hchange => by
      have hne : n ≠ h.length := fun heq => hchange (htook.unchanged heq)
      rw [hstart]
      exact hfits (by omega)) hall now
  have hlength : r.log.length = m'.replica.lastIndex - m.replica.snapshotIndex := by
    have hend := hmerges.numbered.lastIndex_eq
    have hsame : r.lastIndex = m'.replica.lastIndex := halike.lastIndex
    omega
  rw [htook.term, htook.success] at run
  rw [hmachine, ← happ, hreplay, hcommit] at hsame
  rw [happ, hcommit, hstart, htook.config, hlength] at hindex
  exact ⟨m', run, hsame, hindex, halike⟩

/-- An image that is taken takes the place of the machine. -/
theorem exists_answerInstall (h : m.Hale) {q : InstallRequest} {r : Replica} {reset : Bool}
    (hr : m.replica.takeImage q.term q.leader q.lastIndex q.lastTerm = .ok (r, ⟨reset, true⟩))
    (now : Instant) : ∃ m', m.answerInstall now q = .ok (m', .ok (.installReply r.term)) ∧
      m'.Hale ∧ m'.replica = r ∧ m'.machine = Image.restore q.entries := by
  obtain ⟨m₁, m₂, hgist, hpersist, run⟩ := Member.exists_answerInstall h.writes hr now
  have hr₁ : m₁.replica = r := (core_eq_iff.1 (gist_eq_iff.1 hgist).1).1
  have hmachine : m₂.machine = Image.restore q.entries := by
    unfold Member.persistImage at hpersist
    split at hpersist
    · cases hpersist
    · rw [if_pos rfl] at hpersist
      obtain ⟨-, n, rfl⟩ := (install_cases hpersist).resolve_right fun hne => hne.1 rfl
      rfl
  refine ⟨m₂.finish, run, h.answerInstall run, ?_, ?_⟩
  · rw [replica_finish, replica_persistImage hpersist, hr₁]
  · rw [(core_eq_iff.1 (quiet_finish m₂).core).2.2.1, hmachine]

end Member.Hale

section

open Replica

variable {h : History} {m : Member MemoryDisk} {answers : List Answer} {n commit term : Nat}

/-- **The image and the entries leave the same member**, but for what it has compacted. A hale
member's log matches a history that can be executed, and its machine is what executing the history
as far as it is applied leaves. It answers the request for an image of a part of the history that
ends after its commit index, and the request with the entries after that part. Or it answers the
request with the history from the first entry on. All requests are taken, what is committed is
executed, and the two members that come out have the same machine.

A log that has grown to the threshold when that is done is cut at the commit index. Else it starts
after the image, or where the member's log has started. Above the later of the two starts the
members are alike. -/
theorem image_or_replay (hale : m.Hale) (hi : h.Indexed) (hvalued : h.Valued)
    (hroom : h.length ≤ maxWord) (hr : m.replica.Numbered)
    (hbase : m.replica.snapshotIndex ≤ m.replica.lastApplied)
    (happlied : m.replica.lastApplied ≤ m.replica.commitIndex)
    (hm : (h.above 0).Matches m.replica) (ht : m.replica.term ≤ term)
    (hmachine : Machine.execute .empty (h.take m.replica.lastApplied) = .ok (answers, m.machine))
    (hn : m.replica.commitIndex < n) (hnc : n ≤ commit) (hc : commit ≤ h.length)
    (leader : NodeId) (now₁ now₂ now₃ : Instant) : ∃ m₁ m₂ m₃,
    m.answerInstall now₁ ⟨term, leader, n, h.termAt n, Image.fold [] (h.take n)⟩ =
        .ok (m₁, .ok (.installReply term)) ∧
      m₁.answerAppend now₂ ⟨term, leader, n, h.termAt n, h.drop n, commit⟩ =
        .ok (m₂, .ok (.appendReply term true)) ∧
      m.answerAppend now₃ ⟨term, leader, 0, 0, h, commit⟩ =
        .ok (m₃, .ok (.appendReply term true)) ∧
      m₁.replica.snapshotIndex = n ∧ m₂.replica.commitIndex = commit ∧
      m₂.replica.lastApplied = commit ∧ m₂.machine = m₃.machine ∧
      m₂.replica.snapshotIndex = (if n < commit ∧
          m.replica.config.snapshotThreshold ≤ m₂.replica.lastIndex - n then commit else n) ∧
      m₃.replica.snapshotIndex = (if
          m.replica.config.snapshotThreshold ≤ m₃.replica.lastIndex - m.replica.snapshotIndex
        then commit else m.replica.snapshotIndex) ∧
      m₂.replica.AlikeAbove (max m₂.replica.snapshotIndex m₃.replica.snapshotIndex)
        m₃.replica := by
  have hmachine' : m.machine = Image.restore (h.take m.replica.lastApplied) := by
    obtain ⟨answers', hrun, -⟩ :=
      Machine.execute_eq (fun e he => hvalued e (List.mem_of_mem_take he)) .empty
    rw [hrun] at hmachine
    exact ((Prod.mk.inj (Except.ok.inj hmachine)).2).symm
  obtain ⟨f₁, f₂, o₂, f₃, o₃, htake₁, hterm₁, hconfig₁, hbase₁, hcommit₁, happlied₁, htake₂, htook₂,
    htake₃, htook₃, halike⟩ := exists_took_alike hi hroom hr (Nat.le_trans hbase happlied) happlied
      hm ht hn hnc hc leader
  obtain ⟨m₁, run₁, hale₁, rfl, hmachine₁⟩ := hale.exists_answerInstall
    (q := ⟨term, leader, n, h.termAt n, Image.fold [] (h.take n)⟩) htake₁ now₁
  rw [Image.restore_fold, List.nil_append] at hmachine₁
  obtain ⟨m₂, run₂, hmachine₂, hindex₂, halike₂⟩ := hale₁.exists_answerAppend_took htake₂ htook₂
    hvalued (by rw [hmachine₁, happlied₁]) (by omega) (by omega) (by omega) hc (fun _ => by omega)
    (fun _ => by omega) now₂
  obtain ⟨m₃, run₃, hmachine₃, hindex₃, halike₃⟩ := hale.exists_answerAppend_took htake₃ htook₃
    hvalued hmachine' (Nat.zero_le _) hbase (by omega) hc (fun heq => by omega)
    (fun _ => by omega) now₃
  rw [hconfig₁, hbase₁, happlied₁] at hindex₂
  have hahead : m.replica.lastApplied < commit := by omega
  simp only [hahead, true_and] at hindex₃
  have hlow : n ≤ m₂.replica.snapshotIndex := by
    rw [hindex₂]
    split <;> omega
  have hcommit₂ : m₂.replica.commitIndex = commit := halike₂.commit.symm.trans htook₂.commit
  have happlied₂ : m₂.replica.lastApplied = commit := by
    rw [← halike₂.applied]
    simp only [takeCommitted, htook₂.applied, htook₂.commit]
    omega
  refine ⟨m₁, m₂, m₃, hterm₁ ▸ run₁, run₂, run₃, hbase₁, hcommit₂, happlied₂,
    hmachine₂.trans hmachine₃.symm, hindex₂, hindex₃, ?_⟩
  exact ((halike₂.symm.mono (Nat.le_max_left _ _)).trans
    (halike.mono (Nat.le_trans hlow (Nat.le_max_left _ _)))).trans
      (halike₃.mono (Nat.le_max_right _ _))

/-! A member that has executed the first of three entries, and holds another second one. -/

namespace Lagging

def put (term index : Nat) (value : String) : Entry := ⟨term, index, ⟨.put, "k", some value⟩⟩

def history : History := [put 1 1 "a", put 2 2 "b", put 2 3 "c"]

def follower : Replica :=
  { Replica.create 2 [1, 2] {} with
    term := 1, log := [put 1 1 "a", put 1 2 "z"], commitIndex := 1, lastApplied := 1 }

def member : Member MemoryDisk :=
  { Member.blank ⟨2, [1], {}⟩ {} with replica := follower, machine := .ofList [("k", "a")] }

/-- A member with nothing, which compacts a log of three entries. -/
def newcomer : Member MemoryDisk := .blank ⟨2, [1], { snapshotThreshold := 3 }⟩ {}

theorem indexed : history.Indexed := by
  intro k e he
  rcases k with _ | _ | _ | k
  iterate 3 cases he; rfl
  cases he

theorem valued : history.Valued := by
  intro e he _
  simp only [history, List.mem_cons, List.not_mem_nil, or_false] at he
  rcases he with rfl | rfl | rfl <;> rfl

theorem numbered : follower.Numbered := by
  intro k e he
  rcases k with _ | _ | k
  iterate 2 cases he; rfl
  cases he

theorem matching : (history.above 0).Matches follower := by
  have hfirst : ∀ i e e', i ≤ 1 → (history.above 0).entryAt? i = some e →
      follower.entryAt? i = some e' → e = e' := by
    intro i e e' hi he he'
    rcases i with _ | _ | i
    · cases he
    · cases he
      cases he'
      rfl
    · omega
  intro i e e' he he' hterm
  rcases i with _ | _ | _ | i
  · cases he
  · exact ⟨hfirst 1 e e' (Nat.le_refl _) he he', fun j g g' hj => hfirst j g g' (Nat.le_of_lt hj)⟩
  · cases he
    cases he'
    cases hterm
  · cases he'

theorem matching_newcomer : (history.above 0).Matches newcomer.replica := by
  intro i e e' _ he'
  rw [Replica.entryAt?_of_lt (Replica.lt_of_entryAt? he')] at he'
  cases he'

end Lagging

end

theorem image_or_replay_lagging :
    Lagging.member.Hale ∧ Lagging.history.Indexed ∧ Lagging.history.Valued ∧
    Lagging.member.replica.Numbered ∧ (Lagging.history.above 0).Matches Lagging.member.replica ∧
    ∃ m₁ m₂ m₃, Lagging.member.answerInstall (.ofMillis 0) ⟨2, 1, 2, 2, [Lagging.put 2 2 "b"]⟩ =
        .ok (m₁, .ok (.installReply 2)) ∧
      m₁.answerAppend (.ofMillis 1) ⟨2, 1, 2, 2, [Lagging.put 2 3 "c"], 3⟩ =
        .ok (m₂, .ok (.appendReply 2 true)) ∧
      Lagging.member.answerAppend (.ofMillis 2) ⟨2, 1, 0, 0, Lagging.history, 3⟩ =
        .ok (m₃, .ok (.appendReply 2 true)) ∧
      m₁.replica.snapshotIndex = 2 ∧ m₂.replica.commitIndex = 3 ∧ m₂.replica.lastApplied = 3 ∧
      m₂.machine = m₃.machine ∧
      m₂.replica.snapshotIndex =
        (if 2 < 3 ∧ 1000 ≤ m₂.replica.lastIndex - 2 then 3 else 2) ∧
      m₃.replica.snapshotIndex = (if 1000 ≤ m₃.replica.lastIndex - 0 then 3 else 0) ∧
      m₂.replica.AlikeAbove (max m₂.replica.snapshotIndex m₃.replica.snapshotIndex) m₃.replica :=
  have hale : Lagging.member.Hale := ⟨rfl, fun _ _ => rfl⟩
  ⟨hale, Lagging.indexed, Lagging.valued, Lagging.numbered, Lagging.matching,
    image_or_replay hale Lagging.indexed Lagging.valued (by decide) Lagging.numbered (by decide)
      (by decide) Lagging.matching (by decide)
      (show Machine.execute .empty [Lagging.put 1 1 "a"] = .ok ([.done], .ofList [("k", "a")])
        by decide)
      (by decide) (by decide) (by decide) 1 (.ofMillis 0) (.ofMillis 1) (.ofMillis 2)⟩

/-- **A log that is sent whole may be cut.** A member with nothing is sent three entries, and its
log is full: it compacts all of them. If it is sent an image of two and then the third, it keeps
the third. -/
theorem replayed_log_cut : ∃ m₁ m₂ m₃ : Member MemoryDisk, Lagging.newcomer.Hale ∧
    Lagging.history.Indexed ∧ Lagging.history.Valued ∧
    (Lagging.history.above 0).Matches Lagging.newcomer.replica ∧
    Lagging.newcomer.replica.log = [] ∧ Lagging.newcomer.replica.commitIndex = 0 ∧
    Lagging.newcomer.replica.lastApplied = 0 ∧ Lagging.newcomer.replica.term = 0 ∧
    Lagging.newcomer.machine = .empty ∧
    Lagging.newcomer.answerInstall (.ofMillis 0)
        ⟨2, 1, 2, Lagging.history.termAt 2, Image.fold [] (Lagging.history.take 2)⟩ =
      .ok (m₁, .ok (.installReply 2)) ∧
    m₁.answerAppend (.ofMillis 1) ⟨2, 1, 2, Lagging.history.termAt 2, Lagging.history.drop 2, 3⟩ =
      .ok (m₂, .ok (.appendReply 2 true)) ∧
    Lagging.newcomer.answerAppend (.ofMillis 2) ⟨2, 1, 0, 0, Lagging.history, 3⟩ =
      .ok (m₃, .ok (.appendReply 2 true)) ∧
    m₂.replica.entryAt? 3 = some (Lagging.put 2 3 "c") ∧ m₃.replica.entryAt? 3 = none :=
  ⟨_, _, _, ⟨rfl, fun _ _ => rfl⟩, Lagging.indexed, Lagging.valued, Lagging.matching_newcomer, rfl,
    rfl, rfl, rfl, rfl, rfl, rfl, rfl, rfl, rfl⟩

end ReplicatedStore
