import ReplicatedStore.Proofs.CatchingUp
import ReplicatedStore.Proofs.ReplicaRuns
/-!
# Arithmetic that is always checked

The operations of a replica add, subtract and look up without a check where a guard before makes
one needless. `Replica.Checked` has the same operations with every sum, every difference, every cut
and every lookup checked. They never give another result (`Checked.run_eq`), so no difference is
below zero and no place outside a list. What is left are sums that are no words, at the few places
that `Replica.Exceeds` lists: `stops_only_by_overflow`.

A lookup among the holdings of the members is where the members have to be listed properly: with
the own id twice there are fewer holdings than members.
-/
namespace ReplicatedStore

@[simp]
theorem ok_bind {ε α β : Type} (a : α) (f : α → Except ε β) : (Except.ok a >>= f) = f a := rfl

/-- A computation in two parts stops where the first of them does, or else the second. -/
theorem bind_eq_error {ε α β : Type} {x : Except ε α} {f : α → Except ε β} {e : ε} :
    (x >>= f) = .error e ↔ x = .error e ∨ ∃ a, x = .ok a ∧ f a = .error e := by
  cases x <;> simp [bind, Except.bind]

namespace Replica

/-! ## Checked operations -/

namespace Checked

/-- Where an entry of this position stands in the log. -/
def slot (r : Replica) (i : Nat) : Except Fault Nat := do
  let above ← Word.sub i r.snapshotIndex
  Word.sub above 1

def entryAt? (r : Replica) (i : Nat) : Except Fault (Option Entry) :=
  if i ≤ r.snapshotIndex then .ok none else return r.log[← slot r i]?

def termAt (r : Replica) (i : Nat) : Except Fault Nat :=
  if i = 0 then .ok 0
  else if i = r.snapshotIndex then .ok r.snapshotTerm
  else return ((← entryAt? r i).map (·.term)).getD 0

def entriesFrom (r : Replica) (i : Nat) : Except Fault (List Entry) := do
  let first ← Word.add r.snapshotIndex 1
  return r.log.drop (← slot r (max i first))

def window (r : Replica) (next : Nat) (entries : List Entry) : Except Fault AppendRequest := do
  -- the first position has nothing before it, and 0 stands for that
  let prev := next - 1
  return ⟨r.term, r.id, prev, ← termAt r prev, entries, r.commitIndex⟩

def appendRequest? (r : Replica) (peer : NodeId) : Except Fault (Option AppendRequest) :=
  match r.sendable? peer with
  | none => .ok none
  | some next => return some (← window r next (← entriesFrom r next))

def heartbeat? (r : Replica) (peer : NodeId) : Except Fault (Option AppendRequest) :=
  match r.sendable? peer with
  | none => .ok none
  | some next => return some (← window r next [])

/-- Keep so many entries; the log has to have that many. -/
def takeFirst (r : Replica) (n : Nat) : Except Fault Replica :=
  if n ≤ r.log.length then .ok { r with log := r.log.take n } else .error .range

def truncate (r : Replica) (i : Nat) : Except Fault Replica :=
  if r.snapshotIndex < i then do takeFirst r (← slot r i) else .ok r

def anchors (r : Replica) (prevIndex prevTerm : Nat) : Except Fault Bool :=
  if prevIndex ≤ r.snapshotIndex then .ok true
  else if prevIndex ≤ r.lastIndex then return (← termAt r prevIndex) = prevTerm
  else .ok false

def place (r : Replica) (i : Nat) (e : Entry) (change : Option LogChange) :
    Except Fault (Replica × Option LogChange) :=
  if i ≤ r.snapshotIndex then .ok (r, change)
  else do
    match ← entryAt? r i with
    | some held =>
      if held.term = e.term then return (r, change)
      else
        let r ← truncate r i
        return ({ r with log := r.log ++ [{ e with index := i }] }, some .rewritten)
    | none =>
      return ({ r with log := r.log ++ [{ e with index := i }] }, change <|> some (.appended i))

/-- Place entries after a position, from an offset on. -/
def placeAll (r : Replica) (prev offset : Nat) (change : Option LogChange) :
    List Entry → Except Fault (Replica × Option LogChange)
  | [] => .ok (r, change)
  | e :: es => do
    let first ← Word.add prev 1
    let (r, change) ← place r (← Word.add first offset) e change
    placeAll r prev (offset + 1) change es

def takeEntries (r : Replica) (q : AppendRequest) : Except Fault (Replica × AppendOutcome) :=
  if q.term < r.term then .ok (r, ⟨false, false, none, false⟩)
  else do
    let r := r.accept q.term q.leader
    if !(← anchors r q.prevIndex q.prevTerm) then return (r, ⟨false, true, none, false⟩)
    else
      let lastNew ← Word.add q.prevIndex q.entries.length
      let (r, change) ← placeAll r q.prevIndex 0 none q.entries
      let (r, advanced) := r.followCommit q.leaderCommit lastNew
      return (r, ⟨true, true, change, advanced⟩)

def rebase (r : Replica) (lastIndex lastTerm : Nat) : Except Fault Replica := do
  let keeps ←
    if lastIndex ≤ r.lastIndex then do pure (decide ((← termAt r lastIndex) = lastTerm))
    else pure false
  let r ←
    if keeps then do r.dropFirst (← Word.sub lastIndex r.snapshotIndex)
    else pure { r with log := [] }
  return { r with
    snapshotIndex := lastIndex
    snapshotTerm := lastTerm
    commitIndex := lastIndex
    lastApplied := lastIndex }

def takeImage (r : Replica) (term : Nat) (leader : NodeId) (lastIndex lastTerm : Nat) :
    Except Fault (Replica × InstallOutcome) :=
  if term < r.term then .ok (r, ⟨false, false⟩)
  else
    let r := r.accept term leader
    if lastIndex ≤ r.commitIndex then .ok (r, ⟨true, false⟩)
    else return (← rebase r lastIndex lastTerm, ⟨true, true⟩)

def advanceCommit (r : Replica) : Except Fault (Replica × Bool) :=
  if !r.leads then .ok (r, false)
  else do
    match r.holdings[← Word.sub r.quorum 1]? with
    | none => .error .range
    | some i =>
      if r.commitIndex < i then
        if (← termAt r i) = r.term then return ({ r with commitIndex := i }, true)
        else return (r, false)
      else return (r, false)

def recordAppend (r : Replica) (term : Nat) (success : Bool) (sender : NodeId) (lastSent : Nat) :
    Except Fault (Replica × Bool) :=
  if r.term < term then .ok (r.follow term, false)
  else if !r.leads || term < r.term then .ok (r, false)
  else if success then do
    let matched := max ((r.matched.get? sender).getD 0) lastSent
    let next ← Word.add matched 1
    advanceCommit
      { r with matched := r.matched.insert sender matched, next := r.next.insert sender next }
  else do
    let next := (r.next.get? sender).getD 1
    let next ← if 1 < next then Word.sub next 1 else pure next
    return ({ r with next := r.next.insert sender next }, false)

/-- Count up so many positions, each of them looked up; the last one and the entries found. -/
def countUp (r : Replica) (applied : Nat) : Nat → Except Fault (Nat × List Entry)
  | 0 => .ok (applied, [])
  | n + 1 => do
    let applied ← Word.add applied 1
    let fresh ← entryAt? r applied
    let (last, rest) ← countUp r applied n
    return (last, fresh.toList ++ rest)

def takeCommitted (r : Replica) : Except Fault (Replica × List Entry) := do
  let (last, fresh) ← countUp r r.lastApplied (r.commitIndex - r.lastApplied)
  return ({ r with lastApplied := last }, fresh)

def compact (r : Replica) (through : Nat) : Except Fault (Replica × List Entry) :=
  let through := min (min through r.lastApplied) r.lastIndex
  if through ≤ r.snapshotIndex then .ok (r, [])
  else do
    let term ← termAt r through
    let covered ← Word.sub through r.snapshotIndex
    let removed := r.log.take covered
    let r ← r.dropFirst covered
    return ({ r with snapshotIndex := through, snapshotTerm := term }, removed)

/-- What a call makes of the replica. Where it has no sum, difference or lookup that goes unchecked
it is the call itself. -/
def run (r : Replica) : Call → Except Fault Replica
  | .appendRequest peer => do
    let _ ← appendRequest? r peer
    return r
  | .heartbeat peer => do
    let _ ← heartbeat? r peer
    return r
  | .takeEntries q => return (← takeEntries r q).1
  | .recordAppend term success sender lastSent =>
    return (← recordAppend r term success sender lastSent).1
  | .takeImage q => return (← takeImage r q.term q.leader q.lastIndex q.lastTerm).1
  | .recordInstall term sender lastIndex =>
    return (← recordAppend r term true sender lastIndex).1
  | .takeCommitted => return (← takeCommitted r).1
  | .compact through => return (← compact r through).1
  | .advanceCommit => return (← advanceCommit r).1
  | c => r.run c

/-! ## They give the same results -/

variable {r : Replica}

theorem slot_eq {i : Nat} (h : r.snapshotIndex < i) : slot r i = .ok (i - r.snapshotIndex - 1) := by
  have habove : Word.sub i r.snapshotIndex = .ok (i - r.snapshotIndex) :=
    Word.sub_eq_ok_iff.2 ⟨Nat.le_of_lt h, rfl⟩
  rw [slot, habove, ok_bind]
  exact Word.sub_eq_ok_iff.2 ⟨by omega, rfl⟩

@[simp]
theorem entryAt?_eq (r : Replica) (i : Nat) : entryAt? r i = .ok (r.entryAt? i) := by
  unfold entryAt? Replica.entryAt?
  split
  · rfl
  · next h =>
    rw [slot_eq (Nat.lt_of_not_le h)]
    rfl

@[simp]
theorem termAt_eq (r : Replica) (i : Nat) : termAt r i = .ok (r.termAt i) := by
  unfold termAt Replica.termAt
  split
  · rfl
  · split
    · rfl
    · rw [entryAt?_eq]
      rfl

@[simp]
theorem entriesFrom_eq (r : Replica) (i : Nat) : entriesFrom r i = r.entriesFrom i := by
  unfold entriesFrom Replica.entriesFrom
  cases hfirst : Word.add r.snapshotIndex 1 with
  | error f => rfl
  | ok first =>
    obtain ⟨-, rfl⟩ := Word.add_eq_ok_iff.1 hfirst
    rw [ok_bind, ok_bind, slot_eq (by omega)]
    rfl

@[simp]
theorem window_eq (r : Replica) (next : Nat) (entries : List Entry) :
    window r next entries = .ok (r.window next entries) := by
  simp only [window, termAt_eq, ok_bind]
  rfl

theorem appendRequest?_eq (r : Replica) (peer : NodeId) :
    appendRequest? r peer = r.appendRequest? peer := by
  unfold appendRequest? Replica.appendRequest?
  cases r.sendable? peer with
  | none => rfl
  | some next => simp only [entriesFrom_eq, window_eq, ok_bind]

theorem heartbeat?_eq (r : Replica) (peer : NodeId) :
    heartbeat? r peer = .ok (r.heartbeat? peer) := by
  unfold heartbeat? Replica.heartbeat?
  cases r.sendable? peer with
  | none => rfl
  | some next =>
    simp only [window_eq, ok_bind]
    rfl

/-- Nothing is cut behind the end: where an entry is found the log reaches. -/
theorem truncate_eq {i : Nat} {held : Entry} (h : r.entryAt? i = some held) :
    truncate r i = .ok (r.truncate i) := by
  have hlt := lt_of_entryAt? h
  rw [entryAt?_of_lt hlt] at h
  obtain ⟨hlen, -⟩ := List.getElem?_eq_some_iff.1 h
  unfold truncate Replica.truncate
  rw [if_pos hlt, if_pos hlt, slot_eq hlt]
  exact if_pos (Nat.le_of_lt hlen)

@[simp]
theorem anchors_eq (r : Replica) (prevIndex prevTerm : Nat) :
    anchors r prevIndex prevTerm = .ok (r.anchors prevIndex prevTerm) := by
  unfold anchors Replica.anchors
  split
  · next h => simp [h]
  · next h =>
    split
    · next hle =>
      rw [termAt_eq, ok_bind]
      simp [h, hle, pure, Except.pure]
    · next hgt => simp [h, hgt]

theorem place_eq (r : Replica) (i : Nat) (e : Entry) (change : Option LogChange) :
    place r i e change = .ok (r.place i e change) := by
  unfold place Replica.place
  split
  · rfl
  · rw [entryAt?_eq, ok_bind]
    cases hheld : r.entryAt? i with
    | none => rfl
    | some held =>
      simp only
      split
      · rfl
      · rw [truncate_eq hheld]
        rfl

/-- The positions of the entries are words if the last one is. -/
theorem placeAll_eq {es : List Entry} {prev offset : Nat} (change : Option LogChange)
    (h : prev + offset + es.length ≤ maxWord) :
    placeAll r prev offset change es = .ok (r.placeAll (prev + 1 + offset) change es) := by
  induction es generalizing r offset change with
  | nil => rfl
  | cons e es ih =>
    rw [List.length_cons] at h
    have hfirst : Word.add prev 1 = .ok (prev + 1) := Word.add_eq_ok_iff.2 ⟨by omega, rfl⟩
    have hi : Word.add (prev + 1) offset = .ok (prev + 1 + offset) :=
      Word.add_eq_ok_iff.2 ⟨by omega, rfl⟩
    rw [placeAll, hfirst, ok_bind, hi, ok_bind, place_eq, ok_bind, Replica.placeAll]
    exact ih _ (by omega)

theorem takeEntries_eq (r : Replica) (q : AppendRequest) :
    takeEntries r q = r.takeEntries q := by
  unfold takeEntries Replica.takeEntries
  split
  · rfl
  · simp only [anchors_eq, ok_bind]
    split
    · rfl
    · cases hlast : Word.add q.prevIndex q.entries.length with
      | error f => rfl
      | ok lastNew =>
        obtain ⟨hfits, -⟩ := Word.add_eq_ok_iff.1 hlast
        rw [ok_bind, ok_bind, placeAll_eq none (by omega)]
        rfl

theorem rebase_eq (r : Replica) (lastIndex lastTerm : Nat) :
    rebase r lastIndex lastTerm = r.rebase lastIndex lastTerm := by
  unfold rebase Replica.rebase
  by_cases hle : lastIndex ≤ r.lastIndex
  · simp only [termAt_eq, ok_bind, pure_bind, hle, if_true, true_and, decide_eq_true_eq]
  · simp only [hle, if_false, false_and, pure_bind, Bool.false_eq_true]

theorem takeImage_eq (r : Replica) (term : Nat) (leader : NodeId) (lastIndex lastTerm : Nat) :
    takeImage r term leader lastIndex lastTerm = r.takeImage term leader lastIndex lastTerm := by
  simp only [takeImage, Replica.takeImage, rebase_eq]

theorem advanceCommit_eq (r : Replica) : advanceCommit r = r.advanceCommit := by
  have hquorum : Word.sub r.quorum 1 = .ok (r.quorum - 1) :=
    Word.sub_eq_ok_iff.2 ⟨Nat.succ_pos _, rfl⟩
  unfold advanceCommit Replica.advanceCommit
  rw [hquorum, ok_bind]
  cases r.holdings[r.quorum - 1]? with
  | none => rfl
  | some i =>
    by_cases hlt : r.commitIndex < i
    · simp only [termAt_eq, ok_bind, hlt, if_true, true_and]
      rfl
    · simp only [hlt, if_false, false_and]
      rfl

theorem recordAppend_eq (r : Replica) (term : Nat) (success : Bool) (sender : NodeId)
    (lastSent : Nat) :
    recordAppend r term success sender lastSent = r.recordAppend term success sender lastSent := by
  unfold recordAppend Replica.recordAppend
  simp only [advanceCommit_eq]
  by_cases hnext : 1 < (r.next.get? sender).getD 1
  · have hback : Word.sub ((r.next.get? sender).getD 1) 1 =
        .ok ((r.next.get? sender).getD 1 - 1) :=
      Word.sub_eq_ok_iff.2 ⟨Nat.le_of_lt hnext, rfl⟩
    simp only [hnext, if_true, hback, ok_bind]
    rfl
  · simp only [hnext, if_false, pure_bind]
    rfl

/-- The positions counted are words if the last one is. -/
theorem countUp_eq {applied n : Nat} (h : applied + n ≤ maxWord) :
    countUp r applied n =
      .ok (applied + n, (List.range' (applied + 1) n).filterMap r.entryAt?) := by
  induction n generalizing applied with
  | zero => rfl
  | succ n ih =>
    have happlied : Word.add applied 1 = .ok (applied + 1) :=
      Word.add_eq_ok_iff.2 ⟨by omega, rfl⟩
    rw [countUp, happlied, ok_bind, entryAt?_eq, ok_bind, ih (by omega), ok_bind,
      List.range'_succ, List.filterMap_cons, Nat.add_right_comm, Nat.add_assoc]
    cases r.entryAt? (applied + 1) <;> rfl

theorem takeCommitted_eq (h : r.commitIndex ≤ maxWord) (happlied : r.lastApplied ≤ r.commitIndex) :
    takeCommitted r = .ok r.takeCommitted := by
  unfold takeCommitted Replica.takeCommitted
  rw [countUp_eq (by omega), ok_bind, Nat.add_sub_of_le happlied, Nat.max_eq_right happlied]
  rfl

theorem compact_eq (r : Replica) (through : Nat) : compact r through = r.compact through := by
  unfold compact Replica.compact
  simp only
  split
  · rfl
  · next hgt =>
    rw [termAt_eq, ok_bind, Word.sub_eq_ok_iff.2 ⟨Nat.le_of_lt (Nat.lt_of_not_le hgt), rfl⟩,
      ok_bind]

/-- **No check is ever needed** where a replica goes without. -/
theorem run_eq (h : r.commitIndex ≤ maxWord) (happlied : r.lastApplied ≤ r.commitIndex) (c : Call) :
    run r c = r.run c := by
  cases c with
  | appendRequest peer => simp only [run, Replica.run, appendRequest?_eq]
  | heartbeat peer =>
    simp only [run, heartbeat?_eq]
    rfl
  | takeEntries q => simp only [run, Replica.run, takeEntries_eq]
  | recordAppend term success sender lastSent => simp only [run, Replica.run, recordAppend_eq]
  | takeImage q => simp only [run, Replica.run, takeImage_eq]
  | recordInstall term sender lastIndex =>
    simp only [run, Replica.run, recordAppend_eq, Replica.recordInstall]
  | takeCommitted =>
    simp only [run, takeCommitted_eq h happlied]
    rfl
  | compact through => simp only [run, Replica.run, compact_eq]
  | advanceCommit => simp only [run, Replica.run, advanceCommit_eq]
  | _ => rfl

end Checked

/-! ## Positions that are words -/

/-- The position of an image, which becomes the base of the log, is a word. All other numbers of a
call may be of any size. -/
def Call.Fits : Call → Prop
  | .takeImage q => q.lastIndex ≤ maxWord
  | _ => True

/-- What is committed, and what peers are taken to hold, are words. -/
structure Bounded (r : Replica) : Prop where
  commit : r.commitIndex ≤ maxWord
  matched : ∀ p k, r.matched.get? p = some k → k ≤ maxWord

variable {r r' : Replica}

theorem Sourced.lastIndex_le (h : r.Sourced Entry.Placeable) (hbase : r.snapshotIndex ≤ maxWord) :
    r.lastIndex ≤ maxWord := by
  unfold lastIndex
  cases hlast : r.log.getLast? with
  | none => exact hbase
  | some e => exact h.all e (List.mem_of_getLast? hlast)

/-- The log of a replica ends at a word. -/
theorem Regular.lastIndex_le (h : r.Regular) (hcommit : r.commitIndex ≤ maxWord) :
    r.lastIndex ≤ maxWord :=
  h.sourced.lastIndex_le (h.applied.trans (h.committed.trans hcommit))

/-- A leader whose entries were taken notes how far, and commits what it can. -/
theorem recordAppend_taken_eq (hrole : r.role = .leader) (sender : NodeId) (lastSent : Nat) :
    r.recordAppend r.term true sender lastSent =
      (Word.add (max ((r.matched.get? sender).getD 0) lastSent) 1 >>= fun _ =>
        (r.answered true sender lastSent).advanceCommit) := by
  have hleads : r.leads = true := decide_eq_true hrole
  simp only [recordAppend, Nat.lt_irrefl, hleads, if_false, if_true, decide_false, Bool.not_true,
    Bool.or_self, Bool.false_eq_true]
  cases hnext : Word.add (max ((r.matched.get? sender).getD 0) lastSent) 1 with
  | error f => rfl
  | ok next =>
    obtain ⟨-, rfl⟩ := Word.add_eq_ok_iff.1 hnext
    rfl

namespace Bounded

theorem of_empty (hcommit : r.commitIndex ≤ maxWord) (hmatched : r.matched = .empty) :
    r.Bounded := by
  refine ⟨hcommit, fun p k hk => ?_⟩
  rw [hmatched, Table.get?_empty] at hk
  cases hk

theorem follow (h : r.Bounded) (term : Nat) : (r.follow term).Bounded :=
  .of_empty ((sameLog_follow r term).commit ▸ h.commit) rfl

theorem accept (h : r.Bounded) (term : Nat) (leader : NodeId) : (r.accept term leader).Bounded := by
  unfold Replica.accept
  split
  · exact ⟨(h.follow term).commit, (h.follow term).matched⟩
  · exact ⟨h.commit, h.matched⟩

theorem lead (run : r.lead = .ok r') (h : r.commitIndex ≤ maxWord) : r'.Bounded := by
  obtain ⟨next, -, run⟩ := bind_eq_ok.1 run
  cases run
  refine ⟨h, fun p k hk => ?_⟩
  obtain ⟨u, -, heq⟩ := List.mem_map.1 (Table.mem_of_get?_ofList hk)
  cases heq
  exact Nat.zero_le _

theorem campaign (h : r.Bounded) {q : VoteRequest} (run : r.campaign = .ok (r', q)) :
    r'.Bounded := by
  obtain ⟨term, -, run⟩ := bind_eq_ok.1 run
  simp only at run
  split at run
  · obtain ⟨r₁, hlead, run⟩ := bind_eq_ok.1 run
    cases run
    exact lead hlead h.commit
  · cases run
    exact .of_empty h.commit rfl

theorem answerVote (h : r.Bounded) (q : VoteRequest) : (r.answerVote q).1.Bounded := by
  have hfollow : (if r.term < q.term then r.follow q.term else r).Bounded := by
    split
    · exact h.follow q.term
    · exact h
  simp only [Replica.answerVote]
  split
  · exact h
  · generalize (if r.term < q.term then r.follow q.term else r) = r₁ at hfollow ⊢
    split
    · exact ⟨hfollow.commit, hfollow.matched⟩
    · exact hfollow

theorem countVote (h : r.Bounded) {term : Nat} {granted won : Bool} {sender : NodeId}
    (run : r.countVote term granted sender = .ok (r', won)) : r'.Bounded := by
  have hvotes : (if sender ∈ r.votes then r else
      { r with votes := r.votes ++ [sender] } : Replica).Bounded := by
    split
    · exact h
    · exact ⟨h.commit, h.matched⟩
  unfold Replica.countVote at run
  split at run
  · cases run
    exact h.follow term
  · split at run
    · cases run
      exact h
    · generalize (if sender ∈ r.votes then r else { r with votes := r.votes ++ [sender] }) = r₁
        at run hvotes
      simp only at run
      split at run
      · obtain ⟨r₂, hlead, run⟩ := bind_eq_ok.1 run
        cases run
        exact lead hlead hvotes.commit
      · cases run
        exact hvotes

theorem takeEntries (h : r.Bounded) {q : AppendRequest} {o : AppendOutcome} (hr : r.Regular)
    (run : r.takeEntries q = .ok (r', o)) : r'.Bounded := by
  have ha := h.accept q.term q.leader
  have hr' := hr.takeEntries run
  obtain rfl | ⟨log, commit, rfl, -, hcommit⟩ := exists_takeEntries run
  · exact h
  · -- the new commit index is not beyond the end of the log
    have hbase : (r.accept q.term q.leader).snapshotIndex ≤ maxWord := by
      rw [(sameLog_accept r q.term q.leader).base]
      exact hr.applied.trans (hr.committed.trans h.commit)
    exact ⟨hcommit.trans (Nat.max_le.2 ⟨h.commit, hr'.sourced.lastIndex_le hbase⟩), ha.matched⟩

/-- What a member is known to hold ends at a word. -/
theorem le_of_mem_holdings (h : r.Bounded) (hr : r.Regular) {i : Nat} (hi : i ∈ r.holdings) :
    i ≤ maxWord := by
  obtain ⟨u, -, rfl⟩ := List.mem_map.1 (r.holdings_perm.mem_iff.1 hi)
  unfold holding
  split
  · exact hr.lastIndex_le h.commit
  · cases hu : r.matched.get? u with
    | none => exact Nat.zero_le _
    | some k => exact h.matched u k hu

theorem advanceCommit (h : r.Bounded) (hr : r.Regular) {advanced : Bool}
    (run : r.advanceCommit = .ok (r', advanced)) : r'.Bounded := by
  rcases advanceCommit_spec run with ⟨rfl, -⟩ | ⟨-, -, i, hi, -, -, rfl⟩
  · exact h
  · exact ⟨h.le_of_mem_holdings hr (List.mem_of_getElem? hi), h.matched⟩

/-- What a peer is taken to hold has a word after it. -/
theorem answered (h : r.Bounded) {success : Bool} {sender : NodeId} {lastSent : Nat}
    (hfits : success = true → max ((r.matched.get? sender).getD 0) lastSent < maxWord) :
    (r.answered success sender lastSent).Bounded := by
  unfold Replica.answered
  split
  · next hsuccess =>
    refine ⟨h.commit, fun p k hk => ?_⟩
    rw [Table.get?_insert] at hk
    split at hk
    · cases hk
      exact Nat.le_of_lt (hfits hsuccess)
    · exact h.matched p k hk
  · exact ⟨h.commit, h.matched⟩

theorem recordAppend (h : r.Bounded) (hr : r.Regular) {term lastSent : Nat}
    {success advanced : Bool} {sender : NodeId}
    (run : r.recordAppend term success sender lastSent = .ok (r', advanced)) : r'.Bounded := by
  have hsame := sameLog_answered r success sender lastSent
  rcases recordAppend_spec run with ⟨-, rfl, -⟩ | ⟨rfl, -⟩ |
    ⟨hrole, hterm, ⟨hsuccess, hadv⟩ | ⟨hrefused, rfl, -⟩⟩
  · exact h.follow term
  · exact h
  · refine (h.answered fun _ => ?_).advanceCommit (hr.of_sameLog hsame) hadv
    subst hterm hsuccess
    rw [recordAppend_taken_eq hrole] at run
    obtain ⟨next, hnext, -⟩ := bind_eq_ok.1 run
    have hfits := (Word.add_eq_ok_iff.1 hnext).1
    omega
  · exact h.answered fun hsuccess => nomatch hrefused.symm.trans hsuccess

theorem takeImage (h : r.Bounded) {term lastIndex lastTerm : Nat} {leader : NodeId}
    {o : InstallOutcome} (hfits : lastIndex ≤ maxWord)
    (run : r.takeImage term leader lastIndex lastTerm = .ok (r', o)) : r'.Bounded := by
  have ha := h.accept term leader
  rcases Member.takeImage_cases run with ⟨-, rfl, -⟩ | ⟨-, -, rfl, -⟩ | ⟨-, -, hre, -⟩
  · exact h
  · exact ha
  · obtain ⟨log, rfl⟩ := exists_rebase hre
    exact ⟨hfits, ha.matched⟩

/-- **A call whose numbers fit changes nothing about it.** -/
theorem run (h : r.Bounded) (hr : r.Regular) {c : Call} (hc : c.Fits) (run : r.run c = .ok r') :
    r'.Bounded := by
  cases ran_of_run run with
  | campaign hcampaign => exact h.campaign hcampaign
  | lead hlead => exact lead hlead h.commit
  | follow term => exact h.follow term
  | answerVote q => exact h.answerVote q
  | countVote hcount => exact h.countVote hcount
  | proposed hpropose =>
    obtain ⟨-, -, -, -, rfl⟩ := hr.sourced.propose hpropose
    exact ⟨h.commit, h.matched⟩
  | declined | appendRequest | heartbeat | installRequest => exact h
  | takeEntries htake => exact h.takeEntries hr htake
  | recordAppend hrecord => exact h.recordAppend hr hrecord
  | takeImage htake => exact h.takeImage hc htake
  | recordInstall hrecord => exact h.recordAppend hr hrecord
  | takeCommitted => exact ⟨h.commit, h.matched⟩
  | compact hcompact =>
    obtain ⟨-, rfl⟩ | ⟨-, n, -, -, -, rfl⟩ := hr.sourced.compact_cases hcompact
    · exact h
    · exact ⟨h.commit, h.matched⟩
  | advanceCommit hadvance => exact h.advanceCommit hr hadvance

end Bounded

/-! ## Recovery -/

/-- Recovery commits nothing beyond an image and the log, and no peer has answered yet. -/
theorem Recovered.bounded {id : NodeId} {members : List NodeId} {config : Config} {imaged : Bool}
    (h : Recovered id members config imaged r) : r.commitIndex ≤ maxWord ∧ r.matched = .empty := by
  induction h with
  | created => exact ⟨Nat.zero_le _, rfl⟩
  | ballot _ _ ih => exact ih
  | image lastIndex lastTerm hfits _ ih => exact ⟨Nat.max_le.2 ⟨ih.1, hfits⟩, ih.2⟩
  | entries es n hload hprevious ih =>
    obtain ⟨-, log, rfl⟩ := loadLog_placeable hprevious.regular.1.sourced hload
    exact ih
  | commit commit hprevious ih =>
    have hlast := hprevious.regular.1.lastIndex_le ih.1
    exact ⟨Nat.max_le.2 ⟨ih.1, (Nat.min_le_right _ _).trans hlast⟩, ih.2⟩

section Reaching

variable {id : NodeId} {members : List NodeId} {config : Config}

theorem Reached.bounded (h : Reached id members config (fun _ c => c.Fits) r) : r.Bounded := by
  induction h with
  | recovered h => exact .of_empty h.bounded.1 h.bounded.2
  | call hr hfits hrun ih => exact ih.run hr.regular hfits hrun

/-- A member that the cluster list names once at most is not added to it a second time. -/
theorem count_create (h : members.count id ≤ 1) :
    (create id members config).members.count id ≤ 1 := by
  unfold create
  simp only
  split
  · exact h
  · next hnot => simp [List.count_eq_zero_of_not_mem hnot]

end Reaching

/-! ## Where a call can stop -/

/-- Where a call adds one to a term or to a position, or the number of its entries to the position
before them, and the sum is no word. -/
def Exceeds (r : Replica) : Call → Prop
  | .campaign => maxWord < r.term + 1 ∨ maxWord < r.lastIndex + 1
  | .lead => maxWord < r.lastIndex + 1
  | .countVote _ _ _ => maxWord < r.lastIndex + 1
  | .propose _ => maxWord < r.lastIndex + 1
  | .appendRequest _ => maxWord < r.snapshotIndex + 1
  | .takeEntries q => maxWord < q.prevIndex + q.entries.length
  | .recordAppend _ _ sender lastSent =>
    maxWord < max ((r.matched.get? sender).getD 0) lastSent + 1
  | .recordInstall _ sender lastIndex =>
    maxWord < max ((r.matched.get? sender).getD 0) lastIndex + 1
  | _ => False

variable {f : Fault}

theorem add_stops {a b : Nat} (run : Word.add a b = .error f) :
    f = .overflow ∧ maxWord < a + b := by
  obtain ⟨hnot, rfl⟩ := Word.add_eq_error_iff.1 run
  exact ⟨rfl, Nat.not_le.1 hnot⟩

theorem return_stops {α β : Type} {x : Except Fault α} {g : α → β}
    (run : (do return g (← x)) = .error f) : x = .error f := by
  rcases bind_eq_error.1 run with h | ⟨a, -, h⟩
  · exact h
  · cases h

theorem lead_stops (run : r.lead = .error f) : f = .overflow ∧ maxWord < r.lastIndex + 1 := by
  rcases bind_eq_error.1 run with h | ⟨a, -, h⟩
  · exact add_stops h
  · cases h

theorem campaign_stops (run : r.campaign = .error f) :
    f = .overflow ∧ (maxWord < r.term + 1 ∨ maxWord < r.lastIndex + 1) := by
  rcases bind_eq_error.1 run with h | ⟨term, -, h⟩
  · exact ⟨(add_stops h).1, .inl (add_stops h).2⟩
  · simp only at h
    split at h
    · obtain ⟨hf, hlast⟩ := lead_stops (return_stops h)
      exact ⟨hf, .inr hlast⟩
    · cases h

theorem countVote_stops {term : Nat} {granted : Bool} {sender : NodeId}
    (run : r.countVote term granted sender = .error f) :
    f = .overflow ∧ maxWord < r.lastIndex + 1 := by
  have hlast : (if sender ∈ r.votes then r else
      { r with votes := r.votes ++ [sender] } : Replica).lastIndex = r.lastIndex := by
    split <;> rfl
  unfold countVote at run
  split at run
  · cases run
  · split at run
    · cases run
    · generalize (if sender ∈ r.votes then r else { r with votes := r.votes ++ [sender] }) = r₁
        at run hlast
      simp only at run
      split at run
      · exact hlast ▸ lead_stops (return_stops run)
      · cases run

theorem propose_stops {command : Command} (run : r.propose command = .error f) :
    f = .overflow ∧ maxWord < r.lastIndex + 1 := by
  unfold propose at run
  split at run
  · cases run
  · exact add_stops (return_stops run)

theorem appendRequest?_stops {peer : NodeId} (run : r.appendRequest? peer = .error f) :
    f = .overflow ∧ maxWord < r.snapshotIndex + 1 := by
  unfold appendRequest? at run
  split at run
  · cases run
  · exact add_stops (return_stops (return_stops run))

theorem takeEntries_stops {q : AppendRequest} (run : r.takeEntries q = .error f) :
    f = .overflow ∧ maxWord < q.prevIndex + q.entries.length := by
  unfold takeEntries at run
  split at run
  · cases run
  · simp only at run
    split at run
    · cases run
    · rcases bind_eq_error.1 run with h | ⟨lastNew, -, h⟩
      · exact add_stops h
      · cases h

/-- What an image covers of the log is inside the log. -/
theorem Regular.rebase_goes (h : r.Regular) {lastIndex : Nat} (hlt : r.commitIndex < lastIndex)
    (lastTerm : Nat) : r.rebase lastIndex lastTerm ≠ .error f := by
  have hlast := h.sourced.lastIndex_eq
  have hbase := h.applied.trans h.committed
  have hcovered : Word.sub lastIndex r.snapshotIndex = .ok (lastIndex - r.snapshotIndex) :=
    Word.sub_eq_ok_iff.2 ⟨by omega, rfl⟩
  intro run
  unfold Replica.rebase at run
  simp only at run
  split at run
  · rw [hcovered, ok_bind, dropFirst, if_pos (by omega)] at run
    cases run
  · cases run

theorem Regular.takeImage_goes (h : r.Regular) (term : Nat) (leader : NodeId)
    (lastIndex lastTerm : Nat) : r.takeImage term leader lastIndex lastTerm ≠ .error f := by
  intro run
  unfold Replica.takeImage at run
  split at run
  · cases run
  · simp only at run
    split at run
    · cases run
    · next hlt =>
      have ha := h.of_sameLog (sameLog_accept r term leader)
      exact ha.rebase_goes (Nat.lt_of_not_le hlt) lastTerm (return_stops run)

/-- What is compacted is inside the log. -/
theorem Regular.compact_goes (h : r.Regular) (through : Nat) : r.compact through ≠ .error f := by
  have hlast := h.sourced.lastIndex_eq
  intro run
  unfold Replica.compact at run
  simp only at run
  split at run
  · cases run
  · have hstop := return_stops run
    rw [dropFirst, if_pos (by omega)] at hstop
    cases hstop

/-- The place of the quorum is among the holdings. -/
theorem advanceCommit_goes (h : r.members.count r.id ≤ 1) : r.advanceCommit ≠ .error f := by
  obtain ⟨commit, advanced, hrun⟩ := exists_advanceCommit h
  rw [hrun]
  nofun

theorem recordAppend_stops (honce : r.members.count r.id ≤ 1) {term lastSent : Nat}
    {success : Bool} {sender : NodeId}
    (run : r.recordAppend term success sender lastSent = .error f) :
    f = .overflow ∧ maxWord < max ((r.matched.get? sender).getD 0) lastSent + 1 := by
  unfold recordAppend at run
  split at run
  · cases run
  · split at run
    · cases run
    · split at run
      · rcases bind_eq_error.1 run with h | ⟨next, -, h⟩
        · exact add_stops h
        · exact absurd h (advanceCommit_goes honce)
      · cases run

/-- **A call stops only where a sum is no word.** -/
theorem Regular.run_stops (h : r.Regular) (honce : r.members.count r.id ≤ 1) {c : Call}
    (run : r.run c = .error f) : f = .overflow ∧ r.Exceeds c := by
  cases c with
  | campaign => exact campaign_stops (return_stops run)
  | lead => exact lead_stops run
  | follow | answerVote | heartbeat | installRequest | takeCommitted => cases run
  | countVote term granted sender => exact countVote_stops (return_stops run)
  | propose command => exact propose_stops (return_stops run)
  | appendRequest peer => exact appendRequest?_stops (return_stops run)
  | takeEntries q => exact takeEntries_stops (return_stops run)
  | recordAppend term success sender lastSent => exact recordAppend_stops honce (return_stops run)
  | takeImage q => exact absurd (return_stops run) (h.takeImage_goes _ _ _ _)
  | recordInstall term sender lastIndex => exact recordAppend_stops honce (return_stops run)
  | compact through => exact absurd (return_stops run) (h.compact_goes through)
  | advanceCommit => exact absurd (return_stops run) (advanceCommit_goes honce)

/-- **Only sums can stop a replica.** Let the cluster list name a member once at most, and let its
replica be recovered from any disk and asked anything since. A call with every sum, difference, cut
and lookup checked does the same as the call itself. If it stops, a sum is the reason: one added to
a term or to a position, or the number of its entries to the position before them, is no word. -/
theorem stops_only_by_overflow {id : NodeId} {members : List NodeId} {config : Config}
    (honce : members.count id ≤ 1) (h : Reached id members config (fun _ c => c.Fits) r)
    (c : Call) :
    Checked.run r c = r.run c ∧ ∀ f, r.run c = .error f → f = .overflow ∧ r.Exceeds c := by
  have hsame := h.sameMember
  have hlisted : r.members.count r.id ≤ 1 := by
    rw [hsame.members, hsame.id]
    exact count_create honce
  exact ⟨Checked.run_eq h.bounded.commit h.regular.committed c,
    fun f run => h.regular.run_stops hlisted run⟩

/-- A member of the last term cannot campaign for the next one. -/
theorem stops_only_by_overflow_last_term :
    ((create 1 [1, 2] {}).withBallot ⟨maxWord, none⟩).run .campaign = .error .overflow ∧
    ((create 1 [1, 2] {}).withBallot ⟨maxWord, none⟩).Exceeds .campaign := by
  have hr : Reached 1 [1, 2] {} (fun _ c => c.Fits)
      ((create 1 [1, 2] {}).withBallot ⟨maxWord, none⟩) :=
    .recovered (.ballot ⟨maxWord, none⟩ .created)
  have hrun : ((create 1 [1, 2] {}).withBallot ⟨maxWord, none⟩).run .campaign =
      .error .overflow := by rfl
  exact ⟨hrun, ((stops_only_by_overflow (by decide) hr .campaign).2 _ hrun).2⟩

/-- A member that is listed twice looks for the quorum behind its holdings. -/
example : (create 1 [1, 1] {}).runAll [.lead, .advanceCommit] = .error .range := by
  decide +kernel

end Replica

end ReplicatedStore
