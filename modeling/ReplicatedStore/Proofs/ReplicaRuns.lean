import ReplicatedStore.Proofs.BackedMembers
/-!
# Runs of a replica

What becomes of a replica that is recovered from any disk and asked anything after that, whoever
asks and whatever for. `Replica.Call` lists what can be asked, `Replica.Recovered` and
`Replica.Reached` what a replica can be.

Every position is looked up relative to the base of the log, so the log has to stand in line after
its base, and the base must not pass what is applied, nor that what is committed
(`Replica.Regular`). Recovery ends so, and no call changes it: `positions_in_line`.
-/
namespace ReplicatedStore

/-- Above a position of a line stands the rest of it. -/
theorem Lined.filter_eq_drop {base n : Nat} {es : List Entry} (h : Lined base es) (hn : base ≤ n) :
    es.filter (n < ·.index) = es.drop (n - base) := by
  induction es generalizing base with
  | nil => simp
  | cons e es ih =>
    obtain ⟨he, hes⟩ := h.tail
    rcases Nat.eq_or_lt_of_le hn with rfl | hlt
    · rw [Nat.sub_self, List.drop_zero, List.filter_eq_self]
      intro e' he'
      obtain ⟨k, hk⟩ := List.getElem?_of_mem he'
      have hindex := h k e' hk
      rw [decide_eq_true_eq]
      omega
    · rw [List.filter_cons_of_neg (by simp; omega), ih hes hlt,
        show n - base = n - (base + 1) + 1 by omega, List.drop_succ_cons]

namespace Replica

/-! ## Calls -/

/-- What a replica can be asked at run time. -/
inductive Call where
  | campaign
  | lead
  | follow (term : Nat)
  | answerVote (q : VoteRequest)
  | countVote (term : Nat) (granted : Bool) (sender : NodeId)
  | propose (command : Command)
  | appendRequest (peer : NodeId)
  | heartbeat (peer : NodeId)
  | installRequest (entries : List Entry) (lastIndex lastTerm : Nat)
  | takeEntries (q : AppendRequest)
  | recordAppend (term : Nat) (success : Bool) (sender : NodeId) (lastSent : Nat)
  | takeImage (q : InstallRequest)
  | recordInstall (term : Nat) (sender : NodeId) (lastIndex : Nat)
  | takeCommitted
  | compact (through : Nat)
  | advanceCommit
  deriving DecidableEq, Repr

/-- What a call makes of the replica; what it answers is left out. -/
def run (r : Replica) : Call → Except Fault Replica
  | .campaign => return (← r.campaign).1
  | .lead => r.lead
  | .follow term => return r.follow term
  | .answerVote q => return (r.answerVote q).1
  | .countVote term granted sender => return (← r.countVote term granted sender).1
  | .propose command => return ((← r.propose command).map (·.1)).getD r
  | .appendRequest peer => do
    let _ ← r.appendRequest? peer
    return r
  | .heartbeat _ => return r
  | .installRequest _ _ _ => return r
  | .takeEntries q => return (← r.takeEntries q).1
  | .recordAppend term success sender lastSent =>
    return (← r.recordAppend term success sender lastSent).1
  | .takeImage q => return (← r.takeImage q.term q.leader q.lastIndex q.lastTerm).1
  | .recordInstall term sender lastIndex => return (← r.recordInstall term sender lastIndex).1
  | .takeCommitted => return r.takeCommitted.1
  | .compact through => return (← r.compact through).1
  | .advanceCommit => return (← r.advanceCommit).1

/-- What a call that does not stop in the middle has done. -/
inductive Ran (r : Replica) : Call → Replica → Prop
  | campaign {r' : Replica} {q : VoteRequest} : r.campaign = .ok (r', q) → Ran r .campaign r'
  | lead {r' : Replica} : r.lead = .ok r' → Ran r .lead r'
  | follow (term : Nat) : Ran r (.follow term) (r.follow term)
  | answerVote (q : VoteRequest) : Ran r (.answerVote q) (r.answerVote q).1
  | countVote {r' : Replica} {term : Nat} {granted won : Bool} {sender : NodeId} :
      r.countVote term granted sender = .ok (r', won) → Ran r (.countVote term granted sender) r'
  | declined {command : Command} : r.propose command = .ok none → Ran r (.propose command) r
  | proposed {r' : Replica} {command : Command} {e : Entry} :
      r.propose command = .ok (some (r', e)) → Ran r (.propose command) r'
  | appendRequest {peer : NodeId} {q : Option AppendRequest} :
      r.appendRequest? peer = .ok q → Ran r (.appendRequest peer) r
  | heartbeat (peer : NodeId) : Ran r (.heartbeat peer) r
  | installRequest (entries : List Entry) (lastIndex lastTerm : Nat) :
      Ran r (.installRequest entries lastIndex lastTerm) r
  | takeEntries {r' : Replica} {q : AppendRequest} {o : AppendOutcome} :
      r.takeEntries q = .ok (r', o) → Ran r (.takeEntries q) r'
  | recordAppend {r' : Replica} {term lastSent : Nat} {success advanced : Bool} {sender : NodeId} :
      r.recordAppend term success sender lastSent = .ok (r', advanced) →
        Ran r (.recordAppend term success sender lastSent) r'
  | takeImage {r' : Replica} {q : InstallRequest} {o : InstallOutcome} :
      r.takeImage q.term q.leader q.lastIndex q.lastTerm = .ok (r', o) → Ran r (.takeImage q) r'
  | recordInstall {r' : Replica} {term lastIndex : Nat} {advanced : Bool} {sender : NodeId} :
      r.recordAppend term true sender lastIndex = .ok (r', advanced) →
        Ran r (.recordInstall term sender lastIndex) r'
  | takeCommitted : Ran r .takeCommitted r.takeCommitted.1
  | compact {r' : Replica} {through : Nat} {removed : List Entry} :
      r.compact through = .ok (r', removed) → Ran r (.compact through) r'
  | advanceCommit {r' : Replica} {advanced : Bool} :
      r.advanceCommit = .ok (r', advanced) → Ran r .advanceCommit r'

theorem ran_of_run {r r' : Replica} {c : Call} (run : r.run c = .ok r') : Ran r c r' := by
  cases c with
  | lead => exact .lead run
  | follow | answerVote | heartbeat | installRequest | takeCommitted =>
    cases run
    constructor
  | propose command =>
    obtain ⟨p, hp, hret⟩ := bind_eq_ok.1 run
    cases hret
    cases p with
    | none => exact .declined hp
    | some p => exact .proposed hp
  | campaign | countVote | appendRequest | takeEntries | recordAppend | takeImage | recordInstall
  | compact | advanceCommit =>
    obtain ⟨p, hp, hret⟩ := bind_eq_ok.1 run
    cases hret
    constructor
    exact hp

/-- What calls make of the replica, one after another. -/
def runAll (r : Replica) (cs : List Call) : Except Fault Replica := cs.foldlM run r

/-! ## Replicas that can be reached -/

section Reaching

variable (id : NodeId) (members : List NodeId) (config : Config)

/-- A new replica that has taken over what some disk holds, in any order, but no more than one
image; the flag tells whether there was one. -/
inductive Recovered : Bool → Replica → Prop
  | created : Recovered false (create id members config)
  | ballot {imaged : Bool} {r : Replica} (b : Ballot) :
      Recovered imaged r → Recovered imaged (r.withBallot b)
  | image {r : Replica} (lastIndex lastTerm : Nat) : lastIndex ≤ maxWord →
      Recovered false r → Recovered true (r.restoreBase lastIndex lastTerm)
  | entries {imaged : Bool} {r r' : Replica} (es : List Entry) (n : Nat) :
      r.loadLog 0 es = .ok (r', n) → Recovered imaged r → Recovered imaged r'
  | commit {imaged : Bool} {r : Replica} (commit : Nat) :
      Recovered imaged r → Recovered imaged (r.restoreCommit commit)

/-- A recovered replica after any number of calls, each of them allowed where it is made. A call
that stops in the middle, on a sum that is no word, leads nowhere. -/
inductive Reached (Allowed : Replica → Call → Prop) : Replica → Prop
  | recovered {imaged : Bool} {r : Replica} :
      Recovered id members config imaged r → Reached Allowed r
  | call {r r' : Replica} {c : Call} :
      Reached Allowed r → Allowed r c → r.run c = .ok r' → Reached Allowed r'

end Reaching

variable {id : NodeId} {members : List NodeId} {config : Config}
variable {Allowed : Replica → Call → Prop} {r r' : Replica}

theorem Reached.runAll {cs : List Call} (h : Reached id members config Allowed r)
    (hallowed : ∀ c ∈ cs, ∀ r, Allowed r c) (hr : r.runAll cs = .ok r') :
    Reached id members config Allowed r' := by
  induction cs generalizing r with
  | nil =>
    cases hr
    exact h
  | cons c cs ih =>
    rw [Replica.runAll, List.foldlM_cons] at hr
    obtain ⟨r₁, hc, hr⟩ := bind_eq_ok.1 hr
    exact ih (.call h (hallowed c List.mem_cons_self r) hc)
      (fun c' hc' => hallowed c' (List.mem_cons_of_mem _ hc')) hr

/-! ## What every call keeps -/

/-- The log stands in line after its base, at positions that are words. What the base covers is
applied, and what is applied is committed. -/
structure Regular (r : Replica) : Prop where
  sourced : r.Sourced Entry.Placeable
  applied : r.snapshotIndex ≤ r.lastApplied
  committed : r.lastApplied ≤ r.commitIndex

/-- An append request changes at most the part of the member, its log and the commit index, which
moves up inside the log. -/
theorem exists_takeEntries {q : AppendRequest} {o : AppendOutcome}
    (run : r.takeEntries q = .ok (r', o)) :
    r' = r ∨ ∃ log commit,
      r' = { r.accept q.term q.leader with log := log, commitIndex := commit } ∧
        r.commitIndex ≤ commit ∧ commit ≤ max r.commitIndex r'.lastIndex := by
  have hs := sameLog_accept r q.term q.leader
  rcases takeEntries_cases run with ⟨-, rfl, -⟩ | ⟨-, rfl, -⟩ |
    ⟨-, -, -, r₁, change, advanced, hplaced, hfollowed, -⟩
  · exact .inl rfl
  · have hsame := hs.commit
    exact .inr ⟨_, _, rfl, hsame.ge, hsame.le.trans (Nat.le_max_left _ _)⟩
  · obtain ⟨log, hlog⟩ := (r.accept q.term q.leader).exists_placeAll (q.prevIndex + 1) none
      q.entries
    obtain ⟨⟨commit, hfollow⟩, -⟩ := followCommit_spec r₁ q.leaderCommit
      (q.prevIndex + q.entries.length)
    have hmoved := followCommit_le r₁ q.leaderCommit (q.prevIndex + q.entries.length)
    rw [hplaced] at hlog
    rw [hfollowed] at hfollow hmoved
    obtain rfl : r₁ = { r.accept q.term q.leader with log := log } := hlog
    obtain rfl : r' = { r.accept q.term q.leader with log := log, commitIndex := commit } := hfollow
    rw [← hs.commit]
    exact .inr ⟨log, commit, rfl, hmoved⟩

namespace Regular

theorem of_sameLog (h : r.Regular) (hs : SameLog r r') : r'.Regular where
  sourced := h.sourced.of_sameLog hs
  applied := by rw [hs.base, hs.applied]; exact h.applied
  committed := by rw [hs.applied, hs.commit]; exact h.committed

theorem advanceCommit (h : r.Regular) {advanced : Bool}
    (run : r.advanceCommit = .ok (r', advanced)) : r'.Regular := by
  rcases advanceCommit_spec run with ⟨rfl, -⟩ | ⟨-, -, i, -, hlt, -, rfl⟩
  · exact h
  · exact ⟨h.sourced.congr rfl rfl, h.applied, Nat.le_trans h.committed (Nat.le_of_lt hlt)⟩

theorem recordAppend (h : r.Regular) {term lastSent : Nat} {success advanced : Bool}
    {sender : NodeId} (run : r.recordAppend term success sender lastSent = .ok (r', advanced)) :
    r'.Regular := by
  have ha := h.of_sameLog (sameLog_answered r success sender lastSent)
  rcases recordAppend_spec run with ⟨-, rfl, -⟩ | ⟨rfl, -⟩ | ⟨-, -, ⟨-, hadv⟩ | ⟨-, rfl, -⟩⟩
  · exact h.of_sameLog (sameLog_follow r term)
  · exact h
  · exact ha.advanceCommit hadv
  · exact ha

theorem takeEntries (h : r.Regular) {q : AppendRequest} {o : AppendOutcome}
    (run : r.takeEntries q = .ok (r', o)) : r'.Regular := by
  have ha := h.of_sameLog (sameLog_accept r q.term q.leader)
  have hsourced := (h.sourced.takeAny run).sourced
  obtain rfl | ⟨log, commit, rfl, hcommit, -⟩ := exists_takeEntries run
  · exact h
  · rw [← (sameLog_accept r q.term q.leader).commit] at hcommit
    exact ⟨hsourced, ha.applied, ha.committed.trans hcommit⟩

theorem takeImage (h : r.Regular) {term lastIndex lastTerm : Nat} {leader : NodeId}
    {o : InstallOutcome} (run : r.takeImage term leader lastIndex lastTerm = .ok (r', o)) :
    r'.Regular := by
  have hs := h.sourced.takeImage run
  rcases Member.takeImage_cases run with ⟨-, rfl, -⟩ | ⟨-, -, rfl, -⟩ | ⟨-, -, hre, -⟩
  · exact h
  · exact h.of_sameLog (sameLog_accept r term leader)
  · obtain ⟨log, rfl⟩ := exists_rebase hre
    exact ⟨hs, Nat.le_refl _, Nat.le_refl _⟩

theorem compact (h : r.Regular) {through : Nat} {removed : List Entry}
    (run : r.compact through = .ok (r', removed)) : r'.Regular := by
  have hs := h.sourced.compact run
  obtain ⟨-, rfl⟩ | ⟨-, n, -, -, hn, rfl⟩ := h.sourced.compact_cases run
  · exact h
  · exact ⟨hs, hn, h.committed⟩

theorem propose (h : r.Regular) {command : Command} {e : Entry}
    (run : r.propose command = .ok (some (r', e))) : r'.Regular := by
  obtain ⟨hs, -, -, -, rfl⟩ := h.sourced.propose run
  exact ⟨hs, h.applied, h.committed⟩

theorem takeCommitted (h : r.Regular) : r.takeCommitted.1.Regular where
  sourced := h.sourced.congr rfl rfl
  applied := Nat.le_trans h.applied (Nat.le_max_left _ _)
  committed := Nat.max_le.2 ⟨h.committed, Nat.le_refl _⟩

/-- **No call changes it.** -/
theorem run (h : r.Regular) {c : Call} (run : r.run c = .ok r') : r'.Regular := by
  cases ran_of_run run with
  | campaign hcampaign => exact h.of_sameLog (sameLog_campaign hcampaign)
  | lead hlead => exact h.of_sameLog (.lead hlead)
  | follow term => exact h.of_sameLog (sameLog_follow r term)
  | answerVote q => exact h.of_sameLog (sameLog_answerVote rfl)
  | countVote hcount => exact h.of_sameLog (sameLog_countVote hcount)
  | proposed hpropose => exact h.propose hpropose
  | declined | appendRequest | heartbeat | installRequest => exact h
  | takeEntries htake => exact h.takeEntries htake
  | recordAppend hrecord => exact h.recordAppend hrecord
  | takeImage htake => exact h.takeImage htake
  | recordInstall hrecord => exact h.recordAppend hrecord
  | takeCommitted => exact h.takeCommitted
  | compact hcompact => exact h.compact hcompact
  | advanceCommit hadvance => exact h.advanceCommit hadvance

end Regular

/-- The same member of the same cluster. -/
structure SameMember (r r' : Replica) : Prop where
  id : r'.id = r.id
  members : r'.members = r.members

namespace SameMember

theorem of_sameLog (h : SameLog r r') : SameMember r r' := ⟨h.id, h.members⟩

theorem trans {r'' : Replica} (h : SameMember r r') (h' : SameMember r' r'') : SameMember r r'' :=
  ⟨h'.id.trans h.id, h'.members.trans h.members⟩

theorem takeEntries {q : AppendRequest} {o : AppendOutcome} (run : r.takeEntries q = .ok (r', o)) :
    SameMember r r' := by
  have hs := of_sameLog (sameLog_accept r q.term q.leader)
  obtain rfl | ⟨log, commit, rfl, -, -⟩ := exists_takeEntries run
  · exact ⟨rfl, rfl⟩
  · exact ⟨hs.id, hs.members⟩

theorem takeImage {term lastIndex lastTerm : Nat} {leader : NodeId} {o : InstallOutcome}
    (run : r.takeImage term leader lastIndex lastTerm = .ok (r', o)) : SameMember r r' := by
  have hs := of_sameLog (sameLog_accept r term leader)
  rcases Member.takeImage_cases run with ⟨-, rfl, -⟩ | ⟨-, -, rfl, -⟩ | ⟨-, -, hre, -⟩
  · exact ⟨rfl, rfl⟩
  · exact hs
  · obtain ⟨log, rfl⟩ := exists_rebase hre
    exact ⟨hs.id, hs.members⟩

theorem advanceCommit {advanced : Bool} (run : r.advanceCommit = .ok (r', advanced)) :
    SameMember r r' := by
  rcases advanceCommit_spec run with ⟨rfl, -⟩ | ⟨-, -, i, -, -, -, rfl⟩ <;> exact ⟨rfl, rfl⟩

theorem recordAppend {term lastSent : Nat} {success advanced : Bool} {sender : NodeId}
    (run : r.recordAppend term success sender lastSent = .ok (r', advanced)) :
    SameMember r r' := by
  have hs := of_sameLog (sameLog_answered r success sender lastSent)
  rcases recordAppend_spec run with ⟨-, rfl, -⟩ | ⟨rfl, -⟩ | ⟨-, -, ⟨-, hadv⟩ | ⟨-, rfl, -⟩⟩
  · exact of_sameLog (sameLog_follow r term)
  · exact ⟨rfl, rfl⟩
  · exact hs.trans (advanceCommit hadv)
  · exact hs

theorem run {c : Call} (h : r.Regular) (run : r.run c = .ok r') : SameMember r r' := by
  cases ran_of_run run with
  | campaign hcampaign => exact of_sameLog (sameLog_campaign hcampaign)
  | lead hlead => exact of_sameLog (.lead hlead)
  | follow term => exact of_sameLog (sameLog_follow r term)
  | answerVote q => exact of_sameLog (sameLog_answerVote rfl)
  | countVote hcount => exact of_sameLog (sameLog_countVote hcount)
  | proposed hpropose =>
    obtain ⟨-, -, -, -, rfl⟩ := h.sourced.propose hpropose
    exact ⟨rfl, rfl⟩
  | declined | appendRequest | heartbeat | installRequest | takeCommitted => exact ⟨rfl, rfl⟩
  | takeEntries htake => exact takeEntries htake
  | recordAppend hrecord => exact recordAppend hrecord
  | takeImage htake => exact takeImage htake
  | recordInstall hrecord => exact recordAppend hrecord
  | compact hcompact =>
    obtain ⟨-, rfl⟩ | ⟨-, n, -, -, -, rfl⟩ := h.sourced.compact_cases hcompact <;> exact ⟨rfl, rfl⟩
  | advanceCommit hadvance => exact advanceCommit hadvance

end SameMember

/-! ## Recovery -/

theorem regular_create (id : NodeId) (members : List NodeId) (config : Config) :
    (create id members config).Regular :=
  ⟨⟨.nil _, nofun⟩, Nat.le_refl _, Nat.le_refl _⟩

/-- An image that covers at least what the base does is taken over. -/
theorem Regular.restoreBase (h : r.Regular) {lastIndex : Nat} (hle : r.snapshotIndex ≤ lastIndex)
    (lastTerm : Nat) : (r.restoreBase lastIndex lastTerm).Regular where
  sourced := by
    refine h.sourced.drop (lastIndex - r.snapshotIndex) ?_ ?_
    · exact h.sourced.lined.filter_eq_drop hle
    · exact (Nat.add_sub_of_le hle).symm
  applied := Nat.le_max_right _ _
  committed := by
    have hcommitted := h.committed
    show max r.lastApplied lastIndex ≤ max r.commitIndex lastIndex
    omega

theorem Regular.loadLog (h : r.Regular) {es : List Entry} {n : Nat}
    (run : r.loadLog 0 es = .ok (r', n)) : r'.Regular ∧ r'.snapshotIndex = r.snapshotIndex := by
  obtain ⟨hs, log, rfl⟩ := loadLog_placeable h.sourced run
  exact ⟨⟨hs, h.applied, h.committed⟩, rfl⟩

theorem Regular.restoreCommit (h : r.Regular) (commit : Nat) :
    (r.restoreCommit commit).Regular where
  sourced := h.sourced.congr rfl rfl
  applied := h.applied
  committed := Nat.le_trans h.committed (Nat.le_max_left _ _)

/-- **Recovery ends in it**, and without an image the base is where it was. -/
theorem Recovered.regular {imaged : Bool} (h : Recovered id members config imaged r) :
    r.Regular ∧ (imaged = false → r.snapshotIndex = 0) := by
  induction h with
  | created => exact ⟨regular_create id members config, fun _ => rfl⟩
  | ballot b _ ih => exact ⟨⟨ih.1.sourced.congr rfl rfl, ih.1.applied, ih.1.committed⟩, ih.2⟩
  | image lastIndex lastTerm _ _ ih =>
    refine ⟨ih.1.restoreBase ?_ lastTerm, nofun⟩
    rw [ih.2 rfl]
    exact Nat.zero_le _
  | entries es n hload _ ih =>
    obtain ⟨hregular, hbase⟩ := ih.1.loadLog hload
    exact ⟨hregular, fun hi => hbase.trans (ih.2 hi)⟩
  | commit commit _ ih => exact ⟨ih.1.restoreCommit commit, ih.2⟩

theorem Reached.regular (h : Reached id members config Allowed r) : r.Regular := by
  induction h with
  | recovered h => exact h.regular.1
  | call _ _ hr ih => exact ih.run hr

theorem Recovered.sameMember {imaged : Bool} (h : Recovered id members config imaged r) :
    SameMember (create id members config) r := by
  induction h with
  | created => exact ⟨rfl, rfl⟩
  | ballot _ _ ih | image _ _ _ _ ih | commit _ _ ih => exact ⟨ih.id, ih.members⟩
  | entries es n hload hprevious ih =>
    obtain ⟨-, log, rfl⟩ := loadLog_placeable hprevious.regular.1.sourced hload
    exact ⟨ih.id, ih.members⟩

/-- A replica is of the member that it was created for. -/
theorem Reached.sameMember (h : Reached id members config Allowed r) :
    SameMember (create id members config) r := by
  induction h with
  | recovered h => exact h.sameMember
  | call hr _ hrun ih => exact ih.trans (.run hr.regular hrun)

/-! ## Positions -/

/-- **The log is always in line**: whatever a replica was recovered from and whatever it was asked
since, so long as no call stopped in the middle on a sum that is no word, each entry stands at its
position after the base, what the base covers is applied, and what is applied is committed. -/
theorem positions_in_line (h : Reached id members config (fun _ _ => True) r) :
    (∀ i e, r.log[i]? = some e → e.index = r.snapshotIndex + 1 + i) ∧
      r.snapshotIndex ≤ r.lastApplied ∧ r.lastApplied ≤ r.commitIndex := by
  obtain ⟨hs, happlied, hcommitted⟩ := h.regular
  refine ⟨fun i e hi => ?_, happlied, hcommitted⟩
  rw [hs.lined i e hi]
  omega

/-- A lone member that has found an image of three entries on its disk, and two more after it. -/
def lone : Replica :=
  { create 1 [1] {} with
    term := 2
    log := [⟨2, 4, .put "a" "1"⟩, ⟨2, 5, .delete "a"⟩]
    snapshotIndex := 3
    snapshotTerm := 2
    commitIndex := 5
    lastApplied := 3 }

theorem recovered_lone : Recovered 1 [1] {} true lone := by
  have himaged : Recovered 1 [1] {} true
      (((create 1 [1] {}).withBallot ⟨2, none⟩).restoreBase 3 2) :=
    .image 3 2 (by decide) (.ballot ⟨2, none⟩ .created)
  exact .commit 5 (.entries [⟨2, 4, .put "a" "1"⟩, ⟨2, 5, .delete "a"⟩] 2 rfl himaged)

/-- It is elected, takes a proposal, applies what was committed and compacts one entry. -/
theorem positions_in_line_lone : ∃ r,
    lone.runAll [.campaign, .propose (.put "b" "2"), .takeCommitted, .compact 4] = .ok r ∧
      (∀ i e, r.log[i]? = some e → e.index = r.snapshotIndex + 1 + i) ∧
      r.snapshotIndex ≤ r.lastApplied ∧ r.lastApplied ≤ r.commitIndex := by
  let r : Replica :=
    { lone with
      role := .leader
      term := 3
      vote := some 1
      leader := some 1
      log := [⟨2, 5, .delete "a"⟩, ⟨3, 6, .put "b" "2"⟩]
      snapshotIndex := 4
      lastApplied := 5 }
  have hrun : lone.runAll [.campaign, .propose (.put "b" "2"), .takeCommitted, .compact 4] =
      .ok r := by rfl
  exact ⟨r, hrun, positions_in_line
    (Reached.runAll (.recovered recovered_lone) (fun _ _ _ => trivial) hrun)⟩

end Replica

end ReplicatedStore
