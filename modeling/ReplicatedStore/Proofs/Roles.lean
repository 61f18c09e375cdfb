import ReplicatedStore.Proofs.Cursors
import ReplicatedStore.Proofs.ReplicaRuns
/-!
# What belongs to a role

A replica keeps its vote, the leader it heard from, the votes it received and its books in six
fields that every change of role has to put in order together. `Replica.Shaped` says how they look
in each role. A recovered replica is a follower of that shape, each operation that changes a role
leaves the shape of the new one (`Shaped.follow`, `Shaped.accept`, `shaped_lead`, `Shaped.campaign`,
`Shaped.countVote`), and what a leader writes into its books keeps their keys
(`LeaderShape.answered`). So every replica that can be reached has it (`role_determines_shape`).
-/
namespace ReplicatedStore

namespace Table

variable {κ ν : Type} [Ord κ] [Std.TransOrd κ] [Std.LawfulEqOrd κ]

theorem contains_insert (t : Table κ ν) (k k' : κ) (v : ν) :
    (t.insert k v).contains k' = true ↔ k' = k ∨ t.contains k' = true := by
  rw [contains, get?_insert]
  split
  · next heq => exact iff_of_true rfl (.inl (Std.LawfulEqOrd.eq_of_compare heq))
  · next hne =>
    refine ⟨.inr, fun h => h.resolve_left ?_⟩
    rintro rfl
    exact hne Std.ReflCmp.compare_self

theorem contains_ofList_const (keys : List κ) (k : κ) (v : ν) :
    (ofList (keys.map (·, v))).contains k = true ↔ k ∈ keys := by
  constructor
  · intro h
    obtain ⟨v', hv'⟩ := Option.isSome_iff_exists.1 h
    obtain ⟨k', hk', heq⟩ := List.mem_map.1 (mem_of_get?_ofList hv')
    cases heq
    exact hk'
  · intro h
    rw [contains, get?_ofList_const h]
    rfl

end Table

namespace Replica

variable {r r' : Replica}

/-! ## Shapes -/

/-- What a follower keeps: no votes and no books. -/
structure FollowerShape (r : Replica) : Prop where
  votes : r.votes = []
  next : r.next = .empty
  matched : r.matched = .empty

/-- What a candidate keeps: its own vote and those of other members, which are no majority, and
nothing of any lead. -/
structure CandidateShape (r : Replica) : Prop where
  vote : r.vote = some r.id
  leader : r.leader = none
  next : r.next = .empty
  matched : r.matched = .empty
  distinct : r.votes.Nodup
  own : r.id ∈ r.votes
  known : ∀ u ∈ r.votes, u ∈ r.members
  undecided : r.votes.length < r.quorum

/-- What a leader keeps: both positions for each peer and for nobody else, and no votes. -/
structure LeaderShape (r : Replica) : Prop where
  vote : r.vote = some r.id
  leader : r.leader = some r.id
  votes : r.votes = []
  next : ∀ p, r.next.contains p = true ↔ p ∈ r.peers
  matched : ∀ p, r.matched.contains p = true ↔ p ∈ r.peers
  positive : ∀ p n, r.next.get? p = some n → 1 ≤ n

/-- The replica is a member of its cluster and keeps what belongs to its role. -/
structure Shaped (r : Replica) : Prop where
  listed : r.id ∈ r.members
  follower : r.role = .follower → r.FollowerShape
  candidate : r.role = .candidate → r.CandidateShape
  leader : r.role = .leader → r.LeaderShape

/-- All that belongs to a role. The term, the log and the positions in it do not. -/
structure Office where
  id : NodeId
  members : List NodeId
  role : Role
  vote : Option NodeId
  leader : Option NodeId
  votes : List NodeId
  next : Table NodeId Nat
  matched : Table NodeId Nat

/-- What the replica keeps for its role. -/
def office (r : Replica) : Office :=
  ⟨r.id, r.members, r.role, r.vote, r.leader, r.votes, r.next, r.matched⟩

theorem SameButLog.office (h : SameButLog r r') : r'.office = r.office := by
  obtain ⟨_, _, _, _, rfl⟩ := h
  rfl

/-- The shape is one of the office alone. -/
theorem Shaped.congr (h : r.Shaped) (same : r'.office = r.office) : r'.Shaped := by
  obtain ⟨id, members, _, role, _, vote, leader, _, _, _, _, _, votes, next, matched⟩ := r
  obtain ⟨listed, follower, candidate, leader⟩ := h
  cases r'
  cases same
  refine ⟨listed, fun hr => ?_, fun hr => ?_, fun hr => ?_⟩
  · obtain ⟨h₁, h₂, h₃⟩ := follower hr
    exact ⟨h₁, h₂, h₃⟩
  · obtain ⟨h₁, h₂, h₃, h₄, h₅, h₆, h₇, h₈⟩ := candidate hr
    exact ⟨h₁, h₂, h₃, h₄, h₅, h₆, h₇, h₈⟩
  · obtain ⟨h₁, h₂, h₃, h₄, h₅, h₆⟩ := leader hr
    exact ⟨h₁, h₂, h₃, h₄, h₅, h₆⟩

theorem FollowerShape.shaped (h : r.FollowerShape) (listed : r.id ∈ r.members)
    (role : r.role = .follower) : r.Shaped where
  listed := listed
  follower _ := h
  candidate hr := nomatch role.symm.trans hr
  leader hr := nomatch role.symm.trans hr

theorem CandidateShape.shaped (h : r.CandidateShape) (listed : r.id ∈ r.members)
    (role : r.role = .candidate) : r.Shaped where
  listed := listed
  follower hr := nomatch role.symm.trans hr
  candidate _ := h
  leader hr := nomatch role.symm.trans hr

theorem LeaderShape.shaped (h : r.LeaderShape) (listed : r.id ∈ r.members)
    (role : r.role = .leader) : r.Shaped where
  listed := listed
  follower hr := nomatch role.symm.trans hr
  candidate hr := nomatch role.symm.trans hr
  leader _ := h

/-! ## Changes of role -/

/-- Whoever steps down puts everything away. -/
theorem Shaped.follow (h : r.Shaped) (term : Nat) : (r.follow term).Shaped := by
  have hs := sameLog_follow r term
  exact FollowerShape.shaped ⟨rfl, rfl, rfl⟩ (hs.id ▸ hs.members ▸ h.listed) rfl

theorem Shaped.accept (h : r.Shaped) (term : Nat) (leader : NodeId) :
    (r.accept term leader).Shaped := by
  unfold Replica.accept
  split
  · have hf := h.follow term
    exact FollowerShape.shaped ⟨rfl, rfl, rfl⟩ hf.listed rfl
  · next hcond =>
    have hrole : r.role = .follower := by
      simp only [not_or, Decidable.not_not] at hcond
      exact hcond.2
    obtain ⟨hvotes, hnext, hmatched⟩ := h.follower hrole
    exact FollowerShape.shaped ⟨hvotes, hnext, hmatched⟩ h.listed hrole

/-- Whoever takes the lead opens its books for its peers. -/
theorem shaped_lead (run : r.lead = .ok r') (listed : r.id ∈ r.members)
    (vote : r.vote = some r.id) : r'.Shaped := by
  have htracks : Tracks r' r.lastIndex fun _ _ => True := tracks_lead run
  obtain ⟨next, -, run⟩ := bind_eq_ok.1 run
  cases run
  refine LeaderShape.shaped ⟨vote, rfl, rfl, fun p => ?_, fun p => ?_, fun p n hp => ?_⟩ listed rfl
  · exact Table.contains_ofList_const r.peers p next
  · exact Table.contains_ofList_const r.peers p 0
  · exact (htracks.next p n hp).1

theorem Shaped.campaign (h : r.Shaped) {q : VoteRequest} (run : r.campaign = .ok (r', q)) :
    r'.Shaped := by
  obtain ⟨r₀, rfl, ⟨rfl, hopen⟩ | ⟨-, hlead⟩, -⟩ := campaign_cases run
  · refine CandidateShape.shaped ⟨rfl, rfl, rfl, rfl, ?_, ?_, ?_, hopen⟩ h.listed rfl
    · exact List.pairwise_singleton _ _
    · exact List.mem_singleton_self _
    · exact fun u hu => List.mem_singleton.1 hu ▸ h.listed
  · exact shaped_lead hlead h.listed rfl

/-- A vote of another member is counted once. -/
theorem Shaped.countVote (h : r.Shaped) {term : Nat} {granted won : Bool} {sender : NodeId}
    (peer : sender ∈ r.peers) (run : r.countVote term granted sender = .ok (r', won)) :
    r'.Shaped := by
  rcases countVote_cases run with ⟨-, rfl⟩ | rfl | ⟨hrole, -, -, r₀, rfl, helected⟩
  · exact h.follow term
  · exact h
  have hc := h.candidate hrole
  rcases helected with ⟨rfl, hopen⟩ | ⟨-, hlead⟩
  · refine CandidateShape.shaped
      ⟨hc.vote, hc.leader, hc.next, hc.matched, ?_, ?_, fun u hu => ?_, hopen⟩ h.listed hrole
    · exact Elections.nodup_tallied hc.distinct _
    · simp only [tallied]
      split
      · exact hc.own
      · exact List.mem_append_left _ hc.own
    · rcases Elections.mem_tallied hu with hu | rfl
      · exact hc.known u hu
      · exact (List.mem_filter.1 peer).1
  · exact shaped_lead hlead h.listed hc.vote

/-- Whoever stands or leads has voted for itself, so a request of its own term changes nothing. -/
theorem Shaped.answerVote (h : r.Shaped) {q : VoteRequest} {granted : Bool}
    (run : r.answerVote q = (r', granted)) : r'.Shaped := by
  have hvoted : r.role ≠ .follower → r.vote ≠ none := by
    intro hrole
    cases hr : r.role with
    | follower => exact absurd hr hrole
    | candidate => exact (h.candidate hr).vote ▸ nofun
    | leader => exact (h.leader hr).vote ▸ nofun
  have hheeds := (answerVote_spec run hvoted).1.turn
  rcases answerVote_cases run with ⟨-, rfl, -⟩ | ⟨-, ⟨vote, heq⟩, -⟩
  · exact h
  by_cases hlt : r.term < q.term
  · rw [if_pos hlt] at heq
    subst heq
    exact FollowerShape.shaped ⟨rfl, rfl, rfl⟩ (h.follow q.term).listed rfl
  · rw [if_neg hlt] at heq
    subst heq
    rcases hheeds with hsame | ⟨hrole, -⟩
    · obtain rfl : vote = r.vote := congrArg Ballot.vote (stance_eq_iff.1 hsame).2.2.2.1
      exact h
    · obtain ⟨hvotes, hnext, hmatched⟩ := h.follower hrole
      exact FollowerShape.shaped ⟨hvotes, hnext, hmatched⟩ h.listed hrole

/-! ## Books -/

/-- A peer's answer is written over what was kept of the peer. -/
theorem LeaderShape.answered (h : r.LeaderShape) (success : Bool) {sender : NodeId}
    (peer : sender ∈ r.peers) (lastSent : Nat) :
    (r.answered success sender lastSent).LeaderShape := by
  have hkeys : ∀ {t : Table NodeId Nat} {n : Nat} (p : NodeId),
      (t.contains p = true ↔ p ∈ r.peers) →
        ((t.insert sender n).contains p = true ↔ p ∈ r.peers) := by
    intro t n p ht
    rw [Table.contains_insert, ht]
    refine ⟨fun hp => hp.elim ?_ fun hp => hp, .inr⟩
    rintro rfl
    exact peer
  have hpositive : ∀ {n : Nat}, 1 ≤ n →
      ∀ p k, (r.next.insert sender n).get? p = some k → 1 ≤ k := by
    intro n hn p k hk
    rw [Table.get?_insert] at hk
    split at hk
    · cases hk
      exact hn
    · exact h.positive p k hk
  cases success with
  | true =>
    exact ⟨h.vote, h.leader, h.votes, fun p => hkeys p (h.next p), fun p => hkeys p (h.matched p),
      hpositive (Nat.succ_pos _)⟩
  | false =>
    refine ⟨h.vote, h.leader, h.votes, fun p => hkeys p (h.next p), h.matched, hpositive ?_⟩
    have hnext : 1 ≤ (r.next.get? sender).getD 1 := by
      cases hn : r.next.get? sender with
      | none => exact Nat.le_refl 1
      | some n => exact h.positive sender n hn
    split <;> omega

theorem Shaped.advanceCommit (h : r.Shaped) {advanced : Bool}
    (run : r.advanceCommit = .ok (r', advanced)) : r'.Shaped := by
  rcases advanceCommit_spec run with ⟨rfl, -⟩ | ⟨-, -, i, -, -, -, rfl⟩
  · exact h
  · exact h.congr rfl

theorem role_answered (role : r.role = .leader) (success : Bool) (sender : NodeId)
    (lastSent : Nat) : (r.answered success sender lastSent).role = .leader := by
  cases success <;> exact role

theorem Shaped.answered (h : r.Shaped) (role : r.role = .leader) (success : Bool)
    {sender : NodeId} (peer : sender ∈ r.peers) (lastSent : Nat) :
    (r.answered success sender lastSent).Shaped := by
  have hs := sameLog_answered r success sender lastSent
  exact ((h.leader role).answered success peer lastSent).shaped
    (hs.id ▸ hs.members ▸ h.listed) (role_answered role ..)

theorem Shaped.recordAppend (h : r.Shaped) {term lastSent : Nat} {success advanced : Bool}
    {sender : NodeId} (peer : sender ∈ r.peers)
    (run : r.recordAppend term success sender lastSent = .ok (r', advanced)) : r'.Shaped := by
  rcases recordAppend_spec run with ⟨-, rfl, -⟩ | ⟨rfl, -⟩ | ⟨hrole, -, ⟨-, hadv⟩ | ⟨-, rfl, -⟩⟩
  · exact h.follow term
  · exact h
  · exact (h.answered hrole success peer lastSent).advanceCommit hadv
  · exact h.answered hrole success peer lastSent

/-! ## Requests of a leader -/

theorem Shaped.takeEntries (h : r.Shaped) {q : AppendRequest} {o : AppendOutcome}
    (run : r.takeEntries q = .ok (r', o)) : r'.Shaped := by
  obtain rfl | ⟨log, commit, rfl, -, -⟩ := exists_takeEntries run
  · exact h
  · exact (h.accept q.term q.leader).congr rfl

theorem Shaped.takeImage (h : r.Shaped) {term lastIndex lastTerm : Nat} {leader : NodeId}
    {o : InstallOutcome} (run : r.takeImage term leader lastIndex lastTerm = .ok (r', o)) :
    r'.Shaped := by
  have ha := h.accept term leader
  rcases Member.takeImage_cases run with ⟨-, rfl, -⟩ | ⟨-, -, rfl, -⟩ | ⟨-, -, hre, -⟩
  · exact h
  · exact ha
  · obtain ⟨log, rfl⟩ := exists_rebase hre
    exact ha.congr rfl

theorem Shaped.propose (h : r.Shaped) {command : Command} {e : Entry}
    (run : r.propose command = .ok (some (r', e))) : r'.Shaped := by
  rcases propose_cases run with ⟨-, hnone⟩ | ⟨-, -, hsome⟩
  · cases hnone
  · cases hsome
    exact h.congr rfl

/-! ## Runs -/

/-- Whatever comes, nobody but the replica itself decides that it leads or steps down, and only its
peers answer it. -/
def Ordinary (r : Replica) : Call → Prop
  | .lead | .follow _ => False
  | .countVote _ _ sender | .recordAppend _ _ sender _ | .recordInstall _ sender _ =>
    sender ∈ r.peers
  | _ => True

/-- **One call.** -/
theorem Shaped.run (h : r.Shaped) {c : Call} (ordinary : r.Ordinary c) (run : r.run c = .ok r') :
    r'.Shaped := by
  cases ran_of_run run with
  | lead | follow => exact ordinary.elim
  | campaign hcampaign => exact h.campaign hcampaign
  | answerVote q => exact h.answerVote rfl
  | countVote hcount => exact h.countVote ordinary hcount
  | proposed hpropose => exact h.propose hpropose
  | declined | appendRequest | heartbeat | installRequest => exact h
  | takeEntries htake => exact h.takeEntries htake
  | recordAppend hrecord => exact h.recordAppend ordinary hrecord
  | takeImage htake => exact h.takeImage htake
  | recordInstall hrecord => exact h.recordAppend ordinary hrecord
  | takeCommitted => exact h.congr rfl
  | compact hcompact => exact h.congr (sameButLog_compact hcompact).office
  | advanceCommit hadvance => exact h.advanceCommit hadvance

variable {id : NodeId} {members : List NodeId} {config : Config}

theorem shaped_create (id : NodeId) (members : List NodeId) (config : Config) :
    (create id members config).Shaped := by
  refine FollowerShape.shaped ⟨rfl, rfl, rfl⟩ ?_ rfl
  show id ∈ if id ∈ members then members else members ++ [id]
  split
  · assumption
  · exact List.mem_append_right _ (List.mem_singleton_self id)

/-- A recovered replica follows. Whatever its disk holds, it is not elected by it. -/
theorem Recovered.shaped {imaged : Bool} (h : Recovered id members config imaged r) :
    r.Shaped ∧ r.role = .follower := by
  induction h with
  | created => exact ⟨shaped_create id members config, rfl⟩
  | ballot b _ ih =>
    obtain ⟨hvotes, hnext, hmatched⟩ := ih.1.follower ih.2
    exact ⟨FollowerShape.shaped ⟨hvotes, hnext, hmatched⟩ ih.1.listed ih.2, ih.2⟩
  | image lastIndex lastTerm _ _ ih => exact ⟨ih.1.congr rfl, ih.2⟩
  | entries es n hload hprevious ih =>
    obtain ⟨-, log, rfl⟩ := loadLog_placeable hprevious.regular.1.sourced hload
    exact ⟨ih.1.congr rfl, ih.2⟩
  | commit commit _ ih => exact ⟨ih.1.congr rfl, ih.2⟩

theorem Reached.shaped (h : Reached id members config Ordinary r) : r.Shaped := by
  induction h with
  | recovered h => exact h.shaped.1
  | call _ hordinary hrun ih => exact ih.run hordinary hrun

/-- **The role tells what a replica keeps.** Whatever it was recovered from and whatever it was
asked since, by whomever, as long as only its peers answer it and no call stopped in the middle on a
sum that is no word: a follower has no votes and no books; a candidate has voted for itself, knows
no leader, has no books, and its votes are of different members, its own among them, and no
majority; a leader has voted for itself, names itself, has no votes, and has both positions for
exactly its peers, the next one never 0. -/
theorem role_determines_shape (h : Reached id members config Ordinary r) :
    r.id = id ∧ (r.role = .follower → r.FollowerShape) ∧ (r.role = .candidate → r.CandidateShape) ∧
      (r.role = .leader → r.LeaderShape) :=
  ⟨h.sameMember.id, h.shaped.follower, h.shaped.candidate, h.shaped.leader⟩

/-- The second of three members, which was elected and has heard from the first. -/
def elected : Replica :=
  { create 2 [1, 2, 3] {} with
    role := .leader
    term := 1
    vote := some 2
    leader := some 2
    log := [⟨1, 1, .put "a" "1"⟩]
    commitIndex := 1
    next := Table.ofList [(1, 2), (3, 1)]
    matched := Table.ofList [(1, 1), (3, 0)] }

/-- A member is elected, takes a proposal and has it accepted by one of its peers. -/
theorem role_determines_shape_elected : Reached 2 [1, 2, 3] {} Ordinary elected ∧
    elected.role = .leader ∧ elected.LeaderShape := by
  let asking : Replica := { create 2 [1, 2, 3] {} with
    role := .candidate, term := 1, vote := some 2, votes := [2] }
  let leading : Replica := { create 2 [1, 2, 3] {} with
    role := .leader, term := 1, vote := some 2, leader := some 2
    next := Table.ofList [(1, 1), (3, 1)], matched := Table.ofList [(1, 0), (3, 0)] }
  have hcreated : Reached 2 [1, 2, 3] {} Ordinary (create 2 [1, 2, 3] {}) := .recovered .created
  have hasking : Reached 2 [1, 2, 3] {} Ordinary asking :=
    hcreated.call (c := .campaign) trivial rfl
  have hleading : Reached 2 [1, 2, 3] {} Ordinary leading :=
    hasking.call (c := .countVote 1 true 3) (show 3 ∈ [1, 3] by decide) (by cbv)
  have hproposed : Reached 2 [1, 2, 3] {} Ordinary
      { leading with log := [⟨1, 1, .put "a" "1"⟩] } :=
    hleading.call (c := .propose (.put "a" "1")) trivial rfl
  have helected : Reached 2 [1, 2, 3] {} Ordinary elected :=
    hproposed.call (c := .recordAppend 1 true 1 1) (show 1 ∈ [1, 3] by decide) (by cbv)
  exact ⟨helected, rfl, (role_determines_shape helected).2.2.2 rfl⟩

end Replica

end ReplicatedStore
