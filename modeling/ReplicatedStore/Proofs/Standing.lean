import ReplicatedStore.Proofs.Sections
/-!
# What a section does to a ballot

The standing of a member: who it is, its role, its term and vote in memory, and the ballot its disk
holds. Sections other than a candidacy and the count of a vote can only do two things to it: leave
it alone, or make the member a follower whose ballot comes after the one it had (`Heeds`). The disk
follows memory: `Sworn` says that the stored ballot comes before the one in memory, and that the two
are one while the member is a candidate or leads.

Writes may fail here at any time, so nothing is said about the log.
-/
namespace ReplicatedStore

/-- A member may go from the first ballot to the second: in the same term a vote is only added. -/
def Ballot.Precedes (b b' : Ballot) : Prop :=
  b.term < b'.term ∨ b.term = b'.term ∧ (b.vote = none ∨ b.vote = b'.vote)

namespace Ballot

theorem Precedes.refl (b : Ballot) : b.Precedes b := .inr ⟨rfl, .inr rfl⟩

theorem Precedes.trans {a b c : Ballot} (h : a.Precedes b) (h' : b.Precedes c) : a.Precedes c := by
  rcases h with h | ⟨ht, hv⟩ <;> rcases h' with h' | ⟨ht', hv'⟩
  · exact .inl (by omega)
  · exact .inl (by omega)
  · exact .inl (by omega)
  · refine .inr ⟨by omega, ?_⟩
    rcases hv with hv | hv
    · exact .inl hv
    · rcases hv' with hv' | hv'
      · exact .inl (hv.trans hv')
      · exact .inr (hv.trans hv')

theorem Precedes.term_le {b b' : Ballot} (h : b.Precedes b') : b.term ≤ b'.term := by
  rcases h with h | ⟨h, -⟩ <;> omega

/-- In one term a ballot with a vote is followed by no other. -/
theorem Precedes.eq_of_vote {t : Nat} {u : NodeId} {vote : Option NodeId}
    (h : Precedes ⟨t, some u⟩ ⟨t, vote⟩) : vote = some u := by
  rcases h with h | ⟨-, h | h⟩
  · exact absurd h (Nat.lt_irrefl t)
  · cases h
  · exact h.symm

end Ballot

/-- What matters of a replica in elections. -/
structure Stance where
  id : NodeId
  members : List NodeId
  role : Role
  ballot : Ballot
  votes : List NodeId

namespace Replica

/-- The replica's part in elections. -/
def stance (r : Replica) : Stance := ⟨r.id, r.members, r.role, r.ballot, r.votes⟩

theorem stance_eq_iff {r r' : Replica} :
    r'.stance = r.stance ↔ r'.id = r.id ∧ r'.members = r.members ∧ r'.role = r.role ∧
      r'.ballot = r.ballot ∧ r'.votes = r.votes := by
  simp only [stance, Stance.mk.injEq]

/-- The replica keeps its part, or it follows with a ballot that comes after. -/
structure Heeds (r r' : Replica) : Prop where
  id : r'.id = r.id
  members : r'.members = r.members
  turn : r'.stance = r.stance ∨ r'.role = .follower ∧ r.ballot.Precedes r'.ballot

theorem Heeds.of_stance {r r' : Replica} (h : r'.stance = r.stance) : Heeds r r' :=
  ⟨(stance_eq_iff.1 h).1, (stance_eq_iff.1 h).2.1, .inl h⟩

theorem Heeds.ballot {r r' : Replica} (h : Heeds r r') : r.ballot.Precedes r'.ballot := by
  rcases h.turn with h | h
  · rw [(stance_eq_iff.1 h).2.2.2.1]
    exact .refl _
  · exact h.2

theorem Heeds.trans {r r' r'' : Replica} (h : Heeds r r') (h' : Heeds r' r'') : Heeds r r'' := by
  refine ⟨h'.id.trans h.id, h'.members.trans h.members, ?_⟩
  rcases h'.turn with hs | ⟨hf, hb⟩
  · rcases h.turn with hs' | ⟨hf', hb'⟩
    · exact .inl (hs.trans hs')
    · have heq := stance_eq_iff.1 hs
      exact .inr ⟨heq.2.2.1.trans hf', by rw [heq.2.2.2.1]; exact hb'⟩
  · exact .inr ⟨hf, h.ballot.trans hb⟩

/-! ## Operations -/

theorem heeds_follow (r : Replica) (term : Nat) : Heeds r (r.follow term) := by
  unfold follow
  split
  · next h => exact ⟨rfl, rfl, .inr ⟨rfl, .inl h⟩⟩
  · exact ⟨rfl, rfl, .inr ⟨rfl, .refl _⟩⟩

theorem term_follow (r : Replica) (term : Nat) : (r.follow term).term = max r.term term := by
  unfold follow
  split <;> simp only <;> omega

theorem role_follow (r : Replica) (term : Nat) : (r.follow term).role = .follower := rfl

theorem heeds_accept (r : Replica) (term : Nat) (leader : NodeId) :
    Heeds r (r.accept term leader) := by
  unfold accept
  split
  · exact (heeds_follow r term).trans (.of_stance rfl)
  · exact .of_stance rfl

theorem role_accept (r : Replica) (term : Nat) (leader : NodeId) :
    (r.accept term leader).role = .follower := by
  unfold accept
  split
  · rfl
  · next h =>
    simp only [not_or, Decidable.not_not] at h
    exact h.2

theorem stance_truncate (r : Replica) (i : Nat) : (r.truncate i).stance = r.stance := by
  unfold truncate
  split <;> rfl

theorem stance_place (r : Replica) (i : Nat) (e : Entry) (change : Option LogChange) :
    (r.place i e change).1.stance = r.stance := by
  unfold place
  split
  · rfl
  · split
    · split
      · rfl
      · exact stance_truncate r i
    · rfl

theorem stance_placeAll (r : Replica) (i : Nat) (change : Option LogChange) (es : List Entry) :
    (r.placeAll i change es).1.stance = r.stance := by
  induction es generalizing r i change with
  | nil => rfl
  | cons e es ih =>
    rw [placeAll]
    exact (ih _ _ _).trans (stance_place r i e change)

theorem stance_followCommit (r : Replica) (leaderCommit lastNew : Nat) :
    (r.followCommit leaderCommit lastNew).1.stance = r.stance := by
  simp only [followCommit]
  split <;> rfl

/-- A request is refused, or it leaves the part that is left by accepting its leader. -/
theorem stance_takeEntries {r r' : Replica} {q : AppendRequest} {o : AppendOutcome}
    (h : r.takeEntries q = .ok (r', o)) :
    r' = r ∨ r'.stance = (r.accept q.term q.leader).stance := by
  unfold takeEntries at h
  split at h
  · cases h
    exact .inl rfl
  · simp only at h
    split at h
    · cases h
      exact .inr rfl
    · obtain ⟨lastNew, -, h⟩ := bind_eq_ok.1 h
      cases h
      exact .inr ((stance_followCommit _ _ _).trans (stance_placeAll _ _ _ _))

theorem heeds_takeEntries {r r' : Replica} {q : AppendRequest} {o : AppendOutcome}
    (h : r.takeEntries q = .ok (r', o)) : Heeds r r' := by
  rcases stance_takeEntries h with rfl | hs
  · exact .of_stance rfl
  · exact (heeds_accept r _ _).trans (.of_stance hs)

/-- Whoever does not refuse a request follows its leader. -/
theorem role_takeEntries {r r' : Replica} {q : AppendRequest} {o : AppendOutcome}
    (h : r.takeEntries q = .ok (r', o)) : r' = r ∨ r'.role = .follower :=
  (stance_takeEntries h).imp_right fun hs => (stance_eq_iff.1 hs).2.2.1.trans (role_accept ..)

theorem stance_dropFirst {r r' : Replica} {n : Nat} (h : r.dropFirst n = .ok r') :
    r'.stance = r.stance := by
  unfold dropFirst at h
  split at h
  · cases h; rfl
  · cases h

theorem stance_rebase {r r' : Replica} {lastIndex lastTerm : Nat}
    (h : r.rebase lastIndex lastTerm = .ok r') : r'.stance = r.stance := by
  simp only [rebase] at h
  split at h
  · obtain ⟨n, -, h⟩ := bind_eq_ok.1 h
    obtain ⟨r₁, hr₁, h⟩ := bind_eq_ok.1 h
    cases h
    exact (show r₁.stance = r.stance from stance_dropFirst hr₁)
  · cases h
    rfl

theorem heeds_takeImage {r r' : Replica} {term lastIndex lastTerm : Nat} {leader : NodeId}
    {o : InstallOutcome} (h : r.takeImage term leader lastIndex lastTerm = .ok (r', o)) :
    Heeds r r' := by
  unfold takeImage at h
  split at h
  · cases h
    exact .of_stance rfl
  · simp only at h
    split at h
    · cases h
      exact heeds_accept r _ _
    · obtain ⟨r₁, hr₁, h⟩ := bind_eq_ok.1 h
      cases h
      exact (heeds_accept r _ _).trans (.of_stance (stance_rebase hr₁))

theorem stance_compact {r r' : Replica} {through : Nat} {removed : List Entry}
    (h : r.compact through = .ok (r', removed)) : r'.stance = r.stance := by
  simp only [compact] at h
  split at h
  · cases h
    rfl
  · obtain ⟨r₁, hr₁, h⟩ := bind_eq_ok.1 h
    cases h
    exact (show r₁.stance = r.stance from stance_dropFirst hr₁)

theorem stance_propose {r r' : Replica} {command : Command} {e : Entry}
    (h : r.propose command = .ok (some (r', e))) : r'.stance = r.stance := by
  unfold propose at h
  split at h
  · cases h
  · obtain ⟨i, -, h⟩ := bind_eq_ok.1 h
    cases h
    rfl

theorem stance_advanceCommit {r r' : Replica} {advanced : Bool}
    (h : r.advanceCommit = .ok (r', advanced)) : r'.stance = r.stance := by
  unfold advanceCommit at h
  split at h
  · cases h
    rfl
  · split at h
    · cases h
    · split at h <;> cases h <;> rfl

theorem heeds_recordAppend {r r' : Replica} {term lastSent : Nat} {success advanced : Bool}
    {sender : NodeId} (h : r.recordAppend term success sender lastSent = .ok (r', advanced)) :
    Heeds r r' := by
  unfold recordAppend at h
  split at h
  · cases h
    exact heeds_follow r term
  · split at h
    · cases h
      exact .of_stance rfl
    · split at h
      · obtain ⟨next, -, h⟩ := bind_eq_ok.1 h
        have hs := stance_advanceCommit h
        exact .of_stance hs
      · cases h
        exact .of_stance rfl

theorem isUpToDate_follow (r : Replica) (t lastIndex lastTerm : Nat) :
    (r.follow t).isUpToDate lastIndex lastTerm = r.isUpToDate lastIndex lastTerm := by
  unfold follow
  split <;> rfl

/-- A vote request is refused for its term, or answered in it. -/
theorem answerVote_cases {r r' : Replica} {q : VoteRequest} {granted : Bool}
    (h : r.answerVote q = (r', granted)) :
    (q.term < r.term ∧ r' = r ∧ granted = false) ∨
      (r.term ≤ q.term ∧
        (∃ vote, r' =
          { (if r.term < q.term then r.follow q.term else r) with vote := vote }) ∧
        (granted = true → r.isUpToDate q.lastIndex q.lastTerm = true)) := by
  have hdate : (if r.term < q.term then r.follow q.term else r).isUpToDate q.lastIndex q.lastTerm =
      r.isUpToDate q.lastIndex q.lastTerm := by
    split
    · exact isUpToDate_follow r _ _ _
    · rfl
  simp only [answerVote] at h
  split at h
  · next hlt =>
    cases h
    exact .inl ⟨hlt, rfl, rfl⟩
  · next hge =>
    refine .inr ⟨Nat.not_lt.1 hge, ?_⟩
    generalize (if r.term < q.term then r.follow q.term else r) = r₁ at h hdate
    split at h
    · next hfree =>
      cases h
      simp only [Bool.and_eq_true] at hfree
      exact ⟨⟨_, rfl⟩, fun _ => hdate ▸ hfree.2⟩
    · cases h
      exact ⟨⟨r'.vote, rfl⟩, fun hgranted => absurd hgranted Bool.false_ne_true⟩

/-- An answered vote request: the replica heeds it unless it would have to vote for another while
it is a candidate or leads; a granted vote is in the ballot. -/
theorem answerVote_spec {r r' : Replica} {q : VoteRequest} {granted : Bool}
    (h : r.answerVote q = (r', granted)) (hs : r.role ≠ .follower → r.vote ≠ none) :
    Heeds r r' ∧ (granted = true → r'.ballot = ⟨q.term, some q.candidate⟩) := by
  simp only [answerVote] at h
  split at h
  · cases h
    exact ⟨.of_stance rfl, nofun⟩
  · next hge =>
    have hterm : (if r.term < q.term then r.follow q.term else r).term = q.term := by
      split
      · next hlt => rw [term_follow]; omega
      · omega
    have hheeds : Heeds r (if r.term < q.term then r.follow q.term else r) := by
      split
      · exact heeds_follow r _
      · exact .of_stance rfl
    have hnone : (if r.term < q.term then r.follow q.term else r).role ≠ .follower →
        (if r.term < q.term then r.follow q.term else r).vote ≠ none := by
      split
      · exact fun hrole => absurd (role_follow r _) hrole
      · exact hs
    generalize (if r.term < q.term then r.follow q.term else r) = r₁ at h hterm hheeds hnone
    split at h
    · next hfree =>
      cases h
      simp only [Bool.and_eq_true] at hfree
      refine ⟨hheeds.trans ?_, fun _ => by rw [← hterm]; rfl⟩
      -- a vote that was there already is the candidate's
      cases hvote : r₁.vote with
      | none =>
        refine ⟨rfl, rfl, .inr ⟨?_, .inr ⟨rfl, .inl hvote⟩⟩⟩
        exact Decidable.byContradiction fun hrole => hnone hrole hvote
      | some u =>
        have hu : u = q.candidate := by simpa [hvote] using hfree.1
        exact .of_stance (stance_eq_iff.2 ⟨rfl, rfl, rfl, by simp [ballot, hvote, hu], rfl⟩)
    · cases h
      exact ⟨hheeds, nofun⟩

/-- The votes once a peer's is counted. -/
def tallied (r : Replica) (sender : NodeId) : List NodeId :=
  if sender ∈ r.votes then r.votes else r.votes ++ [sender]

/-- A candidate with these votes, or a leader that needed no more than these. -/
def Polled (r : Replica) (votes : List NodeId) : Prop :=
  r.role = .candidate ∧ r.votes = votes ∨ r.role = .leader ∧ r.quorum ≤ votes.length

theorem lead_spec {r r' : Replica} (h : r.lead = .ok r') :
    ∃ next matched, r' = { r with
      role := .leader, leader := some r.id, votes := [], next := next, matched := matched } := by
  obtain ⟨next, -, h⟩ := bind_eq_ok.1 h
  cases h
  exact ⟨_, _, rfl⟩

/-- A candidacy, which a lone member wins at once. -/
theorem campaign_cases {r r' : Replica} {q : VoteRequest} (h : r.campaign = .ok (r', q)) :
    ∃ r₀ : Replica, r₀ = { r with
        role := .candidate, term := r.term + 1, vote := some r.id, leader := none,
        votes := [r.id], next := .empty, matched := .empty } ∧
      (r' = r₀ ∧ r₀.votes.length < r₀.quorum ∨ r₀.quorum ≤ r₀.votes.length ∧ r₀.lead = .ok r') ∧
      q = ⟨r.term + 1, r.id, r.lastIndex, r.lastTerm⟩ := by
  obtain ⟨term, hterm, h⟩ := bind_eq_ok.1 h
  obtain ⟨-, rfl⟩ := Word.add_eq_ok_iff.1 hterm
  refine ⟨_, rfl, ?_⟩
  simp only at h
  split at h
  · next hq =>
    obtain ⟨r₁, hlead, h⟩ := bind_eq_ok.1 h
    cases h
    exact ⟨.inr ⟨of_decide_eq_true hq, hlead⟩, rfl⟩
  · next hq =>
    cases h
    exact ⟨.inl ⟨rfl, Nat.not_le.1 fun hle => hq (decide_eq_true hle)⟩, rfl⟩

/-- A vote is counted for the candidacy it was granted to, or not at all. -/
theorem countVote_cases {r r' : Replica} {term : Nat} {granted won : Bool} {sender : NodeId}
    (h : r.countVote term granted sender = .ok (r', won)) :
    (r.term < term ∧ r' = r.follow term) ∨ r' = r ∨
      (r.role = .candidate ∧ term = r.term ∧ granted = true ∧
        ∃ r₀ : Replica, r₀ = { r with votes := r.tallied sender } ∧
          (r' = r₀ ∧ r₀.votes.length < r₀.quorum ∨
            r₀.quorum ≤ r₀.votes.length ∧ r₀.lead = .ok r')) := by
  unfold countVote at h
  split at h
  · next hlt =>
    cases h
    exact .inl ⟨hlt, rfl⟩
  · split at h
    · cases h
      exact .inr (.inl rfl)
    · next hcond =>
      simp only [not_or, Decidable.not_not, Bool.not_eq_false] at hcond
      obtain ⟨hrole, hterm, hgranted⟩ := hcond
      have hr : (if sender ∈ r.votes then r else { r with votes := r.votes ++ [sender] }) =
          { r with votes := r.tallied sender } := by
        unfold tallied
        split <;> rfl
      rw [hr] at h
      simp only at h
      refine .inr (.inr ⟨hrole, hterm, hgranted, _, rfl, ?_⟩)
      split at h
      · next hq =>
        obtain ⟨r₁, hlead, h⟩ := bind_eq_ok.1 h
        cases h
        exact .inr ⟨of_decide_eq_true hq, hlead⟩
      · next hq =>
        cases h
        exact .inl ⟨rfl, Nat.not_le.1 fun hle => hq (decide_eq_true hle)⟩

theorem campaign_spec {r r' : Replica} {q : VoteRequest} (h : r.campaign = .ok (r', q)) :
    r'.id = r.id ∧ r'.members = r.members ∧ r'.ballot = ⟨r.term + 1, some r.id⟩ ∧
      r'.Polled [r.id] ∧ q = ⟨r.term + 1, r.id, r.lastIndex, r.lastTerm⟩ := by
  obtain ⟨r₀, rfl, ⟨rfl, -⟩ | ⟨hq, hlead⟩, rfl⟩ := campaign_cases h
  · exact ⟨rfl, rfl, rfl, .inl ⟨rfl, rfl⟩, rfl⟩
  · obtain ⟨next, matched, rfl⟩ := lead_spec hlead
    exact ⟨rfl, rfl, rfl, .inr ⟨rfl, hq⟩, rfl⟩

theorem countVote_spec {r r' : Replica} {term : Nat} {granted won : Bool} {sender : NodeId}
    (h : r.countVote term granted sender = .ok (r', won)) :
    Heeds r r' ∨
      (r.role = .candidate ∧ term = r.term ∧ granted = true ∧ r'.id = r.id ∧
        r'.members = r.members ∧ r'.ballot = r.ballot ∧ r'.Polled (r.tallied sender)) := by
  rcases countVote_cases h with
    ⟨-, rfl⟩ | rfl | ⟨hrole, hterm, hgranted, r₀, rfl, ⟨rfl, -⟩ | ⟨hq, hlead⟩⟩
  · exact .inl (heeds_follow r term)
  · exact .inl (.of_stance rfl)
  · exact .inr ⟨hrole, hterm, hgranted, rfl, rfl, rfl, .inl ⟨hrole, rfl⟩⟩
  · obtain ⟨next, matched, rfl⟩ := lead_spec hlead
    exact .inr ⟨hrole, hterm, hgranted, rfl, rfl, rfl, .inr ⟨rfl, hq⟩⟩

end Replica

namespace Member

/-! ## Applying -/

/-- The member's part in elections, the ballot it takes for stored, and the stored one. -/
def standing (m : Member MemoryDisk) : Stance × Ballot × Ballot :=
  (m.replica.stance, m.saved, m.disk.contents.ballot)

theorem standing_of_core {m m' : Member MemoryDisk} (h : m'.core = m.core) :
    m'.standing = m.standing := by
  obtain ⟨hr, hd, -, -, hs⟩ := core_eq_iff.1 h
  simp only [standing, hr, hd, hs]

theorem standing_of_quiet {m m' : Member MemoryDisk} (h : m.Quiet m') :
    m'.standing = m.standing := standing_of_core h.core

theorem standing_write {m m' : Member MemoryDisk} {w : DiskWrite} {e : Option IoError}
    (hw : ∀ d : DiskContents, (d.after w).ballot = d.ballot) (h : m.write w = (m', e)) :
    m'.standing = m.standing := by
  simp only [write, Disk.write, MemoryDisk.write] at h
  split at h <;> cases h
  · rfl
  · simp only [standing, hw]

theorem standing_applyEntry (m : Member MemoryDisk) (e : Entry) :
    (m.applyEntry e).1.standing = m.standing := by
  simp only [applyEntry]
  split <;> simp only <;> split <;> rfl

theorem standing_applyAll (m : Member MemoryDisk) (es : List Entry) :
    (m.applyAll es).1.standing = m.standing := by
  induction es generalizing m with
  | nil => rfl
  | cons e es ih =>
    have he := standing_applyEntry m e
    rw [applyAll]
    split
    · next m₁ heq => exact (ih m₁).trans (by rw [heq] at he; exact he)
    · next m₁ err heq => rw [heq] at he; exact he

theorem standing_takeImage {m m' : Member MemoryDisk} {now : Instant} {e : Option ServiceError}
    (h : m.takeImage now = .ok (m', e)) : m'.standing = m.standing := by
  unfold takeImage at h
  obtain ⟨⟨r, removed⟩, hr, h⟩ := bind_eq_ok.1 h
  have hr' : (show Member MemoryDisk from { m with replica := r }).standing = m.standing := by
    simp only [standing, Replica.stance_compact hr]
  simp only at h
  split at h
  · cases h
    exact hr'
  · split at h
    · next m₁ err hw =>
      cases h
      exact (standing_write (fun _ => rfl) hw).trans hr'
    · next m₁ hw =>
      have h₁ := (standing_write (fun _ => rfl) hw).trans hr'
      split at h
      · next m₂ err hw' =>
        cases h
        exact (standing_write (fun _ => rfl) hw').trans h₁
      · next m₂ hw' =>
        cases h
        exact (standing_write (fun _ => rfl) hw').trans h₁

theorem standing_applyCommitted {m m' : Member MemoryDisk} {now : Instant}
    {e : Option ServiceError} (h : m.applyCommitted now = .ok (m', e)) :
    m'.standing = m.standing := by
  unfold applyCommitted at h
  split at h
  · next m₁ err hw =>
    cases h
    exact standing_write (fun _ => rfl) hw
  · next m₁ hw =>
    have h₁ := standing_write (fun _ => rfl) hw
    have h₂ : (show Member MemoryDisk from
        { m₁ with replica := m₁.replica.takeCommitted.1 }).standing = m.standing := h₁
    simp only at h
    split at h
    · cases h
      exact h₂
    · have h₃ := (standing_applyAll _ m₁.replica.takeCommitted.2).trans h₂
      split at h
      · next m₂ err heq =>
        cases h
        rw [heq] at h₃
        exact h₃
      · next m₂ heq =>
        rw [heq] at h₃
        split at h
        · exact (standing_takeImage h).trans h₃
        · cases h
          exact h₃

theorem standing_applyOrHalt {m m' : Member MemoryDisk} {now : Instant}
    (h : m.applyOrHalt now = .ok m') : m'.standing = m.standing := by
  unfold applyOrHalt at h
  obtain ⟨⟨m₁, e⟩, hm₁, h⟩ := bind_eq_ok.1 h
  have h₁ := standing_applyCommitted hm₁
  cases e with
  | none =>
    cases h
    exact h₁
  | some err =>
    cases h
    exact (standing_of_quiet (quiet_halt _ _ _)).trans h₁

/-! ## Sworn members -/

/-- The disk follows memory: the stored ballot comes before the one in memory. -/
structure Bound (v : NodeId) (members : List NodeId) (m : Member MemoryDisk) : Prop where
  id : m.replica.id = v
  members : m.replica.members.Perm members
  stored : m.disk.contents.ballot = m.saved
  behind : m.saved.Precedes m.replica.ballot

/-- A candidate or leader has its own vote stored. -/
structure Sworn (v : NodeId) (members : List NodeId) (m : Member MemoryDisk) : Prop
    extends Bound v members m where
  standing : m.replica.role ≠ .follower → m.replica.ballot = m.saved ∧ m.replica.vote = some v

/-- The member is sworn as before, its stored ballot comes after, and it took no new part. -/
structure Heeds (v : NodeId) (members : List NodeId) (m m' : Member MemoryDisk) : Prop where
  sworn : m'.Sworn v members
  stored : m.disk.contents.ballot.Precedes m'.disk.contents.ballot
  turn : m'.replica.stance = m.replica.stance ∨ m'.replica.role = .follower

variable {v : NodeId} {members : List NodeId} {m m' m'' : Member MemoryDisk}

theorem Bound.sworn (h : m.Bound v members) (hrole : m.replica.role = .follower) :
    m.Sworn v members :=
  ⟨h, fun hne => absurd hrole hne⟩

theorem Bound.heeds (h : m.Bound v members) {r : Replica} (hr : m.replica.Heeds r) :
    (show Member MemoryDisk from { m with replica := r }).Bound v members :=
  ⟨hr.id.trans h.id, hr.members ▸ h.members, h.stored, h.behind.trans hr.ballot⟩

theorem Sworn.of_standing (h : m.Sworn v members) (hs : m'.standing = m.standing) :
    m'.Sworn v members := by
  simp only [Member.standing, Prod.mk.injEq, Replica.stance_eq_iff] at hs
  obtain ⟨⟨hid, hmem, hrole, hballot, -⟩, hsaved, hstored⟩ := hs
  have hvote : m'.replica.vote = m.replica.vote := congrArg Ballot.vote hballot
  refine ⟨⟨hid.trans h.id, hmem ▸ h.members, ?_, ?_⟩, ?_⟩
  · rw [hstored, hsaved]; exact h.stored
  · rw [hsaved, hballot]; exact h.behind
  · rw [hrole, hballot, hsaved, hvote]; exact h.standing

theorem Heeds.of_standing (h : m.Sworn v members) (hs : m'.standing = m.standing) :
    Heeds v members m m' := by
  refine ⟨h.of_standing hs, ?_, ?_⟩ <;> simp only [Member.standing, Prod.mk.injEq] at hs
  · rw [hs.2.2]; exact .refl _
  · exact .inl hs.1

theorem Heeds.refl (h : m.Sworn v members) : Heeds v members m m := .of_standing h rfl

theorem Heeds.trans (h : Heeds v members m m') (h' : Heeds v members m' m'') :
    Heeds v members m m'' := by
  refine ⟨h'.sworn, h.stored.trans h'.stored, ?_⟩
  rcases h'.turn with hs | hf
  · rcases h.turn with hs' | hf'
    · exact .inl (hs.trans hs')
    · exact .inr ((Replica.stance_eq_iff.1 hs).2.2.1.trans hf')
  · exact .inr hf

theorem Heeds.then_standing (h : Heeds v members m m') (hs : m''.standing = m'.standing) :
    Heeds v members m m'' := h.trans (.of_standing h.sworn hs)

/-- A replica that heeds a request, before its ballot is written. -/
theorem Sworn.heeds (h : m.Sworn v members) {r : Replica} (hr : m.replica.Heeds r) :
    Heeds v members m { m with replica := r } := by
  refine ⟨⟨h.toBound.heeds hr, ?_⟩, .refl _, hr.turn.imp (fun hs => hs) And.left⟩
  intro hrole
  rcases hr.turn with hs | hf
  · obtain ⟨-, -, hrole', hballot, -⟩ := Replica.stance_eq_iff.1 hs
    have hstand := h.standing (hrole' ▸ hrole)
    exact ⟨hballot.trans hstand.1, (congrArg Ballot.vote hballot).trans hstand.2⟩
  · exact absurd hf.1 hrole

/-- Only the ballot is written. A write that fails changes nothing, one that succeeds makes memory
and disk one. -/
theorem saveBallot_spec {e : Option IoError} (h : m.saveBallot = (m', e)) :
    m'.replica = m.replica ∧
      ((m'.saved = m.saved ∧ m'.disk.contents.ballot = m.disk.contents.ballot ∧
          (e = none → m.replica.ballot = m.saved)) ∨
        (m'.saved = m.replica.ballot ∧ m'.disk.contents.ballot = m.replica.ballot ∧ e = none)) := by
  unfold saveBallot at h
  split at h
  · next heq =>
    cases h
    exact ⟨rfl, .inl ⟨rfl, rfl, fun _ => heq⟩⟩
  · simp only [write, Disk.write, MemoryDisk.write] at h
    split at h
    · next hw =>
      split at hw
      · cases hw
      · cases hw
        cases h
        exact ⟨rfl, .inr ⟨rfl, rfl, rfl⟩⟩
    · next hw =>
      split at hw
      · cases hw
        cases h
        exact ⟨rfl, .inl ⟨rfl, rfl, fun hnone => absurd hnone (Option.some_ne_none _)⟩⟩
      · cases hw

theorem Bound.saveBallot (h : m.Bound v members) {e : Option IoError}
    (hs : m.saveBallot = (m', e)) :
    m'.Bound v members ∧ m'.replica = m.replica ∧
      m.disk.contents.ballot.Precedes m'.disk.contents.ballot ∧
      (e = none → m'.saved = m.replica.ballot) := by
  obtain ⟨hr, ⟨hsaved, hstored, hnone⟩ | ⟨hsaved, hstored, -⟩⟩ := saveBallot_spec hs
  · refine ⟨⟨hr ▸ h.id, hr ▸ h.members, ?_, ?_⟩, hr, ?_, ?_⟩
    · rw [hstored, hsaved]; exact h.stored
    · rw [hsaved, hr]; exact h.behind
    · rw [hstored]; exact .refl _
    · exact fun he => hsaved.trans (hnone he).symm
  · refine ⟨⟨hr ▸ h.id, hr ▸ h.members, hstored.trans hsaved.symm, ?_⟩, hr, ?_, fun _ => hsaved⟩
    · rw [hsaved, hr]; exact .refl _
    · rw [hstored, h.stored]; exact h.behind

theorem Sworn.saveBallot (h : m.Sworn v members) {e : Option IoError}
    (hs : m.saveBallot = (m', e)) :
    Heeds v members m m' ∧ (e = none → m'.disk.contents.ballot = m.replica.ballot) := by
  obtain ⟨hb, hr, hle, hnone⟩ := h.toBound.saveBallot hs
  refine ⟨⟨⟨hb, ?_⟩, hle, .inl (hr ▸ rfl)⟩, fun he => hb.stored.trans (hnone he)⟩
  intro hrole
  rw [hr] at hrole ⊢
  obtain ⟨hballot, hvote⟩ := h.standing hrole
  -- the ballot was stored already, so nothing was written
  obtain ⟨-, ⟨hsaved, -⟩ | ⟨hsaved, -⟩⟩ := saveBallot_spec hs
  · exact ⟨hballot.trans hsaved.symm, hvote⟩
  · exact ⟨hsaved.symm, hvote⟩

/-! ## Sections -/

theorem Sworn.propose (h : m.Sworn v members) {now : Instant} {command : Command} {ticket : Nat}
    {result : Except ServiceError Nat} (run : m.propose now command ticket = .ok (m', result)) :
    Heeds v members m m' := by
  unfold Member.propose at run
  obtain ⟨proposed, hp, run⟩ := bind_eq_ok.1 run
  cases proposed with
  | none =>
    cases run
    exact .refl h
  | some p =>
    obtain ⟨r, e⟩ := p
    simp only at run
    split at run
    · next m₁ err hw =>
      cases run
      exact .of_standing h (standing_write (fun _ => rfl) hw)
    · next m₁ hw =>
      obtain ⟨⟨r', advanced⟩, hadv, run⟩ := bind_eq_ok.1 run
      have hw' := standing_write (fun _ => rfl) hw
      have hcore : (await { m₁ with replica := r } e.index ⟨e.term, ticket⟩).core =
          (show Member MemoryDisk from { m₁ with replica := r }).core := core_await _ _ _
      obtain ⟨hreplica, hdisk, -, -, hsaved⟩ := core_eq_iff.1 hcore
      have h₂ : (show Member MemoryDisk from
          { await { m₁ with replica := r } e.index ⟨e.term, ticket⟩ with replica := r' }).standing =
            m.standing := by
        have hr' := Replica.stance_advanceCommit hadv
        simp only [Member.standing, Prod.mk.injEq] at hw' ⊢
        rw [hdisk, hsaved, hr', hreplica, Replica.stance_propose hp]
        exact ⟨rfl, hw'.2⟩
      simp only at run
      split at run
      · obtain ⟨m₂, hm₂, run⟩ := bind_eq_ok.1 run
        cases run
        exact .of_standing h ((standing_of_quiet (quiet_finish _)).trans
          ((standing_applyOrHalt hm₂).trans h₂))
      · cases run
        exact .of_standing h ((standing_of_quiet (quiet_finish _)).trans h₂)

/-- A candidacy stands with its vote stored, or there is none. -/
theorem Sworn.campaign (h : m.Sworn v members) {q : Option VoteRequest}
    (run : m.campaign = .ok (m', q)) :
    (Heeds v members m m' ∧ q = none) ∨
      (m'.Sworn v members ∧ m.disk.contents.ballot.Precedes m'.disk.contents.ballot ∧
        m'.replica.Polled [v] ∧
        ∀ q', q = some q' → q' =
          ⟨m'.replica.term, v, m.replica.lastIndex, m.replica.lastTerm⟩) := by
  unfold Member.campaign at run
  split at run
  · cases run
    exact .inl ⟨.refl h, rfl⟩
  · obtain ⟨⟨r, request⟩, hr, run⟩ := bind_eq_ok.1 run
    obtain ⟨hid, hmem, hballot, hpoll, rfl⟩ := Replica.campaign_spec hr
    have hlt : m.saved.term < m.replica.term + 1 := by
      rcases h.behind with hlt | ⟨heq, -⟩
      · exact Nat.lt_succ_of_lt hlt
      · exact Nat.lt_succ_of_le (Nat.le_of_eq heq)
    have hb : (show Member MemoryDisk from { m with replica := r }).Bound v members :=
      ⟨hid.trans h.id, hmem ▸ h.members, h.stored, .inl (hballot ▸ hlt)⟩
    simp only at run
    split at run
    · next m₁ err hsave =>
      cases run
      obtain ⟨hb₁, hr₁, hle, -⟩ := hb.saveBallot hsave
      have hb₂ := hb₁.heeds (Replica.heeds_follow m₁.replica m₁.replica.term)
      have hheeds : Heeds v members m
          { m₁ with replica := m₁.replica.follow m₁.replica.term } :=
        ⟨hb₂.sworn rfl, hle, .inr rfl⟩
      exact .inl ⟨hheeds.then_standing (standing_of_quiet (quiet_finish _)), rfl⟩
    · next m₁ hsave =>
      cases run
      obtain ⟨hb₁, hr₁, hle, hsaved⟩ := hb.saveBallot hsave
      have hs₁ : m₁.Sworn v members := by
        refine ⟨hb₁, fun _ => ⟨by rw [hsaved rfl, hr₁], ?_⟩⟩
        rw [hr₁, ← h.id]
        exact congrArg Ballot.vote hballot
      have hq₁ := quiet_finish m₁
      refine .inr ⟨hs₁.of_standing (standing_of_quiet (quiet_finish m₁)), ?_, ?_, ?_⟩
      · rw [hq₁.disk]; exact hle
      · rw [hq₁.replica, hr₁, ← h.id]; exact hpoll
      · intro q' hq'
        split at hq'
        · cases hq'
        · cases hq'
          rw [hq₁.replica, hr₁, h.id]
          have hterm : r.term = m.replica.term + 1 := congrArg Ballot.term hballot
          rw [hterm]

/-- A vote is granted only once it is stored. -/
theorem Sworn.answerVote (h : m.Sworn v members) {q : VoteRequest}
    {reply : Except ServiceError Message} (run : m.answerVote q = (m', reply)) :
    Heeds v members m m' ∧ ∀ t, reply = .ok (.voteReply t true) →
      m'.disk.contents.ballot = ⟨t, some q.candidate⟩ := by
  unfold Member.answerVote at run
  cases hr : m.replica.answerVote q with
  | mk r granted =>
    obtain ⟨hheeds, hgranted⟩ := Replica.answerVote_spec hr fun hrole => by
      rw [(h.standing hrole).2]
      exact Option.some_ne_none v
    have h₁ := h.heeds hheeds
    simp only [hr] at run
    split at run
    · next m₁ err hsave =>
      cases run
      have h₂ := h₁.trans (h₁.sworn.saveBallot hsave).1
      exact ⟨h₂.then_standing (standing_of_quiet (quiet_finish _)), nofun⟩
    · next m₁ hsave =>
      cases run
      obtain ⟨h₂, hstored⟩ := h₁.sworn.saveBallot hsave
      have hquiet : m₁.Quiet (if granted = true then m₁.finish.emit .resetElectionTimer
          else m₁.finish) := by
        split
        · exact (quiet_finish m₁).emit .resetElectionTimer nofun
        · exact quiet_finish m₁
      refine ⟨(h₁.trans h₂).then_standing (standing_of_quiet hquiet), fun t ht => ?_⟩
      simp only [Except.ok.injEq, Message.voteReply.injEq] at ht
      obtain ⟨rfl, rfl⟩ := ht
      rw [hquiet.disk, hstored rfl]
      have hballot := hgranted rfl
      rw [show r.term = q.term from congrArg Ballot.term hballot]
      exact hballot

theorem Sworn.persistEntries (h : m.Sworn v members) {change : Option LogChange}
    {e : Option IoError} (run : m.persistEntries change = .ok (m', e)) : Heeds v members m m' := by
  unfold Member.persistEntries at run
  split at run
  · next m₁ err hsave =>
    cases run
    exact (h.saveBallot hsave).1
  · next m₁ hsave =>
    have h₁ := (h.saveBallot hsave).1
    split at run
    · cases run
      exact h₁
    · obtain ⟨es, -, run⟩ := bind_eq_ok.1 run
      simp only [pure, Except.pure, Except.ok.injEq] at run
      exact h₁.then_standing (standing_write (fun _ => rfl) run)
    · simp only [Except.ok.injEq] at run
      exact h₁.then_standing (standing_write (fun _ => rfl) run)

theorem Sworn.answerAppend (h : m.Sworn v members) {now : Instant} {q : AppendRequest}
    {reply : Except ServiceError Message} (run : m.answerAppend now q = .ok (m', reply)) :
    Heeds v members m m' := by
  unfold Member.answerAppend at run
  obtain ⟨⟨r, o⟩, hr, run⟩ := bind_eq_ok.1 run
  have h₁ := (h.heeds (Replica.heeds_takeEntries hr)).then_standing
    (standing_of_quiet (quiet_noteLeader _ o.resetTimer))
  obtain ⟨⟨m₁, e⟩, hm₁, run⟩ := bind_eq_ok.1 run
  have h₂ := h₁.trans (h₁.sworn.persistEntries hm₁)
  cases e with
  | some err =>
    cases run
    exact h₂.then_standing ((standing_of_quiet (quiet_finish _)).trans
      (standing_of_quiet (quiet_halt _ _ _)))
  | none =>
    simp only at run
    split at run
    · obtain ⟨m₂, hm₂, run⟩ := bind_eq_ok.1 run
      cases run
      exact h₂.then_standing ((standing_of_quiet (quiet_finish _)).trans (standing_applyOrHalt hm₂))
    · cases run
      exact h₂.then_standing (standing_of_quiet (quiet_finish _))

theorem standing_install {image : Image} {e : Option IoError}
    (run : m.install image = (m', e)) : m'.standing = m.standing := by
  unfold install at run
  split at run
  · next m₁ err hw =>
    cases run
    exact standing_write (fun _ => rfl) hw
  · next m₁ hw =>
    have h₁ := standing_write (fun _ => rfl) hw
    simp only at run
    split at run
    · next m₂ err hw' =>
      cases run
      exact (standing_write (fun _ => rfl) hw').trans h₁
    · next m₂ hw' =>
      have h₂ := (standing_write (fun _ => rfl) hw').trans h₁
      split at run
      · next m₃ err hw'' =>
        cases run
        exact (standing_write (fun _ => rfl) hw'').trans h₂
      · next m₃ hw'' =>
        cases run
        exact (standing_write (fun _ => rfl) hw'').trans h₂

theorem Sworn.answerInstall (h : m.Sworn v members) {now : Instant} {q : InstallRequest}
    {reply : Except ServiceError Message} (run : m.answerInstall now q = .ok (m', reply)) :
    Heeds v members m m' := by
  unfold Member.answerInstall at run
  obtain ⟨⟨r, o⟩, hr, run⟩ := bind_eq_ok.1 run
  have h₁ := (h.heeds (Replica.heeds_takeImage hr)).then_standing
    (standing_of_quiet (quiet_noteLeader _ o.resetTimer))
  have h₂ : ∀ m₁ e, (noteLeader { m with replica := r } o.resetTimer).persistImage o.installed
      ⟨q.entries, q.lastIndex, q.lastTerm, now⟩ = (m₁, e) → Heeds v members m m₁ := by
    intro m₁ e hm₁
    unfold persistImage at hm₁
    split at hm₁
    · next m₂ err hsave =>
      cases hm₁
      exact h₁.trans (h₁.sworn.saveBallot hsave).1
    · next m₂ hsave =>
      have h₃ := h₁.trans (h₁.sworn.saveBallot hsave).1
      split at hm₁
      · exact h₃.then_standing (standing_install hm₁)
      · cases hm₁
        exact h₃
  simp only at run
  split at run
  · next m₁ err hm₁ =>
    cases run
    exact (h₂ m₁ _ hm₁).then_standing ((standing_of_quiet (quiet_finish _)).trans
      (standing_of_quiet (quiet_halt _ _ _)))
  · next m₁ hm₁ =>
    cases run
    exact (h₂ m₁ _ hm₁).then_standing (standing_of_quiet (quiet_finish _))

/-- A vote is counted for the candidacy it was granted to. -/
theorem Sworn.countVote (h : m.Sworn v members) {campaign term : Nat} {peer : NodeId}
    {granted more : Bool} (run : m.countVote campaign peer term granted = .ok (m', more)) :
    Heeds v members m m' ∨
      (m'.Sworn v members ∧ m'.disk.contents.ballot = m.disk.contents.ballot ∧
        m.replica.role = .candidate ∧ m.replica.term = term ∧ m'.replica.term = term ∧
        granted = true ∧ m'.replica.Polled (m.replica.tallied peer)) := by
  unfold Member.countVote at run
  obtain ⟨⟨r, won⟩, hr, hrun⟩ := bind_eq_ok.1 run
  clear run
  rcases Replica.countVote_spec hr with hheeds | ⟨hrole, rfl, hgranted, hid, hmem, hballot, hpoll⟩
  · have h₁ := h.heeds hheeds
    refine .inl ?_
    simp only at hrun
    split at hrun
    · next m₁ err hsave =>
      cases hrun
      exact (h₁.trans (h₁.sworn.saveBallot hsave).1).then_standing
        ((standing_of_quiet (quiet_finish _)).trans (standing_of_quiet (quiet_halt _ _ _)))
    · next m₁ hsave =>
      cases hrun
      exact (h₁.trans (h₁.sworn.saveBallot hsave).1).then_standing
        (standing_of_quiet (quiet_finish _))
  · obtain ⟨hsaved, hvote⟩ := h.standing (by rw [hrole]; exact nofun)
    have hb : (show Member MemoryDisk from { m with replica := r }).Sworn v members :=
      ⟨⟨hid.trans h.id, hmem ▸ h.members, h.stored, hballot ▸ h.behind⟩,
        fun _ => ⟨hballot.trans hsaved, (congrArg Ballot.vote hballot).trans hvote⟩⟩
    -- the ballot is the stored one, so nothing is written
    have hsave : Member.saveBallot { m with replica := r } = ({ m with replica := r }, none) :=
      if_pos (hballot.trans hsaved)
    simp only [hsave] at hrun
    cases hrun
    have hq₁ := quiet_finish { m with replica := r }
    refine .inr ⟨hb.of_standing (standing_of_quiet (quiet_finish _)), ?_, hrole, rfl, ?_, hgranted,
      ?_⟩
    · rw [hq₁.disk]
    · rw [hq₁.replica]
      exact congrArg Ballot.term hballot
    · rw [hq₁.replica]
      exact hpoll

theorem Sworn.recordReply (h : m.Sworn v members) {now : Instant} {peer : NodeId}
    {lastSent : Nat} {reply : Message} {more : Bool}
    (run : m.recordReply now peer lastSent reply = .ok (m', more)) : Heeds v members m m' := by
  obtain rfl | ⟨term, success, r, advanced, accepted, -, hr, run⟩ := recordReply_cases run
  · exact .refl h
  · have h₁ := h.heeds (Replica.heeds_recordAppend hr)
    unfold recorded at run
    split at run
    · next m₁ err hsave =>
      cases run
      exact (h₁.trans (h₁.sworn.saveBallot hsave).1).then_standing
        ((standing_of_quiet (quiet_finish _)).trans (standing_of_quiet (quiet_halt _ _ _)))
    · next m₁ hsave =>
      have h₂ := h₁.trans (h₁.sworn.saveBallot hsave).1
      split at run
      · obtain ⟨m₂, hm₂, run⟩ := bind_eq_ok.1 run
        cases run
        exact h₂.then_standing ((standing_of_quiet (quiet_finish _)).trans
          (standing_applyOrHalt hm₂))
      · cases run
        exact h₂.then_standing (standing_of_quiet (quiet_finish _))

theorem Sworn.recordBeat (h : m.Sworn v members) {now : Instant} {peer : NodeId} {lastSent : Nat}
    {reply : Message} (run : m.recordBeat now peer lastSent reply = .ok m') :
    Heeds v members m m' := by
  obtain ⟨m₁, more, hm₁, hbegins⟩ := recordBeat_cases run
  exact (h.recordReply hm₁).then_standing (standing_of_quiet hbegins.quiet)

theorem standing_heartbeats {beats : List (NodeId × AppendRequest)}
    (run : m.heartbeats = (m', beats)) : m'.standing = m.standing := by
  have h := standing_of_quiet (quiet_heartbeats m)
  rw [run] at h
  exact h

/-! ## Starting -/

theorem stance_loadLog {r r' : Replica} {loaded loaded' : Nat} {es : List Entry}
    (h : r.loadLog loaded es = .ok (r', loaded')) : r'.stance = r.stance := by
  induction es generalizing r loaded with
  | nil =>
    cases h
    rfl
  | cons e es ih =>
    rw [Replica.loadLog] at h
    split at h
    · exact ih h
    · obtain ⟨following, -, h⟩ := bind_eq_ok.1 h
      split at h
      · have hs := ih h
        exact hs
      · cases h
        rfl

theorem standing_recoverImage (m : Member MemoryDisk) (image : Option Image) :
    (m.recoverImage image).standing = m.standing := by
  cases image <;> rfl

theorem standing_recoverLog {log : List Entry} {commit : Nat}
    (h : m.recoverLog log commit = .ok m') : m'.standing = m.standing := by
  unfold recoverLog at h
  obtain ⟨⟨r, n⟩, hr, h⟩ := bind_eq_ok.1 h
  cases h
  have hs : r.stance = m.replica.stance := stance_loadLog hr
  exact Prod.ext hs rfl

/-- A member that starts has the ballot of its disk. -/
theorem standing_load {s : MemberSettings} {d : MemoryDisk} (h : (blank s d).load = .ok (.ok m)) :
    m.standing = ((blank s d).recoverBallot d.contents.ballot).standing :=
  (standing_recoverLog (load_spec h)).trans (standing_recoverImage _ _)

theorem sworn_start {peers : List NodeId} {config : Config} {d : MemoryDisk} {now : Instant}
    (hmem : (v :: peers).Perm members) (run : start ⟨v, peers, config⟩ d now = .ok (.ok m)) :
    m.Sworn v members ∧ m.disk.contents.ballot = d.contents.ballot ∧
      m.replica.role = .follower := by
  obtain ⟨-, m₀, m₁, hload, happ, rfl⟩ := start_cases run
  have hs := (standing_applyCommitted happ).trans (standing_load hload)
  simp only [standing, Prod.mk.injEq, Replica.stance_eq_iff] at hs
  obtain ⟨⟨hid, hm, hrole, hballot, -⟩, hsaved, hstored⟩ := hs
  have hall : (Replica.create v (peers ++ [v]) config).members = peers ++ [v] := by
    simp [Replica.create]
  refine ⟨⟨⟨hid, ?_, hstored.trans hsaved.symm, ?_⟩, fun hne => absurd hrole hne⟩, hstored, hrole⟩
  · rw [hm, show ((blank ⟨v, peers, config⟩ d).recoverBallot d.contents.ballot).replica.members =
      peers ++ [v] from hall]
    exact (List.perm_append_singleton v peers).trans hmem
  · rw [hsaved, hballot]
    exact .refl _

theorem stored_start_error {s : MemberSettings} {d d' : MemoryDisk} {now : Instant}
    {e : ServiceError} (run : start s d now = .ok (.error (e, d'))) :
    d'.contents.ballot = d.contents.ballot := by
  obtain rfl | ⟨m₀, m₁, e', hload, happ, rfl⟩ := start_cases_error run
  · rfl
  · have hs := (standing_applyCommitted happ).trans (standing_load hload)
    simp only [standing, Prod.mk.injEq] at hs
    exact hs.2.2

end Member

end ReplicatedStore
