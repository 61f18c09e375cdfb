import ReplicatedStore.Proofs.Quorums
import ReplicatedStore.Proofs.Standing
import ReplicatedStore.Proofs.World
/-!
# Election safety

No node votes for two candidates in one term, and no two nodes lead in one term, although any write
may fail and a node may crash inside a section.

The invariant `Elections c P w` speaks of every ballot that a disk has ever held: `P v b` says that
the disk of `v` has held `b`. The stored ballots of one node are linearly ordered, so it has stored
at most one vote in a term (`Elections.vote_unique`). A granted vote and a candidacy are stored
before anyone hears of them, a leader was elected by a majority of stored votes, and two majorities
meet.
-/
namespace ReplicatedStore

variable {c : Conditions} {w w' : World} {v : NodeId}

namespace World

@[simp] theorem sites_after_self (w : World) (v : NodeId) (d : Deed) :
    (w.after v d).sites v = .up { d.member with outbox := [] } := Function.update_self ..

theorem sites_after_of_ne (w : World) (d : Deed) {u : NodeId} (h : u ≠ v) :
    (w.after v d).sites u = w.sites u := Function.update_of_ne h ..

@[simp] theorem sites_resting_self (w : World) (v : NodeId) (d : MemoryDisk) :
    (w.resting v d).sites v = .down d := Function.update_self ..

theorem sites_resting_of_ne (w : World) (d : MemoryDisk) {u : NodeId} (h : u ≠ v) :
    (w.resting v d).sites u = w.sites u := Function.update_of_ne h ..

theorem up_after {d : Deed} {u : NodeId} {m : Member MemoryDisk}
    (h : (w.after v d).sites u = .up m) :
    (u = v ∧ m = { d.member with outbox := [] }) ∨ (u ≠ v ∧ w.sites u = .up m) := by
  by_cases hu : u = v
  · subst hu
    simp only [sites_after_self, Site.up.injEq] at h
    exact .inl ⟨rfl, h.symm⟩
  · rw [sites_after_of_ne w d hu] at h
    exact .inr ⟨hu, h⟩

theorem down_after {d : Deed} {u : NodeId} {k : MemoryDisk}
    (h : (w.after v d).sites u = .down k) : u ≠ v ∧ w.sites u = .down k := by
  by_cases hu : u = v
  · subst hu
    simp at h
  · rw [sites_after_of_ne w d hu] at h
    exact ⟨hu, h⟩

theorem up_resting {d : MemoryDisk} {u : NodeId} {m : Member MemoryDisk}
    (h : (w.resting v d).sites u = .up m) : u ≠ v ∧ w.sites u = .up m := by
  by_cases hu : u = v
  · subst hu
    simp at h
  · rw [sites_resting_of_ne w d hu] at h
    exact ⟨hu, h⟩

theorem down_resting {d : MemoryDisk} {u : NodeId} {k : MemoryDisk}
    (h : (w.resting v d).sites u = .down k) :
    (u = v ∧ k = d) ∨ (u ≠ v ∧ w.sites u = .down k) := by
  by_cases hu : u = v
  · subst hu
    simp only [sites_resting_self, Site.down.injEq] at h
    exact .inl ⟨rfl, h.symm⟩
  · rw [sites_resting_of_ne w d hu] at h
    exact .inr ⟨hu, h⟩

/-- The stored ballot of a node. -/
def stored (w : World) (v : NodeId) : Ballot := (w.sites v).disk.contents.ballot

theorem sites_cutAfter (w : World) (v u : NodeId) (k : Nat) :
    (w.cutAfter v k).sites u = w.sites u ∨
      (w.cutAfter v k).sites u = (w.sites u).mapDisk (·.cutAfter k) := by
  by_cases hu : u = v
  · subst hu
    exact .inr (Function.update_self ..)
  · exact .inl (Function.update_of_ne hu ..)

theorem stored_cutAfter (w : World) (v u : NodeId) (k : Nat) :
    (w.cutAfter v k).stored u = w.stored u := by
  unfold stored
  rcases sites_cutAfter w v u k with hu | hu
  · rw [hu]
  · rw [hu]
    cases w.sites u <;> rfl

theorem up_cutAfter {u : NodeId} {k : Nat} {m : Member MemoryDisk}
    (h : (w.cutAfter v k).sites u = .up m) :
    ∃ m₀, w.sites u = .up m₀ ∧ m.standing = m₀.standing := by
  rcases sites_cutAfter w v u k with hu | hu
  · exact ⟨m, hu ▸ h, rfl⟩
  · rw [hu] at h
    cases hw : w.sites u with
    | down d =>
      rw [hw] at h
      cases h
    | up m₀ =>
      rw [hw] at h
      cases h
      exact ⟨m₀, rfl, rfl⟩

/-- The node told others, or shows, that it gives a vote to a node in a term: it granted the vote,
it asked for votes as that node, or it is a candidate or leads. -/
def Backs (w : World) (v u : NodeId) (term : Nat) : Prop :=
  (∃ r q, (r, .voteReply term true) ∈ w.replies ∧ r.body = .voteRequest q ∧ r.receiver = v ∧
    q.candidate = u) ∨
  (u = v ∧ ∃ r ∈ w.requests, ∃ q, r.body = .voteRequest q ∧ r.sender = v ∧ q.term = term) ∨
  (u = v ∧ ∃ m, w.sites v = .up m ∧ m.replica.role ≠ .follower ∧ m.replica.term = term)

/-- The node leads in a term. -/
def Leads (w : World) (v : NodeId) (term : Nat) : Prop :=
  ∃ m, w.sites v = .up m ∧ m.replica.role = .leader ∧ m.replica.term = term

end World

/-! ## The invariant -/

/-- What disks have held once a node's disk holds a ballot. -/
def Stored (P : NodeId → Ballot → Prop) (v : NodeId) (b : Ballot) : NodeId → Ballot → Prop :=
  fun u b' => P u b' ∨ u = v ∧ b' = b

/-- Members that have stored their vote for a node in a term. -/
structure Voters (c : Conditions) (P : NodeId → Ballot → Prop) (v : NodeId) (term : Nat)
    (votes : List NodeId) : Prop where
  distinct : votes.Nodup
  known : votes ⊆ c.members
  voted : ∀ u ∈ votes, P u ⟨term, some v⟩

/-- What holds of the ballots that disks have held. -/
structure Elections (c : Conditions) (P : NodeId → Ballot → Prop) (w : World) : Prop where
  sworn : ∀ v m, w.sites v = .up m → m.Sworn v c.members ∧ v ∈ c.members
  current : ∀ v, P v (w.stored v)
  past : ∀ v b, P v b → b.Precedes (w.stored v)
  linear : ∀ v b b', P v b → P v b' → b.Precedes b' ∨ b'.Precedes b
  replied : ∀ r reply, (r, reply) ∈ w.replies → r ∈ w.requests
  asked : ∀ r ∈ w.requests, ∀ q, r.body = .voteRequest q →
    q.candidate = r.sender ∧ r.receiver ∈ c.members ∧ P r.sender ⟨q.term, some r.sender⟩
  granted : ∀ r term, (r, .voteReply term true) ∈ w.replies → ∀ q, r.body = .voteRequest q →
    P r.receiver ⟨term, some q.candidate⟩
  polled : ∀ v m, w.sites v = .up m → m.replica.role = .candidate →
    Voters c P v m.replica.term m.replica.votes
  elected : ∀ v m, w.sites v = .up m → m.replica.role = .leader →
    ∃ Q, Voters c P v m.replica.term Q ∧ Majority c.members Q

variable {P P' : NodeId → Ballot → Prop}

theorem Voters.mono (h : ∀ u b, P u b → P' u b) {term : Nat} {votes : List NodeId}
    (hv : Voters c P v term votes) : Voters c P' v term votes :=
  ⟨hv.distinct, hv.known, fun u hu => h u _ (hv.voted u hu)⟩

namespace Elections

theorem initial (c : Conditions) : Elections c (fun _ b => b = ⟨0, none⟩) (.initial c) where
  sworn _ _ h := nomatch h
  current _ := rfl
  past _ _ h := h ▸ .refl _
  linear _ _ _ h h' := .inl (h ▸ h' ▸ .refl _)
  replied _ _ h := nomatch h
  asked _ h := nomatch h
  granted _ _ h := nomatch h
  polled _ _ h := nomatch h
  elected _ _ h := nomatch h

/-- A node has stored at most one vote in a term. -/
theorem vote_unique (h : Elections c P w) {u u' : NodeId} {term : Nat}
    (hu : P v ⟨term, some u⟩) (hu' : P v ⟨term, some u'⟩) : u = u' := by
  rcases h.linear v _ _ hu hu' with hle | hle
  · exact (Option.some.inj hle.eq_of_vote).symm
  · exact Option.some.inj hle.eq_of_vote

/-- At most one node has a majority of stored votes in a term. -/
theorem majority_unique (h : Elections c P w) {v' : NodeId} {term : Nat} {Q Q' : List NodeId}
    (hv : Voters c P v term Q) (hQ : Majority c.members Q) (hv' : Voters c P v' term Q')
    (hQ' : Majority c.members Q') : v = v' := by
  obtain ⟨u, hu, hu'⟩ := hQ.meet hQ'
  exact h.vote_unique (hv.voted u hu) (hv'.voted u hu')

/-- A candidate or leader has its own vote stored. -/
theorem own_vote (h : Elections c P w) {m : Member MemoryDisk} (up : w.sites v = .up m)
    (hrole : m.replica.role ≠ .follower) : P v ⟨m.replica.term, some v⟩ := by
  have hs := (h.sworn v m up).1
  obtain ⟨hballot, hvote⟩ := hs.standing hrole
  have hstored : w.stored v = ⟨m.replica.term, some v⟩ := by
    rw [World.stored, up, Site.disk_up, hs.stored, ← hballot, ← hvote]
    rfl
  exact hstored ▸ h.current v

theorem of_backs (h : Elections c P w) {u : NodeId} {term : Nat} (hb : w.Backs v u term) :
    P v ⟨term, some u⟩ := by
  rcases hb with ⟨r, q, hr, hq, rfl, rfl⟩ | ⟨rfl, r, hr, q, hq, rfl, rfl⟩ | ⟨rfl, m, up, hrole, rfl⟩
  · exact h.granted r term hr q hq
  · exact (h.asked r hr q hq).2.2
  · exact h.own_vote up hrole

/-! ## What a section preserves -/

/-- The stored ballots stay in order when a later one is stored. -/
theorem linear_stored (h : Elections c P w) {b : Ballot} (hb : (w.stored v).Precedes b) :
    ∀ u b₁ b₂, Stored P v b u b₁ → Stored P v b u b₂ → b₁.Precedes b₂ ∨ b₂.Precedes b₁ := by
  rintro u b₁ b₂ (h₁ | ⟨rfl, rfl⟩) (h₂ | ⟨hv, rfl⟩)
  · exact h.linear u b₁ b₂ h₁ h₂
  · subst hv
    exact .inl ((h.past u b₁ h₁).trans hb)
  · exact .inr ((h.past u b₂ h₂).trans hb)
  · exact .inl (.refl _)

/-- Of the stored ballots only that of the acting node moved on. -/
theorem current_stored (h : Elections c P w) {b : Ballot} (hself : w'.stored v = b)
    (hother : ∀ u, u ≠ v → w'.stored u = w.stored u) (u : NodeId) :
    Stored P v b u (w'.stored u) := by
  by_cases hu : u = v
  · exact .inr ⟨hu, hu ▸ hself⟩
  · exact .inl (hother u hu ▸ h.current u)

theorem past_stored (h : Elections c P w) {b : Ballot} (hself : w'.stored v = b)
    (hother : ∀ u, u ≠ v → w'.stored u = w.stored u) (hb : (w.stored v).Precedes b) (u : NodeId)
    (b' : Ballot) (hb' : Stored P v b u b') : b'.Precedes (w'.stored u) := by
  rcases hb' with hold | ⟨rfl, rfl⟩
  · by_cases hu : u = v
    · subst hu
      exact hself ▸ (h.past u b' hold).trans hb
    · exact hother u hu ▸ h.past u b' hold
  · exact hself ▸ .refl _

/-- A section preserves the invariant if the member stays sworn, stores no earlier ballot, and what
it tells others is stored. -/
theorem after (h : Elections c P w) {d : Deed} (hsworn : d.member.Sworn v c.members)
    (hseat : v ∈ c.members) (hstored : (w.stored v).Precedes d.member.disk.contents.ballot)
    (hpolled : d.member.replica.role = .candidate →
      Voters c (Stored P v d.member.disk.contents.ballot) v d.member.replica.term
        d.member.replica.votes)
    (helected : d.member.replica.role = .leader →
      ∃ Q, Voters c (Stored P v d.member.disk.contents.ballot) v d.member.replica.term Q ∧
        Majority c.members Q)
    (hreplied : ∀ r reply, (r, reply) ∈ d.replies → r ∈ w.requests)
    (hasked : ∀ r ∈ d.requests, ∀ q, r.body = .voteRequest q → r.sender = v ∧ q.candidate = v ∧
      r.receiver ∈ c.members ∧ d.member.disk.contents.ballot = ⟨q.term, some v⟩)
    (hgranted : ∀ r term, (r, .voteReply term true) ∈ d.replies → ∀ q, r.body = .voteRequest q →
      r.receiver = v ∧ d.member.disk.contents.ballot = ⟨term, some q.candidate⟩) :
    Elections c (Stored P v d.member.disk.contents.ballot) (w.after v d) := by
  have hmono : ∀ u b, P u b → Stored P v d.member.disk.contents.ballot u b := fun _ _ => .inl
  have hself : (w.after v d).stored v = d.member.disk.contents.ballot := by simp [World.stored]
  have hother : ∀ u, u ≠ v → (w.after v d).stored u = w.stored u := fun u hu => by
    simp [World.stored, World.sites_after_of_ne w d hu]
  constructor
  · intro u m up
    obtain ⟨rfl, rfl⟩ | ⟨-, up⟩ := World.up_after up
    · exact ⟨hsworn.of_standing rfl, hseat⟩
    · exact h.sworn u m up
  · exact h.current_stored hself hother
  · exact h.past_stored hself hother hstored
  · exact h.linear_stored hstored
  · intro r reply hr
    rcases List.mem_append.1 hr with hr | hr
    · exact List.mem_append_left _ (h.replied r reply hr)
    · exact List.mem_append_left _ (hreplied r reply hr)
  · intro r hr q hq
    rcases List.mem_append.1 hr with hr | hr
    · exact (h.asked r hr q hq).imp_right (And.imp_right (hmono _ _))
    · obtain ⟨rfl, hcand, hknown, hballot⟩ := hasked r hr q hq
      exact ⟨hcand, hknown, .inr ⟨rfl, hballot.symm⟩⟩
  · intro r term hr q hq
    rcases List.mem_append.1 hr with hr | hr
    · exact hmono _ _ (h.granted r term hr q hq)
    · obtain ⟨hv, hballot⟩ := hgranted r term hr q hq
      exact .inr ⟨hv, hballot.symm⟩
  · intro u m up hrole
    obtain ⟨rfl, rfl⟩ | ⟨-, up⟩ := World.up_after up
    · exact hpolled hrole
    · exact (h.polled u m up hrole).mono hmono
  · intro u m up hrole
    obtain ⟨rfl, rfl⟩ | ⟨-, up⟩ := World.up_after up
    · exact helected hrole
    · obtain ⟨Q, hQ, hmaj⟩ := h.elected u m up hrole
      exact ⟨Q, hQ.mono hmono, hmaj⟩

/-- A section in which the member takes no new part, and tells others nothing but votes that it has
stored. -/
theorem heeds (h : Elections c P w) {m : Member MemoryDisk} (up : w.sites v = .up m) {d : Deed}
    (hd : m.Heeds v c.members d.member)
    (hreplied : ∀ r reply, (r, reply) ∈ d.replies → r ∈ w.requests)
    (hasked : ∀ r ∈ d.requests, ∀ q, r.body ≠ .voteRequest q)
    (hgranted : ∀ r term, (r, .voteReply term true) ∈ d.replies → ∀ q, r.body = .voteRequest q →
      r.receiver = v ∧ d.member.disk.contents.ballot = ⟨term, some q.candidate⟩) :
    Elections c (Stored P v d.member.disk.contents.ballot) (w.after v d) := by
  have hmono : ∀ u b, P u b → Stored P v d.member.disk.contents.ballot u b := fun _ _ => .inl
  have hsame : d.member.replica.role ≠ .follower →
      d.member.replica.role = m.replica.role ∧ d.member.replica.term = m.replica.term ∧
        d.member.replica.votes = m.replica.votes := by
    intro hrole
    obtain hs | hf := hd.turn
    · obtain ⟨-, -, hr, hb, hv⟩ := Replica.stance_eq_iff.1 hs
      exact ⟨hr, congrArg Ballot.term hb, hv⟩
    · exact absurd hf hrole
  refine h.after hd.sworn (h.sworn v m up).2 ?_ ?_ ?_ hreplied
    (fun r hr q hq => absurd hq (hasked r hr q)) hgranted
  · rw [World.stored, up]
    exact hd.stored
  · intro hrole
    obtain ⟨hr, ht, hv⟩ := hsame (by rw [hrole]; exact nofun)
    rw [ht, hv]
    exact (h.polled v m up (hr ▸ hrole)).mono hmono
  · intro hrole
    obtain ⟨hr, ht, -⟩ := hsame (by rw [hrole]; exact nofun)
    rw [ht]
    obtain ⟨Q, hQ, hmaj⟩ := h.elected v m up (hr ▸ hrole)
    exact ⟨Q, hQ.mono hmono, hmaj⟩

/-- A node goes down, and its disk holds a ballot that comes after. -/
theorem resting (h : Elections c P w) {d : MemoryDisk}
    (hd : (w.stored v).Precedes d.contents.ballot) :
    Elections c (Stored P v d.contents.ballot) (w.resting v d) := by
  have hmono : ∀ u b, P u b → Stored P v d.contents.ballot u b := fun _ _ => .inl
  have hself : (w.resting v d).stored v = d.contents.ballot := by simp [World.stored]
  have hother : ∀ u, u ≠ v → (w.resting v d).stored u = w.stored u := fun u hu => by
    simp [World.stored, World.sites_resting_of_ne w d hu]
  constructor
  · exact fun u m up => h.sworn u m (World.up_resting up).2
  · exact h.current_stored hself hother
  · exact h.past_stored hself hother hd
  · exact h.linear_stored hd
  · exact h.replied
  · exact fun r hr q hq => (h.asked r hr q hq).imp_right (And.imp_right (hmono _ _))
  · exact fun r term hr q hq => hmono _ _ (h.granted r term hr q hq)
  · exact fun u m up hrole => (h.polled u m (World.up_resting up).2 hrole).mono hmono
  · intro u m up hrole
    obtain ⟨Q, hQ, hmaj⟩ := h.elected u m (World.up_resting up).2 hrole
    exact ⟨Q, hQ.mono hmono, hmaj⟩

/-! ## Steps -/

theorem mem_answer {r r' : Request} {reply : Message} {result : Except ServiceError Message} :
    (r', reply) ∈ r.answer result ↔ r' = r ∧ result = .ok reply := by
  cases result <;> simp [Request.answer, eq_comm]

/-- A request that was sent is answered, and votes are granted only as the ballot says. -/
theorem answered (h : Elections c P w) {m m' : Member MemoryDisk} (up : w.sites v = .up m)
    (hd : m.Heeds v c.members m') {r : Request} {reply : Except ServiceError Message}
    (sent : r ∈ w.requests) (hgranted : ∀ q term, r.body = .voteRequest q →
      reply = .ok (.voteReply term true) →
      r.receiver = v ∧ m'.disk.contents.ballot = ⟨term, some q.candidate⟩) :
    Elections c (Stored P v m'.disk.contents.ballot)
      (w.after v { member := m', replies := r.answer reply }) := by
  refine h.heeds up (d := { member := m', replies := r.answer reply }) hd ?_ nofun ?_
  · intro r' x hx
    obtain ⟨rfl, -⟩ := mem_answer.1 hx
    exact sent
  · intro r' term hx q hq
    obtain ⟨rfl, hreply⟩ := mem_answer.1 hx
    exact hgranted q term hq hreply

theorem known_of_peer {m : Member MemoryDisk} (hs : m.Sworn v c.members) {p : NodeId}
    (hp : p ∈ m.replica.peers) : p ∈ c.members :=
  hs.members.subset (List.mem_filter.1 hp).1

/-- A voter that was counted before is not counted again. -/
theorem nodup_tallied {r : Replica} (h : r.votes.Nodup) (sender : NodeId) :
    (r.tallied sender).Nodup := by
  unfold Replica.tallied
  split
  · exact h
  · next hnot =>
    refine List.nodup_append.2 ⟨h, List.pairwise_singleton _ _, fun u hu u' hu' heq => ?_⟩
    exact hnot (List.mem_singleton.1 hu' ▸ heq ▸ hu)

theorem mem_tallied {r : Replica} {sender u : NodeId} (h : u ∈ r.tallied sender) :
    u ∈ r.votes ∨ u = sender := by
  unfold Replica.tallied at h
  split at h
  · exact .inl h
  · exact (List.mem_append.1 h).imp_right List.mem_singleton.1

/-- With the vote of a member that was asked, the votes are still of members, each counted once. -/
theorem tallied (h : Elections c P w) {m : Member MemoryDisk} (up : w.sites v = .up m)
    (hrole : m.replica.role = .candidate) {r : Request} {reply : Message} {q : VoteRequest}
    (replied : (r, reply) ∈ w.replies) (body : r.body = .voteRequest q) :
    (m.replica.tallied r.receiver).Nodup ∧ m.replica.tallied r.receiver ⊆ c.members := by
  have hvotes := h.polled v m up hrole
  obtain ⟨-, hknown, -⟩ := h.asked r (h.replied r _ replied) q body
  refine ⟨nodup_tallied hvotes.distinct _, fun u hu => ?_⟩
  rcases mem_tallied hu with hu | rfl
  · exact hvotes.known hu
  · exact hknown

/-- A member with enough votes is a candidate with voters or was elected by them. -/
theorem of_polled {m : Member MemoryDisk} (hs : m.Sworn v c.members) {votes : List NodeId}
    (hv : Voters c P v m.replica.term votes) (hp : m.replica.Polled votes) :
    (m.replica.role = .candidate → Voters c P v m.replica.term m.replica.votes) ∧
      (m.replica.role = .leader →
        ∃ Q, Voters c P v m.replica.term Q ∧ Majority c.members Q) := by
  rcases hp with ⟨hrole, heq⟩ | ⟨hrole, hquorum⟩
  · exact ⟨fun _ => heq ▸ hv, fun h => nomatch hrole.symm.trans h⟩
  · exact ⟨fun h => (nomatch hrole.symm.trans h),
      fun _ => ⟨votes, hv, .of_quorum hs.members hv.distinct hv.known hquorum⟩⟩

theorem timeout (h : Elections c P w) {m m' : Member MemoryDisk} (up : w.sites v = .up m)
    {q : Option VoteRequest} (run : m.campaign = .ok (m', q)) :
    Elections c (Stored P v m'.disk.contents.ballot)
      (w.after v { member := m', requests := m'.asks q }) := by
  obtain ⟨hs, hseat⟩ := h.sworn v m up
  rcases hs.campaign run with ⟨hd, rfl⟩ | ⟨hs', hle, hpoll, hq⟩
  · exact h.heeds up (d := { member := m', requests := m'.asks none }) hd nofun nofun nofun
  · have hballot : m'.disk.contents.ballot = ⟨m'.replica.term, some v⟩ := by
      obtain ⟨hb, hv⟩ := hs'.standing (by
        rcases hpoll with ⟨hr, -⟩ | ⟨hr, -⟩ <;> rw [hr] <;> exact nofun)
      rw [hs'.stored, ← hb, ← hv]
      rfl
    have hself : Voters c (Stored P v m'.disk.contents.ballot) v m'.replica.term [v] := by
      refine ⟨List.pairwise_singleton _ v, by simpa using hseat, fun u hu => ?_⟩
      obtain rfl := List.mem_singleton.1 hu
      exact .inr ⟨rfl, hballot.symm⟩
    have hpolled := of_polled hs' hself hpoll
    refine h.after (d := { member := m', requests := m'.asks q }) hs' hseat ?_ hpolled.1 hpolled.2
      nofun ?_ nofun
    · rw [World.stored, up]
      exact hle
    · intro r hr q' hq'
      cases q with
      | none => cases hr
      | some q₀ =>
        obtain ⟨p, hp, rfl⟩ := List.mem_map.1 hr
        obtain rfl : q₀ = q' := by simpa using hq'
        obtain rfl := hq _ rfl
        exact ⟨hs'.id, rfl, known_of_peer hs' hp, hballot⟩

theorem countVote (h : Elections c P w) {m m' : Member MemoryDisk} (up : w.sites v = .up m)
    {r : Request} {q : VoteRequest} {term : Nat} {granted more : Bool}
    (replied : (r, .voteReply term granted) ∈ w.replies) (here : r.sender = v)
    (body : r.body = .voteRequest q)
    (run : m.countVote q.term r.receiver term granted = .ok (m', more)) :
    Elections c (Stored P v m'.disk.contents.ballot) (w.after v { member := m' }) := by
  obtain ⟨hs, hseat⟩ := h.sworn v m up
  rcases hs.countVote run with hd | ⟨hs', hstored, hrole, hterm, hterm', hgranted, hpoll⟩
  · exact h.heeds up (d := { member := m' }) hd nofun nofun nofun
  · obtain ⟨hcand, -⟩ := h.asked r (h.replied r _ replied) q body
    obtain ⟨hdistinct, hknown⟩ := h.tallied up hrole replied body
    have hvote : P r.receiver ⟨m'.replica.term, some v⟩ := by
      have hg := h.granted r term (hgranted ▸ replied) q body
      rw [hcand, here] at hg
      rwa [hterm']
    have hv := h.polled v m up hrole
    have htallied : Voters c P v m'.replica.term (m.replica.tallied r.receiver) := by
      rw [hterm] at hv
      rw [hterm'] at hvote ⊢
      refine ⟨hdistinct, hknown, fun u hu => ?_⟩
      rcases mem_tallied hu with hu | rfl
      · exact hv.voted u hu
      · exact hvote
    have hmono : ∀ u b, P u b → Stored P v m'.disk.contents.ballot u b := fun _ _ => .inl
    have hpolled := of_polled hs' (htallied.mono hmono) hpoll
    refine h.after (d := { member := m' }) hs' hseat ?_ hpolled.1 hpolled.2 nofun nofun nofun
    rw [World.stored, up, hstored]
    exact .refl _

theorem act (h : Elections c P w) {m : Member MemoryDisk} (up : w.sites v = .up m) {d : Deed}
    (act : Act c w v m d) :
    Elections c (Stored P v d.member.disk.contents.ballot) (w.after v d) := by
  obtain ⟨hs, -⟩ := h.sworn v m up
  cases act with
  | shutDown =>
    exact h.heeds up (.of_standing hs (Member.standing_of_quiet (Member.quiet_shutDown m)))
      nofun nofun nofun
  | timeout run => exact h.timeout up run
  | answerVote sent here body run =>
    obtain ⟨hd, hg⟩ := hs.answerVote run
    refine h.answered up hd sent fun q' term hq' hreply => ?_
    obtain rfl := Message.voteRequest.inj (body.symm.trans hq')
    exact ⟨here, hg term hreply⟩
  | answerAppend sent here body run =>
    exact h.answered up (hs.answerAppend run) sent fun _ _ hq => nomatch body.symm.trans hq
  | answerInstall sent here body run =>
    exact h.answered up (hs.answerInstall run) sent fun _ _ hq => nomatch body.symm.trans hq
  | countVote replied here body run => exact h.countVote up replied here body run
  | recordReply _ _ _ run => exact h.heeds up (hs.recordReply run) nofun nofun nofun
  | recordBeat _ _ _ run => exact h.heeds up (hs.recordBeat run) nofun nofun nofun
  | propose _ _ run => exact h.heeds up (hs.propose run) nofun nofun nofun
  | fetch known run =>
    refine h.heeds up (.refl hs) nofun ?_ nofun
    intro r hr q hq
    obtain rfl := List.mem_singleton.1 hr
    rcases Member.nextRequest_cases run with ⟨q', rfl, -⟩ | ⟨i, q', rfl, -⟩ <;> cases hq
  | beat run =>
    refine h.heeds up (.of_standing hs (Member.standing_heartbeats run)) nofun ?_ nofun
    intro r hr q hq
    obtain ⟨b, -, rfl⟩ := List.mem_map.1 hr
    cases hq
  | @caughtUp peer =>
    exact h.heeds up (.of_standing hs (Member.standing_of_quiet (Member.quiet_caughtUp m peer)))
      nofun nofun nofun
  | @giveUp index =>
    exact h.heeds up (.of_standing hs (Member.standing_of_quiet (Member.quiet_dropWaiter m index)))
      nofun nofun nofun
  | compact run =>
    exact h.heeds up (.of_standing hs (Member.standing_takeImage run)) nofun nofun nofun

/-- **One step.** The ballots that were ever stored stay, and the invariant holds of them and of
those that are stored now. -/
theorem step (h : Elections c P w) (hstep : Step c v w w') :
    ∃ P', (∀ u b, P u b → P' u b) ∧ Elections c P' w' := by
  cases hstep with
  | act up act => exact ⟨_, fun _ _ => .inl, h.act up act⟩
  | @start d peers config now m down member run =>
    obtain ⟨hs, hstored, hrole⟩ := Member.sworn_start member run
    refine ⟨_, fun _ _ => .inl, h.after (d := { member := m }) hs
      (member.subset List.mem_cons_self) ?_ ?_ ?_ nofun nofun nofun⟩
    · rw [World.stored, down, hstored]
      exact .refl _
    · intro hr
      rw [hrole] at hr
      cases hr
    · intro hr
      rw [hrole] at hr
      cases hr
  | failToStart down member run =>
    refine ⟨_, fun _ _ => .inl, h.resting ?_⟩
    rw [World.stored, down, Member.stored_start_error run]
    exact .refl _
  | stop up =>
    refine ⟨_, fun _ _ => .inl, h.resting ?_⟩
    rw [World.stored, up]
    exact .refl _
  | hear made node waiting =>
    exact ⟨P, fun _ _ => id, ⟨h.sworn, h.current, h.past, h.linear, h.replied, h.asked, h.granted,
      h.polled, h.elected⟩⟩

/-- Which writes of a disk are going to fail does not matter. -/
theorem cutAfter (h : Elections c P w) (v : NodeId) (k : Nat) :
    Elections c P (w.cutAfter v k) := by
  have hstance : ∀ {m m₀ : Member MemoryDisk}, m.standing = m₀.standing →
      m.replica.role = m₀.replica.role ∧ m.replica.term = m₀.replica.term ∧
        m.replica.votes = m₀.replica.votes := by
    intro m m₀ hs
    obtain ⟨-, -, hr, hb, hv⟩ := Replica.stance_eq_iff.1 (congrArg Prod.fst hs)
    exact ⟨hr, congrArg Ballot.term hb, hv⟩
  constructor
  · intro u m up
    obtain ⟨m₀, up₀, hs⟩ := World.up_cutAfter up
    exact (h.sworn u m₀ up₀).imp_left (·.of_standing hs)
  · exact fun u => World.stored_cutAfter w v u k ▸ h.current u
  · exact fun u b hb => World.stored_cutAfter w v u k ▸ h.past u b hb
  · exact h.linear
  · exact h.replied
  · exact h.asked
  · exact h.granted
  · intro u m up hrole
    obtain ⟨m₀, up₀, hs⟩ := World.up_cutAfter up
    obtain ⟨hr, ht, hv⟩ := hstance hs
    rw [ht, hv]
    exact h.polled u m₀ up₀ (hr ▸ hrole)
  · intro u m up hrole
    obtain ⟨m₀, up₀, hs⟩ := World.up_cutAfter up
    obtain ⟨hr, ht, -⟩ := hstance hs
    rw [ht]
    exact h.elected u m₀ up₀ (hr ▸ hrole)

theorem roughStep (h : Elections c P w) (hstep : RoughStep c w w') :
    ∃ P', (∀ u b, P u b → P' u b) ∧ Elections c P' w' := by
  cases hstep with
  | step hstep => exact h.step hstep
  | @crash v _ w₁ k hstep =>
    obtain ⟨P', hmono, h'⟩ := (h.cutAfter v k).step hstep
    refine ⟨_, fun _ _ => .inl, h.resting ?_⟩
    -- the stored ballot was in order in the section that was cut off
    exact h'.past v _ (hmono v _ (h.current v))

theorem roughRun (h : Elections c P w) (hrun : RoughRun c w w') :
    ∃ P', (∀ u b, P u b → P' u b) ∧ Elections c P' w' := by
  induction hrun with
  | refl => exact ⟨P, fun _ _ => id, h⟩
  | tail _ hstep ih =>
    obtain ⟨P₁, h₁, hinv⟩ := ih
    obtain ⟨P₂, h₂, hinv'⟩ := hinv.roughStep hstep
    exact ⟨P₂, fun u b hb => h₂ u b (h₁ u b hb), hinv'⟩

end Elections

/-! ## An election

Two nodes, of which the first is elected with the vote of the second. -/

theorem Run.rough (h : Run c w w') : RoughRun c w w' := by
  induction h with
  | refl => exact .refl
  | tail _ hstep ih =>
    obtain ⟨v, hstep⟩ := hstep
    exact ih.tail (.step hstep)

namespace Duo

/-- Any command that can be executed is proposed, and no write fails. -/
def conditions : Conditions where
  members := [1, 2]
  distinct := by decide
  admits := Command.Valued
  fails _ _ _ := false

theorem reliable : conditions.Reliable := fun _ _ _ => rfl

theorem valued : conditions.Valued := fun _ h => h

/-- Node 1 compacts its log as soon as it can. -/
def config : NodeId → Config
  | 1 => { snapshotThreshold := 1 }
  | _ => {}

/-- A member that has applied nothing. -/
def member (r : Replica) (contents : DiskContents) (tried : Nat) : Member MemoryDisk where
  replica := r
  disk := { contents := contents, tried := tried }
  machine := .empty
  image := none
  pending := .empty
  beating := r.leads
  catchingUp := []
  saved := r.ballot
  stopped := false
  published := r.status
  outbox := []

/-- A node that has just started beside another. -/
def started (v u : NodeId) : Member MemoryDisk := member (.create v [u, v] (config v)) {} 1

/-- A node that votes for node 1 in term 1. -/
def voting (v u : NodeId) : Replica := { (started v u).replica with term := 1, vote := some 1 }

def candidate : Member MemoryDisk :=
  member { voting 1 2 with role := .candidate, votes := [1] } { ballot := ⟨1, some 1⟩ } 2

def voter : Member MemoryDisk := member (voting 2 1) { ballot := ⟨1, some 1⟩ } 2

/-- Node 1 as the leader, when node 2 holds so many of its entries. -/
def leading (held : Nat) : Replica :=
  { voting 1 2 with
    role := .leader
    leader := some 1
    next := .ofList [(2, held + 1)]
    matched := .ofList [(2, held)] }

def leader : Member MemoryDisk := member (leading 0) { ballot := ⟨1, some 1⟩ } 2

/-- Node 1 asks for node 2's vote, is given it, and leads. -/
theorem exists_elected : ∃ w, Reachable conditions w ∧ w.sites 1 = .up leader ∧
    w.sites 2 = .up voter ∧ w.Backs 2 1 1 ∧ w.calls = fun _ => none := by
  have hstart₁ : Member.start ⟨1, [2], config 1⟩ {} (.ofMillis 0) = .ok (.ok (started 1 2)) := rfl
  have hstart₂ : Member.start ⟨2, [1], config 2⟩ {} (.ofMillis 0) = .ok (.ok (started 2 1)) := rfl
  have hask : (started 1 2).campaign = .ok (candidate, some ⟨1, 1, 0, 0⟩) := rfl
  have hvote : (started 2 1).answerVote ⟨1, 1, 0, 0⟩ =
      ({ voter with outbox := [.resetElectionTimer] }, .ok (.voteReply 1 true)) := rfl
  have hcount : candidate.countVote 1 2 1 true =
      .ok ({ leader with outbox := [.startHeartbeat] }, false) := rfl
  have hreply : (⟨1, 2, .voteRequest ⟨1, 1, 0, 0⟩⟩, .voteReply 1 true) ∈
      Request.answer ⟨1, 2, .voteRequest ⟨1, 1, 0, 0⟩⟩ (.ok (.voteReply 1 true)) := .head _
  refine ⟨_, .tail (.tail (.tail (.tail (.tail .refl ⟨1, .start rfl (.refl _) hstart₁⟩)
    ⟨2, .start rfl (.swap ..) hstart₂⟩) ⟨1, .act rfl (.timeout hask)⟩)
    ⟨2, .act rfl (.answerVote (.head _) rfl rfl hvote)⟩)
    ⟨1, .act rfl (.countVote hreply rfl rfl hcount)⟩, rfl, rfl, ?_, rfl⟩
  exact .inl ⟨_, _, hreply, rfl, rfl, rfl⟩

end Duo

/-! ## Election safety -/

/-- **Election safety with durable votes.** Whatever writes fail and wherever nodes crash: over a
whole run a node gives its vote in a term to one node only, its own candidacy counted as a vote for
itself, and in a term only one node leads. The two moments may be any two of the run. -/
theorem election_safety {c : Conditions} {w w' : World} (h : RoughRun c (.initial c) w)
    (h' : RoughRun c w w') :
    (∀ v u u' term, w.Backs v u term → w'.Backs v u' term → u = u') ∧
      ∀ v v' term, w.Leads v term → w'.Leads v' term → v = v' := by
  obtain ⟨P, -, hinv⟩ := (Elections.initial c).roughRun h
  obtain ⟨P', hmono, hinv'⟩ := hinv.roughRun h'
  constructor
  · intro v u u' term hb hb'
    exact hinv'.vote_unique (hmono v _ (hinv.of_backs hb)) (hinv'.of_backs hb')
  · rintro v v' term ⟨m, up, hrole, rfl⟩ ⟨m', up', hrole', hterm⟩
    obtain ⟨Q, hQ, hmaj⟩ := hinv.elected v m up hrole
    obtain ⟨Q', hQ', hmaj'⟩ := hinv'.elected v' m' up' hrole'
    exact hinv'.majority_unique (hQ.mono hmono) hmaj (hterm ▸ hQ') hmaj'

/-- In the election of node 1, with the vote of node 2. -/
theorem election_safety_duo : ∃ w, RoughRun Duo.conditions (.initial Duo.conditions) w ∧
    RoughRun Duo.conditions w w ∧ w.Leads 1 1 ∧ w.Backs 2 1 1 ∧
    (∀ v u u' term, w.Backs v u term → w.Backs v u' term → u = u') ∧
    ∀ v v' term, w.Leads v term → w.Leads v' term → v = v' := by
  obtain ⟨w, hw, hlead, -, hback, -⟩ := Duo.exists_elected
  exact ⟨w, hw.rough, .refl, ⟨_, hlead, rfl, rfl⟩, hback, election_safety hw.rough .refl⟩

end ReplicatedStore
