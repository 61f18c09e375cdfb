import ReplicatedStore.Proofs.Books
import ReplicatedStore.Proofs.LateAnswers
import ReplicatedStore.Proofs.StateMachineSafety
/-!
# What a leader takes its peers to hold

A leader counts an answer of its own term as an acceptance, and an answer to an image carries
nothing but a term. So the answer of a peer that refused an image of an earlier leadership, in the
term of a later one, counts as if the peer had taken it (`World.Misread`, `refused_image_counted`).
All else that a leader takes a peer of its term to hold, the peer does hold (`matched_held`).

What is carried along a run beside its chronicle is `Chronicle.Reckons`: what a leader takes a peer
to hold was acknowledged, is committed by the peer, or was misread.
-/
namespace ReplicatedStore

open History

/-- An answer that a leader may have misread: the peer refused an image of an earlier term. -/
def World.Misread (w : World) (v p : NodeId) (term held : Nat) : Prop :=
  ∃ r q, (r, .installReply term) ∈ w.replies ∧ r.sender = v ∧ r.receiver = p ∧
    r.body = .installRequest q ∧ q.term < term ∧ q.lastIndex = held

variable {c : Conditions} {w w' : World} {v u p : NodeId} {m m' : Member MemoryDisk}

/-! ## Answers to images -/

theorem Replica.commitIndex_rebase {r r' : Replica} {lastIndex lastTerm : Nat}
    (h : r.rebase lastIndex lastTerm = .ok r') :
    r'.commitIndex = lastIndex ∧ r'.term = r.term := by
  have hterm := (stance_eq_iff.1 (stance_rebase h)).2.2.2.1
  simp only [rebase] at h
  split at h
  · obtain ⟨n, -, h⟩ := bind_eq_ok.1 h
    obtain ⟨r₁, -, h⟩ := bind_eq_ok.1 h
    cases h
    exact ⟨rfl, congrArg Ballot.term hterm⟩
  · cases h
    exact ⟨rfl, congrArg Ballot.term hterm⟩

/-- An image that is answered in its own term is committed. -/
theorem Member.commits_answerInstall {now : Instant} {q : InstallRequest} {term : Nat}
    (run : m.answerInstall now q = .ok (m', .ok (.installReply term))) :
    q.term ≤ term ∧ (q.term = term → q.lastIndex ≤ m'.replica.commitIndex) := by
  obtain ⟨r, o, m₁, m₂, e, hr, hg, hp, ha⟩ := answerInstall_cases run
  have hreplica : m₂.replica = r :=
    (replica_persistImage hp).trans (core_eq_iff.1 (gist_eq_iff.1 hg).1).1
  rcases ha with ⟨-, rfl, hreply⟩ | ⟨-, cause, -, hreply⟩
  · cases hreply
    rw [replica_finish, hreplica]
    rcases takeImage_cases hr with ⟨hlt, rfl, -⟩ | ⟨hge, hle, rfl, -⟩ | ⟨hge, -, hrebase, -⟩
    · exact ⟨Nat.le_of_lt hlt, fun heq => absurd heq (Nat.ne_of_lt hlt)⟩
    · refine ⟨Nat.le_of_eq (Replica.accept_spec hge q.leader).2.symm, fun _ => ?_⟩
      rw [(Replica.sameLog_accept m.replica q.term q.leader).commit]
      exact hle
    · obtain ⟨hcommit, hterm⟩ := Replica.commitIndex_rebase hrebase
      rw [hterm, hcommit, (Replica.accept_spec hge q.leader).2]
      exact ⟨Nat.le_refl _, fun _ => Nat.le_refl _⟩
  · cases hreply

theorem Member.appendReply_of_answerAppend {now : Instant} {q : AppendRequest} {message : Message}
    (run : m.answerAppend now q = .ok (m', .ok message)) :
    ∃ term success, message = .appendReply term success := by
  unfold answerAppend at run
  obtain ⟨⟨r, o⟩, -, run⟩ := bind_eq_ok.1 run
  obtain ⟨⟨m₁, e⟩, -, run⟩ := bind_eq_ok.1 run
  cases e with
  | some e => cases run
  | none =>
    obtain ⟨m₂, -, run⟩ := sameButLog_settle run
    simp only at run
    split at run
    · cases run
    · cases run
      exact ⟨_, _, rfl⟩

/-- Only the section of an install request answers like this. -/
theorem Act.installReply {d : Deed} (act : Act c w v m d) {r : Request} {term : Nat}
    (h : (r, .installReply term) ∈ d.replies) :
    r.receiver = v ∧ ∃ q, r.body = .installRequest q ∧ q.term ≤ term ∧
      (q.term = term → q.lastIndex ≤ d.member.replica.commitIndex) := by
  cases act with
  | answerVote sent here body run =>
    obtain ⟨rfl, hreply⟩ := Elections.mem_answer.1 h
    obtain ⟨_, _, heq⟩ := Member.voteReply_of_answerVote run hreply
    cases heq
  | answerAppend sent here body run =>
    obtain ⟨rfl, rfl⟩ := Elections.mem_answer.1 h
    obtain ⟨_, _, heq⟩ := Member.appendReply_of_answerAppend run
    cases heq
  | answerInstall sent here body run =>
    obtain ⟨rfl, rfl⟩ := Elections.mem_answer.1 h
    exact ⟨here, _, body, Member.commits_answerInstall run⟩
  | _ => cases h

/-! ## Runs -/

/-- What was answered stays answered. -/
theorem Step.replies_subset (h : Step c v w w') : w.replies ⊆ w'.replies := by
  cases h with
  | act | start => exact List.subset_append_left _ _
  | failToStart | stop | hear => exact List.Subset.refl _

namespace Chronicle

variable {H H' : Chronicle} {P P' : NodeId → Ballot → Prop}

theorem Records.commit_le (h : H.Records c P w) (hx : Extends u H H') (h' : H'.Records c P' w')
    (v : NodeId) : (w.sites v).commit ≤ (w'.sites v).commit := by
  rw [h.commit_eq, h'.commit_eq]
  exact hx.commit v

/-- Where what a leader takes a peer to hold comes from. -/
def Sourced (H : Chronicle) (w : World) (v p : NodeId) (term held : Nat) : Prop :=
  held ≤ (w.sites p).commit ∨ H.acked p term held ∨ w.Misread v p term held

/-- An image that is answered in its own term is committed, and all that leaders take their peers to
hold has a source. -/
structure Reckons (H : Chronicle) (w : World) : Prop where
  images : ∀ r term, (r, .installReply term) ∈ w.replies → ∃ q, r.body = .installRequest q ∧
    q.term ≤ term ∧ (q.term = term → q.lastIndex ≤ (w.sites r.receiver).commit)
  held : ∀ v m b, w.sites v = .up m → m.replica.books = some b →
    ∀ p k, b.matched.get? p = some k → H.Sourced w v p b.term k

theorem Reckons.initial (c : Conditions) : Chronicle.initial.Reckons (.initial c) where
  images _ _ h := nomatch h
  held _ _ _ h := nomatch h

theorem Sourced.mono {term held : Nat} (h : H.Sourced w v p term held) (hx : Extends u H H')
    (hcommit : ∀ v, (w.sites v).commit ≤ (w'.sites v).commit) (hreplies : w.replies ⊆ w'.replies) :
    H'.Sourced w' v p term held := by
  rcases h with h | h | ⟨r, q, hr, hrest⟩
  · exact .inl (Nat.le_trans h (hcommit p))
  · exact .inr (.inl (hx.acked p term held h))
  · exact .inr (.inr ⟨r, q, hreplies hr, hrest⟩)

namespace Reckons

/-- What a peer is counted to have accepted has a source. -/
theorem accepted (hr : H.Reckons w) (h : H.Records c P w) {d : Deed} {b : Books} {r : Request}
    {reply : Message} {through : Nat} (henters : d.Enters w v m b r reply true through) :
    H.Sourced w v r.receiver b.term through := by
  have hthrough := henters.covered
  rcases henters.answer with rfl | ⟨rfl, -⟩
  · obtain ⟨q, hbody, hterm, hacked⟩ := h.answered r _ henters.replied rfl
    rw [hbody] at hthrough
    obtain ⟨-, rfl⟩ := Word.add_eq_ok_iff.1 hthrough
    exact .inr (.inl hacked)
  · obtain ⟨q, hbody, hge, hcommit⟩ := hr.images r b.term henters.replied
    rw [hbody] at hthrough
    cases hthrough
    rcases Nat.lt_or_eq_of_le hge with hlt | heq
    · exact .inr (.inr ⟨r, q, henters.replied, henters.here, rfl, hbody, hlt, rfl⟩)
    · exact .inl (hcommit heq)

/-- What a leader writes into its books has a source. -/
theorem answered (hr : H.Reckons w) (h : H.Records c P w) (up : w.sites v = .up m) {d : Deed}
    {b : Books} {r : Request} {reply : Message} {success : Bool} {through : Nat}
    (henters : d.Enters w v m b r reply success through) {p : NodeId} {k : Nat}
    (hk : (b.answered success r.receiver through).matched.get? p = some k) :
    H.Sourced w v p b.term k := by
  have hbefore := hr.held v m b up henters.before
  cases success with
  | false => exact hbefore p k hk
  | true =>
    simp only [Books.answered, if_true, Table.get?_insert] at hk
    split at hk
    · next heq =>
      obtain rfl := Std.LawfulEqOrd.eq_of_compare heq
      cases hk
      -- the larger of what was known before and what was accepted now
      rcases Nat.le_total ((b.matched.get? r.receiver).getD 0) through with hle | hle
      · rw [Nat.max_eq_right hle]
        exact hr.accepted h henters
      · rw [Nat.max_eq_left hle]
        cases hm : b.matched.get? r.receiver with
        | none => exact .inl (Nat.zero_le _)
        | some k => exact hbefore _ k hm
    · exact hbefore p k hk

/-- **One section.** -/
theorem act (hr : H.Reckons w) (h : H.Records c P w) (up : w.sites v = .up m) {d : Deed}
    (act : Act c w v m d) {b : Books} (hb : d.member.replica.books = some b) {p : NodeId} {k : Nat}
    (hk : b.matched.get? p = some k) : H.Sourced w v p b.term k := by
  rcases act.books with hsame | (hnone | ⟨term, peers, n, hopened⟩) |
    ⟨b₀, r, reply, success, through, henters⟩
  · exact hr.held v m b up (hsame ▸ hb) p k hk
  · cases hnone.symm.trans hb
  · obtain rfl := Option.some.inj (hopened.symm.trans hb)
    obtain ⟨_, -, heq⟩ := List.mem_map.1 (Table.mem_of_get?_ofList hk)
    cases heq
    exact .inl (Nat.zero_le _)
  · obtain rfl := Option.some.inj (henters.after.symm.trans hb)
    have hsourced := hr.answered h up henters hk
    cases success <;> exact hsourced

/-- **One step.** -/
theorem step (hr : H.Reckons w) (h : H.Records c P w) (hstep : Step c u w w')
    (hx : Extends u H H') (h' : H'.Records c P' w') : H'.Reckons w' := by
  have hcommit := h.commit_le hx h'
  have hreplies := hstep.replies_subset
  -- a node at which nothing happens takes its peers to hold what it did
  have hkept : ∀ v m b, w.sites v = .up m → m.replica.books = some b →
      ∀ p k, b.matched.get? p = some k → H'.Sourced w' v p b.term k :=
    fun v m b up hb p k hk => (hr.held v m b up hb p k hk).mono hx hcommit hreplies
  have hold : ∀ r term, (r, .installReply term) ∈ w.replies → ∃ q, r.body = .installRequest q ∧
      q.term ≤ term ∧ (q.term = term → q.lastIndex ≤ (w'.sites r.receiver).commit) := by
    intro r term hreply
    obtain ⟨q, hbody, hge, hle⟩ := hr.images r term hreply
    exact ⟨q, hbody, hge, fun heq => Nat.le_trans (hle heq) (hcommit r.receiver)⟩
  cases hstep with
  | act up act =>
    refine ⟨fun r term hreply => ?_, fun v₁ m₁ b up₁ hb p k hk => ?_⟩
    · rcases List.mem_append.1 hreply with hreply | hreply
      · exact hold r term hreply
      · obtain ⟨rfl, q, hbody, hge, hle⟩ := act.installReply hreply
        refine ⟨q, hbody, hge, fun heq => ?_⟩
        rw [World.sites_after_self]
        exact hle heq
    · obtain ⟨rfl, rfl⟩ | ⟨-, up₁⟩ := World.up_after up₁
      · exact (hr.act h up act hb hk).mono hx hcommit hreplies
      · exact hkept v₁ m₁ b up₁ hb p k hk
  | start down member run =>
    refine ⟨fun r term hreply => hold r term (List.append_nil w.replies ▸ hreply),
      fun v₁ m₁ b up₁ hb => ?_⟩
    obtain ⟨rfl, rfl⟩ | ⟨-, up₁⟩ := World.up_after up₁
    · have hrole := (Member.sworn_start member run).2.2
      cases hrole.symm.trans (Replica.of_books hb).1
    · exact hkept v₁ m₁ b up₁ hb
  | failToStart down member run =>
    exact ⟨hold, fun v₁ m₁ b up₁ => hkept v₁ m₁ b (World.up_resting up₁).2⟩
  | stop up => exact ⟨hold, fun v₁ m₁ b up₁ => hkept v₁ m₁ b (World.up_resting up₁).2⟩
  | hear made node waiting => exact ⟨hold, hkept⟩

end Reckons

/-- **A run.** -/
theorem Reachable.reckoned (hc : c.Reliable) (h : Reachable c w) :
    ∃ P, ∃ H : Chronicle, H.Records c P w ∧ H.Reckons w := by
  induction h with
  | refl => exact ⟨_, _, .initial hc, .initial c⟩
  | tail _ hstep ih =>
    obtain ⟨P, H, h, hr⟩ := ih
    obtain ⟨v, hstep⟩ := hstep
    obtain ⟨P', H', hx, h'⟩ := h.step hstep
    exact ⟨P', H', h', hr.step h hstep hx h'⟩

/-! ## What peers hold -/

/-- What a node acknowledged to the leader of its own term, it has. -/
theorem Sound.prefix_of_acked {members : List NodeId} (hs : H.Sound members) {k : Nat} {R : Reign}
    (hk : H.acked u (H.term u) k) (hR : H.reign (H.term u) = some R) :
    k ≤ R.log.length ∧ R.log.take k <+: H.log u := by
  have hup := hs.upright u
  obtain ⟨-, R', hR', hle⟩ := hup.acked _ k hk
  obtain rfl : R' = R := Option.some.inj (hR'.symm.trans hR)
  -- nobody led between the term and the next
  exact ⟨hle, hup.kept _ k hk (Nat.lt_succ_self _) _ R' hR (List.take_prefix _ _)
    (List.length_take_le _ _) fun s' S' hs' hs'' => absurd hs'' (by omega)⟩

/-- What a node has committed, the leader of its term has too. -/
theorem Sound.prefix_of_commit {members : List NodeId} (hs : H.Sound members) {k : Nat} {R : Reign}
    (hk : k ≤ H.commit u) (hR : H.reign (H.term u) = some R) :
    k ≤ R.log.length ∧ R.log.take k <+: H.log u := by
  have hle := Nat.le_trans hk (hs.upright u).bounded
  have hp := (take_prefix_take hk).trans (hs.committed_reign (Nat.le_refl _) hR)
  have hlen := hp.length_le
  rw [List.length_take_of_le hle] at hlen
  refine ⟨hlen, ?_⟩
  have htake := take_of_isPrefix hp (i := k) (by rw [List.length_take_of_le hle])
  rw [List.take_take, Nat.min_self] at htake
  rw [← htake]
  exact List.take_prefix _ _

end Chronicle

namespace Site

/-- The site holds the history up to a position: its log where it still has it, and all that it
stands for. -/
structure Shares (s : Site) (x : History) (n : Nat) : Prop extends s.Covers x n where
  history : ∃ y, s.Bears y ∧ y.take n = x.take n

theorem Bears.shares {s : Site} {x y : History} {n : Nat} (h : s.Bears y) (hn : n ≤ x.length)
    (hp : x.take n <+: y) : s.Shares x n := by
  have hlen := List.length_take_of_le hn
  refine ⟨hlen ▸ h.covers hp (List.take_prefix n x), y, h, ?_⟩
  have htake := take_of_isPrefix hp (Nat.le_of_eq hlen.symm)
  rw [List.take_take, Nat.min_self] at htake
  exact htake.symm

end Site

/-- **What a leader takes its peers to hold.** No write fails, and nothing else is asked of a run:
requests and replies may arrive in any later leadership. A leader has one history that every peer of
its term shares as far as the leader takes it to hold. If a peer does not, then it refused an image
of an earlier term that ended there, and the leader has committed what the image covers. -/
theorem matched_held (hc : c.Reliable) (h : Reachable c w) (up : w.sites v = .up m)
    (leads : m.replica.role = .leader) :
    ∃ x, (w.sites v).Bears x ∧ ∀ p held, m.replica.matched.get? p = some held →
      (w.sites p).term = m.replica.term → (w.sites p).Shares x held ∨
        w.Misread v p m.replica.term held ∧ held ≤ m.replica.commitIndex := by
  obtain ⟨P, H, hrec, hreckons⟩ := Chronicle.Reachable.reckoned hc h
  have hseat := (hrec.up v m up).1.seat
  obtain ⟨-, R, hR, -, hlog, -⟩ := hseat.post.leads leads
  refine ⟨H.log v, hrec.bears v, fun p held hheld hterm => ?_⟩
  rw [hrec.term_eq] at hterm
  rw [← hterm] at hR
  have hshares : held ≤ R.log.length ∧ R.log.take held <+: H.log p →
      (w.sites p).Shares (H.log v) held := fun ⟨hle, hp⟩ =>
    (hrec.bears p).shares (hlog ▸ hle) (hlog ▸ hp)
  rcases hreckons.held v m _ up (Replica.books_of_leader leads) p held hheld with
    hcommit | hacked | hmisread
  · rw [hrec.commit_eq] at hcommit
    exact .inl (hshares (hrec.sound.prefix_of_commit hcommit hR))
  · exact .inl (hshares (hrec.sound.prefix_of_acked (hterm ▸ hacked) hR))
  · refine .inr ⟨hmisread, ?_⟩
    obtain ⟨r, q, hreply, rfl, -, hbody, -, rfl⟩ := hmisread
    rw [hseat.commit]
    exact (hrec.told r (hrec.elections.replied r _ hreply)).2 _ hbody

/-- What node 2 holds of the log of node 1 in `Duo`. -/
theorem matched_held_duo : ∃ w x, Duo.conditions.Reliable ∧ Reachable Duo.conditions w ∧
    w.sites 1 = .up Duo.compacted ∧ Duo.compacted.replica.role = .leader ∧
    Duo.compacted.replica.matched.get? 2 = some 1 ∧
    (w.sites 2).term = Duo.compacted.replica.term ∧ (w.sites 1).Bears x ∧
    ((w.sites 2).Shares x 1 ∨
      w.Misread 1 2 Duo.compacted.replica.term 1 ∧ 1 ≤ Duo.compacted.replica.commitIndex) := by
  obtain ⟨w, h, hcompacted, hholder, -⟩ := Duo.exists_committed
  obtain ⟨x, hx, hall⟩ := matched_held Duo.reliable h hcompacted rfl
  have hterm : (w.sites 2).term = Duo.compacted.replica.term := by
    rw [hholder]
    rfl
  exact ⟨w, x, Duo.reliable, h, hcompacted, rfl, rfl, hterm, hx, hall 2 1 rfl hterm⟩

/-! ## An image that comes late

Three nodes whose disks take everything. Node 1 commits an entry with node 2 and compacts its log,
and ships the image to node 3. Before it arrives, node 3 stands for term 2 and node 1 leads in
term 3. -/

namespace Tardy

def conditions : Conditions where
  members := [1, 2, 3]
  distinct := Trio.conditions.distinct
  admits := Command.Valued
  fails _ _ _ := false

theorem reliable : conditions.Reliable := fun _ _ _ => rfl

def started (v : NodeId) : Member MemoryDisk := Duo.member (Trio.blank v) {} 1

def candidate : Member MemoryDisk :=
  Duo.member { Trio.voting 1 with role := .candidate, votes := [1] } { ballot := ⟨1, some 1⟩ } 2

def voter : Member MemoryDisk := Duo.member (Trio.voting 2) { ballot := ⟨1, some 1⟩ } 2

def leader : Member MemoryDisk := Duo.member (Trio.leading 0) { ballot := ⟨1, some 1⟩ } 2

/-- Node 1 waiting for its peers. -/
def proposer : Member MemoryDisk :=
  { Duo.member { Trio.leading 0 with log := [Duo.entry] }
      { ballot := ⟨1, some 1⟩, log := [Duo.entry] } 3 with
    pending := .ofList [(1, ⟨1, 7⟩)] }

def holder : Member MemoryDisk :=
  Duo.member { Trio.voting 2 with leader := some 1, log := [Duo.entry] }
    { ballot := ⟨1, some 1⟩, log := [Duo.entry] } 3

/-- Node 1 when it has compacted its log, in any role, with so many writes behind it. -/
def compacted (r : Replica) (tried : Nat) : Member MemoryDisk :=
  { Duo.member { r with snapshotIndex := 1, snapshotTerm := 1, commitIndex := 1, lastApplied := 1 }
      { ballot := r.ballot, commit := 1, image := some Duo.image } tried with
    machine := .ofList [("k", "v")]
    image := some Duo.image }

/-- Node 3 standing for a term, when it has stood for all terms before. -/
def rival (term : Nat) : Member MemoryDisk :=
  Duo.member { Trio.blank 3 with role := .candidate, term := term, vote := some 3, votes := [3] }
    { ballot := ⟨term, some 3⟩ } (term + 1)

/-- Node 3 when it has voted for node 1 in term 3. -/
def elector : Member MemoryDisk :=
  Duo.member { Trio.blank 3 with term := 3, vote := some 1 } { ballot := ⟨3, some 1⟩ } 4

def contending : Replica :=
  { Trio.blank 1 with role := .candidate, term := 3, vote := some 1, votes := [1] }

/-- Node 1 leading in term 3, when it takes node 3 to hold so many of its entries. -/
def leading (held : Nat) : Replica :=
  { Trio.blank 1 with
    role := .leader
    term := 3
    vote := some 1
    leader := some 1
    next := .ofList [(2, 2), (3, 2)]
    matched := .ofList [(2, 0), (3, held)] }

theorem exists_misread : ∃ w, Reachable conditions w ∧
    w.sites 1 = .up (compacted (leading 1) 8) ∧ w.sites 3 = .up elector := by
  have hstart : ∀ v ∈ [1, 2, 3], Member.start ⟨v, Trio.peers v, Duo.config v⟩ {} (.ofMillis 0) =
      .ok (.ok (started v)) := by
    simp only [List.forall_mem_cons, List.not_mem_nil, false_implies, implies_true, and_true]
    exact ⟨rfl, rfl, rfl⟩
  have hask : (started 1).campaign = .ok (candidate, some ⟨1, 1, 0, 0⟩) := rfl
  have hvote : (started 2).answerVote ⟨1, 1, 0, 0⟩ =
      ({ voter with outbox := [.resetElectionTimer] }, .ok (.voteReply 1 true)) := rfl
  have hcount : candidate.countVote 1 2 1 true =
      .ok ({ leader with outbox := [.startHeartbeat] }, false) := rfl
  have hpropose : leader.propose (.ofMillis 0) Duo.entry.command 7 = .ok (proposer, .ok 1) := by
    cbv
  have hfetch : proposer.nextRequest 2 1 = .ok (.ok (some (.appendRequest Duo.append))) := rfl
  have happend : voter.answerAppend (.ofMillis 0) Duo.append =
      .ok ({ holder with outbox := [.resetElectionTimer] }, .ok (.appendReply 1 true)) := rfl
  have hrecord : proposer.recordReply (.ofMillis 0) 2 1 (.appendReply 1 true) =
      .ok ({ compacted (Trio.leading 1) 6 with outbox := [.settle 7 (.ok .done)] }, true) := by
    cbv
  have hship : (compacted (Trio.leading 1) 6).nextRequest 3 1 =
      .ok (.ok (some (.installRequest Trio.install))) := rfl
  have hstand : (started 3).campaign = .ok (rival 1, some ⟨1, 3, 0, 0⟩) := rfl
  have hstand' : (rival 1).campaign = .ok (rival 2, some ⟨2, 3, 0, 0⟩) := rfl
  have hdeny : (compacted (Trio.leading 1) 6).answerVote ⟨2, 3, 0, 0⟩ =
      ({ compacted { Trio.blank 1 with term := 2 } 7 with outbox := [.stopHeartbeat] },
        .ok (.voteReply 2 false)) := rfl
  have hask' : (compacted { Trio.blank 1 with term := 2 } 7).campaign =
      .ok (compacted contending 8, some ⟨3, 1, 1, 1⟩) := rfl
  have hvote' : (rival 2).answerVote ⟨3, 1, 1, 1⟩ =
      ({ elector with outbox := [.resetElectionTimer] }, .ok (.voteReply 3 true)) := rfl
  have hcount' : (compacted contending 8).countVote 3 3 3 true =
      .ok ({ compacted (leading 0) 8 with outbox := [.startHeartbeat] }, false) := rfl
  have hrefuse : elector.answerInstall (.ofMillis 0) Trio.install =
      .ok (elector, .ok (.installReply 3)) := rfl
  have hmisread : (compacted (leading 0) 8).recordReply (.ofMillis 0) 3 1 (.installReply 3) =
      .ok (compacted (leading 1) 8, true) := by cbv
  have h₁ : Reachable conditions _ := .single ⟨1, .start rfl (.refl _) (hstart 1 (by decide))⟩
  have h₂ := h₁.tail ⟨2, .start rfl (.swap ..) (hstart 2 (by decide))⟩
  have h₃ := h₂.tail ⟨3, .start rfl (by decide) (hstart 3 (by decide))⟩
  have h₄ := h₃.tail ⟨1, .act rfl (.timeout hask)⟩
  have h₅ := h₄.tail ⟨2, .act rfl (.answerVote (.head _) rfl rfl hvote)⟩
  have h₆ := h₅.tail ⟨1, .act rfl (.countVote (.head _) rfl rfl hcount)⟩
  have h₇ := h₆.tail ⟨1, .act rfl (.propose (fun _ => rfl) rfl hpropose)⟩
  have h₈ := h₇.tail ⟨1, .act rfl (.fetch (.head _) hfetch)⟩
  have h₉ := h₈.tail ⟨2, .act rfl (.answerAppend
    (List.mem_append_right _ (.head _)) rfl rfl happend)⟩
  have h₁₀ := h₉.tail ⟨1, .act rfl (.recordReply
    (List.mem_append_right _ (.head _)) rfl rfl hrecord)⟩
  have h₁₁ := h₁₀.tail ⟨1, .act rfl (.fetch (.tail _ (.head _)) hship)⟩
  have h₁₂ := h₁₁.tail ⟨3, .act rfl (.timeout hstand)⟩
  have h₁₃ := h₁₂.tail ⟨3, .act rfl (.timeout hstand')⟩
  have h₁₄ := h₁₃.tail ⟨1, .act rfl (.answerVote
    (List.mem_append_right _ (.head _)) rfl rfl hdeny)⟩
  have h₁₅ := h₁₄.tail ⟨1, .act rfl (.timeout hask')⟩
  have h₁₆ := h₁₅.tail ⟨3, .act rfl (.answerVote
    (List.mem_append_right _ (.tail _ (.head _))) rfl rfl hvote')⟩
  have h₁₇ := h₁₆.tail ⟨1, .act rfl (.countVote
    (List.mem_append_right _ (.head _)) rfl rfl hcount')⟩
  -- the image that was shipped in term 1 arrives
  have h₁₈ := h₁₇.tail ⟨3, .act rfl (.answerInstall (List.mem_append_left _ (List.mem_append_left _
    (List.mem_append_left _ (List.mem_append_left _ (List.mem_append_left _
      (List.mem_append_left _ (List.mem_append_right _ (.head _)))))))) rfl rfl hrefuse)⟩
  have h₁₉ := h₁₈.tail ⟨1, .act rfl (.recordReply
    (List.mem_append_right _ (.head _)) rfl rfl hmisread)⟩
  exact ⟨_, h₁₉, rfl, rfl⟩

end Tardy

/-- **A refused image is counted.** Node 3 of `Tardy` refuses the image of term 1 in term 3. Node 1,
which leads there, counts the answer: it takes node 3 to hold the entry, and the log of node 3 is
empty. -/
theorem refused_image_counted : ∃ w, Reachable Tardy.conditions w ∧ Tardy.conditions.Reliable ∧
    w.sites 1 = .up (Tardy.compacted (Tardy.leading 1) 8) ∧
    (Tardy.compacted (Tardy.leading 1) 8).stopped = false ∧
    (Tardy.compacted (Tardy.leading 1) 8).replica.role = .leader ∧
    (w.sites 3).term = (Tardy.compacted (Tardy.leading 1) 8).replica.term ∧
    (Tardy.compacted (Tardy.leading 1) 8).replica.matched.get? 3 = some 1 ∧
    (w.sites 3).lastIndex = 0 ∧ (w.sites 3).base = 0 ∧ (w.sites 3).entryAt? 1 = none ∧
    ¬ ∀ p held, (Tardy.compacted (Tardy.leading 1) 8).replica.matched.get? p = some held →
      (w.sites p).term = (Tardy.compacted (Tardy.leading 1) 8).replica.term →
        held ≤ (w.sites p).lastIndex := by
  obtain ⟨w, h, up, up'⟩ := Tardy.exists_misread
  refine ⟨w, h, Tardy.reliable, up, rfl, rfl, ?_, rfl, ?_, ?_, ?_, fun hall => ?_⟩
  · rw [up']
    rfl
  · rw [up']
    rfl
  · rw [up']
    rfl
  · rw [up']
    rfl
  · have hle := hall 3 1 rfl (by rw [up']; rfl)
    rw [up'] at hle
    exact Nat.not_succ_le_zero 0 hle

end ReplicatedStore
