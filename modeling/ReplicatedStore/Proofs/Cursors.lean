import ReplicatedStore.Proofs.Books
import ReplicatedStore.Proofs.EnduringRuns
import ReplicatedStore.Proofs.RecordedRuns
/-!
# The positions that a leader keeps

For each peer a leader keeps the position up to which the peer is known to hold its log, and the one
that it is to be sent next. Both stay inside the log (`Tracks`), and the first stays below the
second, but for one thing: a refusal moves the second back by one whatever was learned since the
request was made. So the order is lost exactly by a refusal that is counted when the peer is known
to hold something already (`Overtaken`, `cursors_ordered`), and such a refusal needs no more than
two heartbeats under way (`refusal_overtaken`).
-/
namespace ReplicatedStore

theorem Table.get?_ofList_const {κ ν : Type} [Ord κ] [Std.TransOrd κ] [Std.LawfulEqOrd κ]
    {keys : List κ} {k : κ} (h : k ∈ keys) (v : ν) :
    (Table.ofList (keys.map (·, v))).get? k = some v := by
  have key : ∀ (keys : List κ) (t : Table κ ν), k ∈ keys ∨ t.get? k = some v →
      ((keys.map (·, v)).foldl (fun t b => t.insert b.1 b.2) t).get? k = some v := by
    intro keys
    induction keys with
    | nil => exact fun t h => h.resolve_left nofun
    | cons k' keys ih =>
      intro t h
      refine ih _ ?_
      rw [Table.get?_insert]
      split
      · exact .inr rfl
      · next hne =>
        refine h.imp_left fun h => (List.mem_cons.1 h).resolve_left ?_
        rintro rfl
        exact hne Std.ReflCmp.compare_self
  exact key keys .empty (.inl h)

/-! ## One answer -/

namespace Books

/-- What is kept of a peer: the position up to which it is known to hold the log, and the one that
it is to be sent next. -/
structure Places (b : Books) (p : NodeId) (held next : Nat) : Prop where
  matched : b.matched.get? p = some held
  next : b.next.get? p = some next

variable {b : Books} {p sender : NodeId} {held next lastSent : Nat}

theorem places_opened {term n : Nat} {peers : List NodeId} (hp : p ∈ peers) :
    (opened term peers n).Places p 0 (n + 1) :=
  ⟨Table.get?_ofList_const hp 0, Table.get?_ofList_const hp (n + 1)⟩

theorem Places.of_ne (h : b.Places p held next) (hne : p ≠ sender) (success : Bool) :
    (b.answered success sender lastSent).Places p held next := by
  have hcmp : ¬ compare p sender = .eq := fun heq => hne (Std.LawfulEqOrd.eq_of_compare heq)
  cases success <;> constructor <;>
    simp only [answered, Bool.false_eq_true, if_false, if_true, Table.get?_insert, hcmp]
  · exact h.matched
  · exact h.next
  · exact h.matched
  · exact h.next

/-- A peer that accepts is to be sent what comes after all that it is known to hold. -/
theorem Places.accepted (h : b.Places p held next) :
    (b.answered true p lastSent).Places p (max held lastSent) (max held lastSent + 1) := by
  constructor <;> simp only [answered, if_true, h.matched, Option.getD_some,
    Table.get?_insert, Std.ReflCmp.compare_self]

/-- A peer that refuses is to be sent one position more, and is still known to hold what it was. -/
theorem Places.refused (h : b.Places p held next) :
    (b.answered false p lastSent).Places p held (if 1 < next then next - 1 else next) := by
  constructor
  · exact h.matched
  · simp only [answered, Bool.false_eq_true, if_false, h.next, Option.getD_some, Table.get?_insert,
      Std.ReflCmp.compare_self, if_true]

end Books

/-! ## Runs -/

/-- On the way to a world, a leader counted a refusal of a peer's that it knew to hold something of
its log. -/
def Overtaken (c : Conditions) (w : World) (v p : NodeId) (term : Nat) : Prop :=
  ∃ w₁ m d b r through held, HaltingReachable c w₁ ∧ w₁.sites v = .up m ∧
    d.Enters w₁ v m b r (.appendReply term false) false through ∧ r.receiver = p ∧
    b.term = term ∧ b.matched.get? p = some held ∧ 0 < held ∧
    HaltingStep c v w₁ (w₁.after v d) ∧ HaltingRun c (w₁.after v d) w

/-- Every peer has both positions, in order unless a refusal was overtaken. -/
def Books.Sorted (c : Conditions) (w : World) (v : NodeId) (b : Books) : Prop :=
  ∀ p ∈ b.peers, ∃ held next, b.Places p held next ∧ (held < next ∨ Overtaken c w v p b.term)

variable {c : Conditions} {w w' : World} {v u p : NodeId} {m : Member MemoryDisk} {b : Books}

theorem Overtaken.tail {term : Nat} (h : Overtaken c w v p term) (hstep : HaltingStep c u w w') :
    Overtaken c w' v p term := by
  obtain ⟨w₁, m, d, b, r, through, held, h₁, up, henters, hp, hterm, hheld, hpos, hstep₁, hrun⟩ := h
  exact ⟨w₁, m, d, b, r, through, held, h₁, up, henters, hp, hterm, hheld, hpos, hstep₁,
    hrun.tail ⟨u, hstep⟩⟩

namespace Books

theorem Sorted.tail (h : b.Sorted c w v) (hstep : HaltingStep c u w w') : b.Sorted c w' v := by
  intro p hp
  obtain ⟨held, next, hplaces, hlt⟩ := h p hp
  exact ⟨held, next, hplaces, hlt.imp_right fun hover => hover.tail hstep⟩

/-- **One answer.** The order is kept, unless a refusal comes from a peer that is known to hold
something. -/
theorem Sorted.answered (h : b.Sorted c w v) (hw : HaltingReachable c w) (up : w.sites v = .up m)
    {d : Deed} {r : Request} {reply : Message} {success : Bool} {through : Nat}
    (henters : d.Enters w v m b r reply success through)
    (hstep : HaltingStep c v w (w.after v d)) :
    (b.answered success r.receiver through).Sorted c (w.after v d) v := by
  have hsame : (b.answered success r.receiver through).peers = b.peers ∧
      (b.answered success r.receiver through).term = b.term := by
    cases success <;> exact ⟨rfl, rfl⟩
  intro p hp
  rw [hsame.1] at hp
  rw [hsame.2]
  obtain ⟨held, next, hplaces, hlt⟩ := h.tail hstep p hp
  by_cases heq : p = r.receiver
  · subst heq
    cases success with
    | true => exact ⟨_, _, hplaces.accepted, .inl (Nat.lt_succ_self _)⟩
    | false =>
      have hrefusal : reply = .appendReply b.term false :=
        henters.answer.resolve_right fun h => nomatch h.2
      subst hrefusal
      refine ⟨_, _, hplaces.refused, ?_⟩
      rcases Nat.eq_zero_or_pos held with rfl | hpos
      · refine hlt.imp_left fun hlt => ?_
        split <;> omega
      · exact .inr ⟨w, m, d, b, r, through, held, hw, up, henters, rfl, rfl, hplaces.matched, hpos,
          hstep, .refl⟩
  · exact ⟨held, next, hplaces.of_ne heq success, hlt⟩

end Books

/-- **One section.** -/
theorem Act.sorted (hw : HaltingReachable c w) (up : w.sites v = .up m) {d : Deed}
    (act : Act c w v m d) (hstep : HaltingStep c v w (w.after v d))
    (hsorted : ∀ b, m.replica.books = some b → b.Sorted c w v)
    (hb : d.member.replica.books = some b) : b.Sorted c (w.after v d) v := by
  rcases act.books with hsame | (hnone | ⟨term, peers, n, hopened⟩) |
    ⟨b₀, r, reply, success, through, henters⟩
  · exact (hsorted b (hsame ▸ hb)).tail hstep
  · cases hnone.symm.trans hb
  · obtain rfl := Option.some.inj (hopened.symm.trans hb)
    exact fun p hp => ⟨0, n + 1, Books.places_opened hp, .inl (Nat.succ_pos n)⟩
  · obtain rfl := Option.some.inj (henters.after.symm.trans hb)
    exact (hsorted b₀ henters.before).answered hw up henters hstep

/-- **One step.** -/
theorem HaltingStep.sorted (hw : HaltingReachable c w) (hstep : HaltingStep c u w w')
    (hsorted : ∀ v m b, w.sites v = .up m → m.replica.books = some b → b.Sorted c w v)
    (up : w'.sites v = .up m) (hb : m.replica.books = some b) : b.Sorted c w' v := by
  -- a node at which nothing happens has the books of before
  have hother : w.sites v = .up m → b.Sorted c w' v := fun up => (hsorted v m b up hb).tail hstep
  cases id hstep with
  | act up₀ running act whole =>
    obtain ⟨rfl, rfl⟩ | ⟨-, up⟩ := World.up_after up
    · exact act.sorted hw up₀ hstep (fun b => hsorted v _ b up₀) hb
    · exact hother up
  | @shutDown m₀ up₀ running =>
    obtain ⟨rfl, rfl⟩ | ⟨-, up⟩ := World.up_after up
    · have hreplica : m₀.shutDown.replica = m₀.replica := (Member.quiet_shutDown m₀).replica
      exact (hsorted v m₀ b up₀ (hreplica ▸ hb)).tail hstep
    · exact hother up
  | start down member run =>
    obtain ⟨rfl, rfl⟩ | ⟨-, up⟩ := World.up_after up
    · have hrole := (Member.sworn_start member run).2.2
      cases hrole.symm.trans (Replica.of_books hb).1
    · exact hother up
  | failToStart down member run => exact hother (World.up_resting up).2
  | stop up₀ => exact hother (World.up_resting up).2
  | hear made node waiting => exact hother up

/-- **A run.** -/
theorem HaltingReachable.sorted (h : HaltingReachable c w) (up : w.sites v = .up m)
    (hb : m.replica.books = some b) : b.Sorted c w v := by
  induction h generalizing v m b with
  | refl => cases up
  | tail hw hstep ih =>
    obtain ⟨u, hstep⟩ := hstep
    exact hstep.sorted hw (fun v m b up hb => ih up hb) up hb

/-- **A leader's positions.** Take any run from empty disks in which a member that halts rests,
whatever writes fail in it. A leader has both positions of every peer: what the peer is known to
hold is inside the leader's log, and it is to be sent a position of the log or the one after it.
What it is known to hold comes first, unless a refusal was counted from a peer that was known to
hold something. -/
theorem cursors_ordered (h : HaltingReachable c w) (up : w.sites v = .up m)
    (running : m.stopped = false) (leads : m.replica.role = .leader) (hp : p ∈ m.replica.peers) :
    ∃ held next, m.replica.matched.get? p = some held ∧ m.replica.next.get? p = some next ∧
      held ≤ m.replica.lastIndex ∧ 1 ≤ next ∧ next ≤ m.replica.lastIndex + 1 ∧
      (held < next ∨ Overtaken c w v p m.replica.term) := by
  obtain ⟨held, next, hplaces, hlt⟩ := h.sorted up (Replica.books_of_leader leads) p hp
  obtain ⟨P, H, hendures⟩ := h.endures
  obtain ⟨f, hruns⟩ := (hendures.up v m up).runs running
  obtain ⟨rfl, R, -, -, -, htracks⟩ := hruns.post.leads leads
  rw [hruns.firm.spans.lastIndex_eq]
  obtain ⟨hlow, hhigh⟩ := htracks.next p next hplaces.next
  obtain ⟨hheld, -⟩ := htracks.matched p held hplaces.matched
  exact ⟨held, next, hplaces.matched, hplaces.next, hheld, hlow, hhigh, hlt⟩

/-! ## A refusal that comes late

Node 1 of `Duo` starts again with an entry that node 2 does not have, and leads. Two of its
heartbeats are refused. When it hears of the first refusal it sends the entry, and node 2 takes it.
Then it hears of the second. -/

namespace Duo

/-- Node 1 when it has started again. -/
def returning : Member MemoryDisk :=
  member { voting 1 2 with log := [entry] } { ballot := ⟨1, some 1⟩, log := [entry] } 4

def contender : Member MemoryDisk :=
  member { voting 1 2 with role := .candidate, term := 2, votes := [1], log := [entry] }
    { ballot := ⟨2, some 1⟩, log := [entry] } 5

/-- Node 1 in its second term, with these positions of node 2. -/
def successor (held next : Nat) : Member MemoryDisk :=
  member
    { voting 1 2 with
      role := .leader
      term := 2
      leader := some 1
      log := [entry]
      next := .ofList [(2, next)]
      matched := .ofList [(2, held)] }
    { ballot := ⟨2, some 1⟩, log := [entry] } 5

/-- Node 1 when it has begun to bring node 2 up. -/
def catching (held next : Nat) : Member MemoryDisk :=
  { successor held next with catchingUp := [2] }

/-- Node 2 in the second term. -/
def elector : Member MemoryDisk :=
  member { voting 2 1 with term := 2 } { ballot := ⟨2, some 1⟩ } 3

def refuser : Member MemoryDisk :=
  member { voting 2 1 with term := 2, leader := some 1 } { ballot := ⟨2, some 1⟩ } 3

def taker : Member MemoryDisk :=
  member { voting 2 1 with term := 2, leader := some 1, log := [entry] }
    { ballot := ⟨2, some 1⟩, log := [entry] } 4

/-- The heartbeat that node 2 refuses. -/
def early : AppendRequest := ⟨2, 1, 1, 1, [], 0⟩

def resent : AppendRequest := ⟨2, 1, 0, 0, [entry], 0⟩

theorem exists_overtaken : ∃ w, HaltingReachable conditions w ∧ w.sites 1 = .up (catching 1 1) ∧
    w.sites 2 = .up taker := by
  have hstart₁ : Member.start ⟨1, [2], config 1⟩ {} (.ofMillis 0) = .ok (.ok (started 1 2)) := rfl
  have hstart₂ : Member.start ⟨2, [1], config 2⟩ {} (.ofMillis 0) = .ok (.ok (started 2 1)) := rfl
  have hask : (started 1 2).campaign = .ok (candidate, some ⟨1, 1, 0, 0⟩) := rfl
  have hvote : (started 2 1).answerVote ⟨1, 1, 0, 0⟩ =
      ({ voter with outbox := [.resetElectionTimer] }, .ok (.voteReply 1 true)) := rfl
  have hcount : candidate.countVote 1 2 1 true =
      .ok ({ leader with outbox := [.startHeartbeat] }, false) := rfl
  have hpropose : leader.propose (.ofMillis 0) entry.command 7 = .ok (proposer, .ok 1) := by cbv
  have hstart₃ : Member.start ⟨1, [2], config 1⟩ proposer.disk (.ofMillis 0) =
      .ok (.ok returning) := rfl
  have hask₂ : returning.campaign = .ok (contender, some ⟨2, 1, 1, 1⟩) := rfl
  have hvote₂ : voter.answerVote ⟨2, 1, 1, 1⟩ =
      ({ elector with outbox := [.resetElectionTimer] }, .ok (.voteReply 2 true)) := rfl
  have hcount₂ : contender.countVote 2 2 2 true =
      .ok ({ successor 0 2 with outbox := [.startHeartbeat] }, false) := rfl
  have hbeat : (successor 0 2).heartbeats = (successor 0 2, [(2, early)]) := rfl
  have hrefuse : elector.answerAppend (.ofMillis 0) early =
      .ok ({ refuser with outbox := [.resetElectionTimer] }, .ok (.appendReply 2 false)) := rfl
  have hrefuse₂ : refuser.answerAppend (.ofMillis 0) early =
      .ok ({ refuser with outbox := [.resetElectionTimer] }, .ok (.appendReply 2 false)) := rfl
  have hback : (successor 0 2).recordBeat (.ofMillis 0) 2 1 (.appendReply 2 false) =
      .ok { catching 0 1 with outbox := [.catchUp 2 1] } := rfl
  have hresend : (catching 0 1).nextRequest 2 1 =
      .ok (.ok (some (.appendRequest resent))) := rfl
  have htake : refuser.answerAppend (.ofMillis 0) resent =
      .ok ({ taker with outbox := [.resetElectionTimer] }, .ok (.appendReply 2 true)) := rfl
  have hrecord : (catching 0 1).recordReply (.ofMillis 0) 2 1 (.appendReply 2 true) =
      .ok (catching 1 2, true) := by cbv
  have hlate : (catching 1 2).recordBeat (.ofMillis 0) 2 1 (.appendReply 2 false) =
      .ok (catching 1 1) := rfl
  -- nothing is compacted, so no compaction fails
  have h₁ : HaltingReachable conditions _ := .single ⟨1, .start rfl (.refl _) hstart₁⟩
  have h₂ := h₁.tail ⟨2, .start rfl (.swap ..) hstart₂⟩
  have h₃ := h₂.act 1 rfl rfl (.timeout hask) fun _ => ⟨_, rfl⟩
  have h₄ := h₃.act 2 rfl rfl (.answerVote (.head _) rfl rfl hvote) fun _ => ⟨_, rfl⟩
  have h₅ := h₄.act 1 rfl rfl (.countVote (.head _) rfl rfl hcount) fun _ => ⟨_, rfl⟩
  have h₆ := h₅.act 1 rfl rfl (.propose (fun _ => rfl) rfl hpropose) fun _ => ⟨_, rfl⟩
  have h₇ := h₆.tail ⟨1, .stop rfl⟩
  have h₈ := h₇.tail ⟨1, .start rfl (.refl _) hstart₃⟩
  have h₉ := h₈.act 1 rfl rfl (.timeout hask₂) fun _ => ⟨_, rfl⟩
  have h₁₀ := h₉.act 2 rfl rfl (.answerVote (List.mem_append_right _ (.head _)) rfl rfl hvote₂)
    fun _ => ⟨_, rfl⟩
  have h₁₁ := h₁₀.act 1 rfl rfl (.countVote (List.mem_append_right _ (.head _)) rfl rfl hcount₂)
    fun _ => ⟨_, rfl⟩
  have h₁₂ := h₁₁.act 1 rfl rfl (.beat hbeat) fun _ => ⟨_, rfl⟩
  have h₁₃ := h₁₂.act 1 rfl rfl (.beat hbeat) fun _ => ⟨_, rfl⟩
  have h₁₄ := h₁₃.act 2 rfl rfl (.answerAppend (List.mem_append_left _ (List.mem_append_right _
    (.head _))) rfl rfl hrefuse) fun _ => ⟨_, rfl⟩
  have h₁₅ := h₁₄.act 2 rfl rfl (.answerAppend (List.mem_append_left _ (List.mem_append_right _
    (.head _))) rfl rfl hrefuse₂) fun _ => ⟨_, rfl⟩
  have h₁₆ := h₁₅.act 1 rfl rfl (.recordBeat (List.mem_append_left _ (List.mem_append_right _
    (.head _))) rfl rfl hback) fun _ => ⟨_, rfl⟩
  have h₁₇ := h₁₆.act 1 rfl rfl (.fetch (.head _) hresend) fun _ => ⟨_, rfl⟩
  have h₁₈ := h₁₇.act 2 rfl rfl (.answerAppend (List.mem_append_right _ (.head _)) rfl rfl htake)
    fun _ => ⟨_, rfl⟩
  have h₁₉ := h₁₈.act 1 rfl rfl (.recordReply (List.mem_append_right _ (.head _)) rfl rfl hrecord)
    fun _ => ⟨_, rfl⟩
  have h₂₀ := h₁₉.act 1 rfl rfl (.recordBeat (List.mem_append_left _ (List.mem_append_left _
    (List.mem_append_left _ (List.mem_append_left _ (List.mem_append_right _ (.head _)))))) rfl rfl
    hlate) fun _ => ⟨_, rfl⟩
  exact ⟨_, h₂₀, rfl, rfl⟩

end Duo

/-- The positions of node 2 in `Duo`, where a refusal was overtaken. -/
theorem cursors_ordered_duo : ∃ w, HaltingReachable Duo.conditions w ∧
    w.sites 1 = .up (Duo.catching 1 1) ∧ (Duo.catching 1 1).stopped = false ∧
    (Duo.catching 1 1).replica.role = .leader ∧ 2 ∈ (Duo.catching 1 1).replica.peers ∧
    ∃ held next, (Duo.catching 1 1).replica.matched.get? 2 = some held ∧
      (Duo.catching 1 1).replica.next.get? 2 = some next ∧
      held ≤ (Duo.catching 1 1).replica.lastIndex ∧ 1 ≤ next ∧
      next ≤ (Duo.catching 1 1).replica.lastIndex + 1 ∧
      (held < next ∨ Overtaken Duo.conditions w 1 2 (Duo.catching 1 1).replica.term) := by
  obtain ⟨w, h, up, -⟩ := Duo.exists_overtaken
  exact ⟨w, h, up, rfl, rfl, .head _, cursors_ordered h up rfl rfl (.head _)⟩

/-- **A refusal is overtaken.** Node 1 of `Duo` leads and knows that node 2 holds its whole log. No
write has failed, and nothing was answered twice. Yet node 2 is to be sent what it is known to
hold. -/
theorem refusal_overtaken : ∃ w, HaltingReachable Duo.conditions w ∧ Duo.conditions.Reliable ∧
    w.sites 1 = .up (Duo.catching 1 1) ∧ (Duo.catching 1 1).stopped = false ∧
    (Duo.catching 1 1).replica.role = .leader ∧ 2 ∈ (Duo.catching 1 1).replica.peers ∧
    (Duo.catching 1 1).replica.matched.get? 2 = some 1 ∧
    (Duo.catching 1 1).replica.next.get? 2 = some 1 ∧
    ¬ ∃ held next, (Duo.catching 1 1).replica.matched.get? 2 = some held ∧
      (Duo.catching 1 1).replica.next.get? 2 = some next ∧ held < next := by
  obtain ⟨w, h, up, -⟩ := Duo.exists_overtaken
  refine ⟨w, h, Duo.reliable, up, rfl, rfl, .head _, rfl, rfl, ?_⟩
  rintro ⟨held, next, hheld, hnext, hlt⟩
  cases hheld
  cases hnext
  exact Nat.lt_irrefl _ hlt

end ReplicatedStore
