import ReplicatedStore.Proofs.LateAnswers
import ReplicatedStore.Proofs.Sources
/-!
# What sections do to waiting proposals

A proposal waits at the position of its entry, and a section may let it go. `Tends` says of two
points of a section how: the position was executed, or the member is `Over`, with nobody left who
waits. Whoever is let go is told so, and nobody else is told anything. `Attends` puts the pieces
together for a whole section, whatever it does to the lead (`Turns`).

Two sections are not of this kind. `propose_waiters` is about the one at whose end one more proposal
waits, and `Member.dropWaiter` lets go of whoever waits at a position, for no reason of its own.
-/
namespace ReplicatedStore

namespace Table

variable {κ ν : Type} [Ord κ]

theorem get?_eq_none_of_isEmpty {t : Table κ ν} (h : t.isEmpty = true) (k : κ) :
    t.get? k = none := by
  have hl : t.entries = [] := List.isEmpty_iff.1 h
  rw [get?, hl]
  rfl

end Table

/-! ## The lead -/

/-- What a section makes of the part that a replica has: it follows, or goes on as it was, or
campaigns in a later term, or wins the election in which it stood. -/
inductive Replica.Turns (r r' : Replica) : Prop
  | follows (role : r'.role = .follower)
  | stays (role : r'.role = r.role) (term : r'.term = r.term)
      (lastIndex : r'.lastIndex = r.lastIndex) (lastApplied : r.lastApplied ≤ r'.lastApplied)
  | rises (role : r.role ≠ .leader) (term : r.term < r'.term)
  | wins (role : r.role = .candidate) (term : r'.term = r.term)

namespace Replica

variable {r r' : Replica}

theorem Turns.refl (r : Replica) : r.Turns r := .stays rfl rfl rfl (Nat.le_refl _)

theorem SameLog.lastIndex (h : SameLog r r') : r'.lastIndex = r.lastIndex := by
  rw [Replica.lastIndex, Replica.lastIndex, h.log, h.base]

/-- The replica's log is as it was. -/
theorem Turns.of_sameLog (role : r'.role = r.role) (term : r'.term = r.term) (h : SameLog r r') :
    r.Turns r' := .stays role term h.lastIndex (Nat.le_of_eq h.applied.symm)

theorem turns_answerVote {q : VoteRequest} {granted : Bool}
    (h : r.answerVote q = (r', granted)) : r.Turns r' := by
  have hlog := sameLog_answerVote h
  have key : r'.role = .follower ∨ r'.role = r.role ∧ r'.term = r.term := by
    simp only [answerVote] at h
    split at h
    · cases h
      exact .inr ⟨rfl, rfl⟩
    · have hturn : (if r.term < q.term then r.follow q.term else r).role = .follower ∨
          (if r.term < q.term then r.follow q.term else r) = r := by
        split
        · exact .inl rfl
        · exact .inr rfl
      generalize (if r.term < q.term then r.follow q.term else r) = r₁ at h hturn
      split at h <;> cases h <;> exact hturn.imp (fun h => h) fun h => by rw [h]; exact ⟨rfl, rfl⟩
  rcases key with hrole | ⟨hrole, hterm⟩
  · exact .follows hrole
  · exact .of_sameLog hrole hterm hlog

theorem turns_takeEntries {q : AppendRequest} {o : AppendOutcome}
    (h : r.takeEntries q = .ok (r', o)) : r.Turns r' := by
  rcases role_takeEntries h with rfl | hrole
  · exact .refl _
  · exact .follows hrole

theorem turns_takeImage {term lastIndex lastTerm : Nat} {leader : NodeId} {o : InstallOutcome}
    (h : r.takeImage term leader lastIndex lastTerm = .ok (r', o)) : r.Turns r' := by
  rcases Member.takeImage_cases h with ⟨-, rfl, -⟩ | ⟨-, -, rfl, -⟩ | ⟨-, -, hre, -⟩
  · exact .refl _
  · exact .follows (role_accept ..)
  · exact .follows ((stance_eq_iff.1 (stance_rebase hre)).2.2.1.trans (role_accept ..))

theorem turns_countVote {term : Nat} {granted won : Bool} {sender : NodeId}
    (h : r.countVote term granted sender = .ok (r', won)) : r.Turns r' := by
  have hlog := sameLog_countVote h
  rcases countVote_spec h with hheeds | ⟨hrole, -, -, -, -, hballot, -⟩
  · rcases hheeds.turn with hs | ⟨hrole, -⟩
    · obtain ⟨-, -, hrole, hballot, -⟩ := stance_eq_iff.1 hs
      exact .of_sameLog hrole (congrArg Ballot.term hballot) hlog
    · exact .follows hrole
  · exact .wins hrole (congrArg Ballot.term hballot)

theorem lastIndex_advanceCommit {advanced : Bool} (h : r.advanceCommit = .ok (r', advanced)) :
    r'.lastIndex = r.lastIndex ∧ r'.lastApplied = r.lastApplied := by
  rcases advanceCommit_spec h with ⟨rfl, -⟩ | ⟨-, -, i, -, -, -, rfl⟩ <;> exact ⟨rfl, rfl⟩

theorem turns_recordAppend {term lastSent : Nat} {success advanced : Bool} {sender : NodeId}
    (h : r.recordAppend term success sender lastSent = .ok (r', advanced)) : r.Turns r' := by
  have hlog := sameLog_answered r success sender lastSent
  have hstance : (r.answered success sender lastSent).stance = r.stance := by
    unfold Replica.answered
    split <;> rfl
  obtain ⟨-, -, hrole, hballot, -⟩ := stance_eq_iff.1 hstance
  have hterm := congrArg Ballot.term hballot
  rcases recordAppend_spec h with ⟨-, rfl, -⟩ | ⟨rfl, -⟩ | ⟨-, -, ⟨-, hadvance⟩ | ⟨-, rfl, -⟩⟩
  · exact .follows rfl
  · exact .refl _
  · obtain ⟨-, -, hrole', hballot', -⟩ := stance_eq_iff.1 (stance_advanceCommit hadvance)
    obtain ⟨hlast, happlied⟩ := lastIndex_advanceCommit hadvance
    exact .stays (hrole'.trans hrole) ((congrArg Ballot.term hballot').trans hterm)
      (hlast.trans hlog.lastIndex) (Nat.le_of_eq (happlied.trans hlog.applied).symm)
  · exact .of_sameLog hrole hterm hlog

end Replica

namespace Member

variable {m m' m'' : Member MemoryDisk} {i ticket : Nat} {x : Waiter} {S : Entry → Prop}
  {P Q : Nat → Except ServiceError Answer → Prop}

/-- Nobody waits. -/
def Deserted (m : Member MemoryDisk) : Prop := ∀ i, m.pending.get? i = none

/-- Nobody waits, and the member has stopped or does not lead. -/
structure Over (m : Member MemoryDisk) : Prop where
  deserted : m.Deserted
  reason : m.stopped = true ∨ m.replica.role ≠ .leader

/-- The member wants a proposal to be told something. -/
def Tells (m : Member MemoryDisk) (ticket : Nat) (result : Except ServiceError Answer) : Prop :=
  .settle ticket result ∈ m.outbox

/-- From one point of a section to a later one. Nobody begins to wait. A proposal waits on, or it is
told a result. Nobody else is told anything, and no result but one that fits the position, unless
everything is over. -/
structure Tends (P : Nat → Except ServiceError Answer → Prop) (m m' : Member MemoryDisk) :
    Prop where
  role : m'.replica.role = m.replica.role
  term : m'.replica.term = m.replica.term
  lastIndex : m'.replica.lastIndex = m.replica.lastIndex
  lastApplied : m.replica.lastApplied ≤ m'.replica.lastApplied
  stopped : m.stopped = true → m'.stopped = true
  outbox : ∀ e ∈ m.outbox, e ∈ m'.outbox
  pending : ∀ i x, m'.pending.get? i = some x → m.pending.get? i = some x
  left : ∀ i x, m.pending.get? i = some x → m'.pending.get? i = some x ∨
    ∃ result, m'.Tells x.ticket result
  told : ∀ ticket result, m'.Tells ticket result → m.Tells ticket result ∨
    ∃ i x, m.pending.get? i = some x ∧ x.ticket = ticket ∧ m'.pending.get? i = none ∧
      (P i result ∨ m'.Over)

namespace Tends

theorem mono (h : Tends P m m') (hPQ : ∀ i result, P i result → Q i result) : Tends Q m m' where
  role := h.role
  term := h.term
  lastIndex := h.lastIndex
  lastApplied := h.lastApplied
  stopped := h.stopped
  outbox := h.outbox
  pending := h.pending
  left := h.left
  told ticket result ht := (h.told ticket result ht).imp_right fun ⟨i, x, hi, hx, hnone, hr⟩ =>
    ⟨i, x, hi, hx, hnone, hr.imp_left (hPQ i result)⟩

theorem none_of_none (h : Tends P m m') (hi : m.pending.get? i = none) :
    m'.pending.get? i = none := by
  cases hi' : m'.pending.get? i with
  | none => rfl
  | some x => cases hi.symm.trans (h.pending i x hi')

/-- What is over stays over. -/
theorem over_of_over (h : Tends P m m') (hover : m.Over) : m'.Over :=
  ⟨fun i => h.none_of_none (hover.deserted i), hover.reason.imp h.stopped (h.role ▸ ·)⟩

theorem trans (h : Tends P m m') (h' : Tends P m' m'') : Tends P m m'' where
  role := h'.role.trans h.role
  term := h'.term.trans h.term
  lastIndex := h'.lastIndex.trans h.lastIndex
  lastApplied := Nat.le_trans h.lastApplied h'.lastApplied
  stopped hs := h'.stopped (h.stopped hs)
  outbox e he := h'.outbox e (h.outbox e he)
  pending i x hi := h.pending i x (h'.pending i x hi)
  left i x hi := by
    rcases h.left i x hi with hi' | ⟨result, ht⟩
    · exact h'.left i x hi'
    · exact .inr ⟨result, h'.outbox _ ht⟩
  told ticket result ht := by
    rcases h'.told ticket result ht with ht | ⟨i, x, hi, hrest⟩
    · exact (h.told ticket result ht).imp_right fun ⟨i, x, hi, hx, hnone, hr⟩ =>
        ⟨i, x, hi, hx, h'.none_of_none hnone, hr.imp_right h'.over_of_over⟩
    · exact .inr ⟨i, x, h.pending i x hi, hrest⟩

end Tends

/-! ## Pieces -/

/-- What a section does its waiting proposals with. -/
structure Desk where
  replica : Replica
  pending : Table Nat Waiter
  stopped : Bool
  outbox : List Effect

/-- The desk of a member. -/
def desk (m : Member MemoryDisk) : Desk := ⟨m.replica, m.pending, m.stopped, m.outbox⟩

theorem desk_eq_iff : m'.desk = m.desk ↔ m'.replica = m.replica ∧ m'.pending = m.pending ∧
    m'.stopped = m.stopped ∧ m'.outbox = m.outbox := by
  simp only [desk, Desk.mk.injEq]

theorem Tends.of_desk (h : m'.desk = m.desk) : Tends P m m' := by
  obtain ⟨hr, hp, hs, ho⟩ := desk_eq_iff.1 h
  constructor
  · rw [hr]
  · rw [hr]
  · rw [hr]
  · rw [hr]
  · exact fun h => hs.trans h
  · exact fun e he => by rwa [ho]
  · exact fun i x hi => by rwa [← hp]
  · exact fun i x hi => .inl (by rwa [hp])
  · intro ticket result ht
    rw [Tells, ho] at ht
    exact .inl ht

theorem Tends.refl (m : Member MemoryDisk) : Tends P m m := .of_desk rfl

/-- Only the replica moves on. -/
theorem Tends.of_replica {r : Replica} (role : r.role = m.replica.role)
    (term : r.term = m.replica.term) (lastIndex : r.lastIndex = m.replica.lastIndex)
    (lastApplied : m.replica.lastApplied ≤ r.lastApplied) : Tends P m { m with replica := r } :=
  ⟨role, term, lastIndex, lastApplied, id, fun _ h => h, fun _ _ h => h, fun _ _ h => .inl h,
    fun _ _ h => .inl h⟩

/-- The effect tells no proposal anything. -/
def Silent (e : Effect) : Prop := ∀ ticket result, e ≠ .settle ticket result

theorem Tends.emit (h : Tends P m m') {e : Effect} (he : Silent e) : Tends P m (m'.emit e) where
  role := h.role
  term := h.term
  lastIndex := h.lastIndex
  lastApplied := h.lastApplied
  stopped := h.stopped
  outbox e' he' := List.mem_append_left _ (h.outbox e' he')
  pending := h.pending
  left i x hi := (h.left i x hi).imp_right fun ⟨result, ht⟩ =>
    ⟨result, List.mem_append_left _ ht⟩
  told ticket result ht := by
    have ht' := (List.mem_append.1 ht).resolve_right fun hmem =>
      he ticket result (List.mem_singleton.1 hmem).symm
    exact (h.told ticket result ht').imp_right fun ⟨i, x, hi, hx, hnone, hr⟩ =>
      ⟨i, x, hi, hx, hnone, hr.imp_right fun ho => ⟨ho.deserted, ho.reason⟩⟩

theorem Writes.desk {e : Option IoError} (h : Writes m m' e) : m'.desk = m.desk := by
  obtain ⟨⟨_, _, _, rfl⟩, -⟩ := h
  rfl

theorem tends_noteLeader (m : Member MemoryDisk) (resetTimer : Bool) :
    Tends P m (m.noteLeader resetTimer) := by
  unfold noteLeader
  split
  · exact (Tends.refl m).emit nofun
  · exact .refl m

theorem Begins.tends (h : Begins m m') : Tends P m m' := by
  obtain ⟨_, es, rfl, hes⟩ := h
  have hsilent : ∀ ticket result, Effect.settle ticket result ∈ m.outbox ++ es →
      Effect.settle ticket result ∈ m.outbox := by
    intro ticket result ht
    refine (List.mem_append.1 ht).resolve_right fun hmem => ?_
    obtain ⟨_, _, heq⟩ := hes _ hmem
    cases heq
  exact ⟨rfl, rfl, rfl, Nat.le_refl _, id, fun _ he => List.mem_append_left _ he,
    fun _ _ h => h, fun _ _ h => .inl h, fun ticket result ht => .inl (hsilent ticket result ht)⟩

theorem tends_stopHeartbeat (m : Member MemoryDisk) : Tends P m m.stopHeartbeat := by
  unfold stopHeartbeat
  split
  · have h : Tends P m { m with beating := false } := .of_desk rfl
    exact h.emit nofun
  · exact .refl m

/-- Everybody is told the same when the member has stopped or does not lead. -/
theorem tends_failPending (reason : ServiceError)
    (h : m.stopped = true ∨ m.replica.role ≠ .leader) : Tends P m (m.failPending reason) where
  role := rfl
  term := rfl
  lastIndex := rfl
  lastApplied := Nat.le_refl _
  stopped := id
  outbox e he := List.mem_append_left _ he
  pending i x hi := nomatch hi
  left i x hi := by
    refine .inr ⟨.error reason, List.mem_append_right _ ?_⟩
    exact List.mem_map.2 ⟨x, Table.mem_values.2 ⟨i, hi⟩, rfl⟩
  told ticket result ht := by
    rcases List.mem_append.1 ht with ht | ht
    · exact .inl ht
    · obtain ⟨x, hx, heq⟩ := List.mem_map.1 ht
      obtain ⟨i, hi⟩ := Table.mem_values.1 hx
      cases heq
      exact .inr ⟨i, x, hi, rfl, rfl, .inr ⟨fun _ => rfl, h⟩⟩

theorem deserted_failPending (m : Member MemoryDisk) (reason : ServiceError) :
    (m.failPending reason).Deserted := fun _ => rfl

theorem tends_finish (m : Member MemoryDisk) : Tends P m m.finish := by
  have h : Tends P m m.settleRole := by
    unfold settleRole
    split
    · split
      · exact .refl m
      · have h : Tends P m { m with beating := true } := .of_desk rfl
        exact h.emit nofun
    · next hleads =>
      have hrole : m.replica.role ≠ .leader := fun hr => hleads (decide_eq_true hr)
      have hstop := tends_stopHeartbeat (P := P) m
      simp only
      split
      · exact hstop
      · exact hstop.trans (tends_failPending _ (.inr (hstop.role ▸ hrole)))
  exact h.trans (.of_desk rfl)

/-- A section ends with nobody waiting, unless the member leads. -/
theorem deserted_finish (h : m.replica.role ≠ .leader) : m.finish.Deserted := by
  have hleads : m.replica.leads = false := decide_eq_false h
  intro i
  simp only [finish, settleRole, hleads, Bool.false_eq_true, if_false]
  split
  · next hempty => exact Table.get?_eq_none_of_isEmpty hempty i
  · rfl

/-- A member that halts fails everybody. -/
theorem tends_halt (m : Member MemoryDisk) (step : CriticalStep) (cause : ServiceError) :
    Tends P m (m.halt step cause) := by
  -- to fail everybody and then stop is to stop and then fail everybody
  have hstopped : (({ m with stopped := true } : Member MemoryDisk).failPending
      (.unsettled (.nodeHalted step cause.message))).stopHeartbeat = m.halt step cause := by
    cases hb : m.beating <;> simp [halt, stopHeartbeat, failPending, emit, hb]
  have h : Tends P m { m with stopped := true } :=
    ⟨rfl, rfl, rfl, Nat.le_refl _, fun _ => rfl, fun _ h => h, fun _ _ h => h,
      fun _ _ h => .inl h, fun _ _ h => .inl h⟩
  rw [← hstopped]
  exact (h.trans (tends_failPending _ (.inl rfl))).trans (tends_stopHeartbeat _)

theorem over_halt (m : Member MemoryDisk) (step : CriticalStep) (cause : ServiceError) :
    (m.halt step cause).Over :=
  ⟨fun i => (tends_stopHeartbeat (P := fun _ _ => False) _).none_of_none
    (deserted_failPending m (.unsettled (.nodeHalted step cause.message)) i), .inl rfl⟩

/-! ## Executing -/

/-- When everything is over, it does not matter why. -/
theorem Tends.of_over (h : Tends P m m') (hover : m'.Over) : Tends Q m m' where
  role := h.role
  term := h.term
  lastIndex := h.lastIndex
  lastApplied := h.lastApplied
  stopped := h.stopped
  outbox := h.outbox
  pending := h.pending
  left := h.left
  told ticket result ht := (h.told ticket result ht).imp_right fun ⟨i, x, hi, hx, hnone, _⟩ =>
    ⟨i, x, hi, hx, hnone, .inr hover⟩

/-- What a proposal is told when the entry at its position is executed. -/
def Verdict (i : Nat) (result : Except ServiceError Answer) : Prop :=
  (∃ a, result = .ok a) ∨ result = .error (.unsettled (.replaced i))

/-- Whoever waits at one position is told a result. -/
theorem tends_serve {f : Waiter → Except ServiceError Answer}
    (hr : m'.replica = m.replica) (hs : m'.stopped = m.stopped)
    (hp : m'.pending = m.pending.erase i)
    (ho : m'.outbox = m.outbox ++
      (m.pending.get? i).toList.map fun x => .settle x.ticket (f x))
    (hP : ∀ x, P i (f x)) : Tends P m m' where
  role := by rw [hr]
  term := by rw [hr]
  lastIndex := by rw [hr]
  lastApplied := by rw [hr]
  stopped := by rw [hs]; exact id
  outbox e he := by
    rw [ho]
    exact List.mem_append_left _ he
  pending j x hj := by
    rw [hp, Table.get?_erase] at hj
    split at hj
    · cases hj
    · exact hj
  left j x hj := by
    rw [hp, Table.get?_erase]
    split
    · next heq =>
      obtain rfl : j = i := Std.LawfulEqOrd.eq_of_compare heq
      refine .inr ⟨f x, ?_⟩
      rw [Tells, ho, hj]
      exact List.mem_append_right _ List.mem_cons_self
    · exact .inl hj
  told ticket result' ht := by
    rw [Tells, ho] at ht
    refine (List.mem_append.1 ht).imp_right fun ht => ?_
    obtain ⟨x, hx, heq⟩ := List.mem_map.1 ht
    cases heq
    exact ⟨i, x, Option.mem_toList.1 hx, rfl, by rw [hp, Table.get?_erase_self], .inl (hP x)⟩

/-- Whoever waits at the position is let go, for no reason of its own. -/
theorem tends_dropWaiter (m : Member MemoryDisk) (i : Nat) :
    Tends (fun j result => j = i ∧ result = .error (.unsettled (.dropped i))) m
      (m.dropWaiter i) := by
  unfold dropWaiter
  split
  · exact .refl m
  · next x hx =>
    refine tends_serve (i := i) (f := fun _ => .error (.unsettled (.dropped i))) rfl rfl rfl ?_
      fun _ => ⟨rfl, rfl⟩
    simp [emit, hx]

theorem tends_applyEntry {e : Entry} {err : Option ConsensusError}
    (run : m.applyEntry e = (m', err)) :
    Tends (fun i result => i = e.index ∧ (err = none → Verdict i result)) m m' := by
  unfold applyEntry at run
  simp only at run
  split at run <;> cases run
  · next a machine _ =>
    refine tends_serve (i := e.index) (f := fun x => if x.term = e.term then .ok a else
      .error (.unsettled (.replaced e.index))) ?_ ?_ ?_ ?_ fun x => ⟨rfl, fun _ => ?_⟩
    · cases m.pending.get? e.index <;> rfl
    · cases m.pending.get? e.index <;> rfl
    · cases m.pending.get? e.index <;> rfl
    · cases m.pending.get? e.index <;> simp [emit]
    · split
      · exact .inl ⟨a, rfl⟩
      · exact .inr rfl
  · next err _ =>
    refine tends_serve (i := e.index) (f := fun _ => .error (.unsettled (.other err.message)))
      ?_ ?_ ?_ ?_ fun _ => ⟨rfl, fun h => by cases h⟩
    · cases m.pending.get? e.index <;> rfl
    · cases m.pending.get? e.index <;> rfl
    · cases m.pending.get? e.index <;> rfl
    · cases m.pending.get? e.index <;> simp [emit]

theorem tends_applyAll {es : List Entry} {err : Option ConsensusError}
    (run : m.applyAll es = (m', err)) :
    Tends (fun i result => (∃ e ∈ es, e.index = i) ∧ (err = none → Verdict i result)) m m' := by
  induction es generalizing m with
  | nil =>
    cases run
    exact .refl _
  | cons e es ih =>
    rw [applyAll] at run
    split at run
    · next m₁ happ =>
      refine ((tends_applyEntry happ).mono fun i result h => ?_).trans
        ((ih run).mono fun i result h => ?_)
      · exact ⟨⟨e, List.mem_cons_self, h.1.symm⟩, fun _ => h.2 rfl⟩
      · obtain ⟨⟨e', he', hi⟩, hv⟩ := h
        exact ⟨⟨e', List.mem_cons_of_mem _ he', hi⟩, hv⟩
    · next m₁ err' happ =>
      cases run
      exact (tends_applyEntry happ).mono fun i result h =>
        ⟨⟨e, List.mem_cons_self, h.1.symm⟩, h.2⟩

end Member

/-- Compacting a log moves neither its end nor what is applied. -/
theorem Replica.Sourced.ends_compact {S : Entry → Prop} {r r' : Replica} (h : r.Sourced S)
    {through : Nat} {removed : List Entry} (run : r.compact through = .ok (r', removed)) :
    r'.lastIndex = r.lastIndex ∧ r'.lastApplied = r.lastApplied := by
  have hlast := h.lastIndex_eq
  have hlast' := (h.compact run).lastIndex_eq
  unfold Replica.compact at run
  simp only at run
  split at run
  · cases run
    exact ⟨rfl, rfl⟩
  · obtain ⟨r₁, hr₁, run⟩ := bind_eq_ok.1 run
    cases run
    constructor
    · rw [hlast', hlast]
      simp only [(Replica.dropFirst_spec hr₁).1, List.length_drop]
      omega
    · unfold Replica.dropFirst at hr₁
      split at hr₁ <;> cases hr₁
      rfl

namespace Member

variable {m m' : Member MemoryDisk} {S : Entry → Prop} {P : Nat → Except ServiceError Answer → Prop}

theorem tends_takeImage (h : m.replica.Sourced S) {now : Instant} {e : Option ServiceError}
    (run : m.takeImage now = .ok (m', e)) : Tends P m m' := by
  obtain ⟨r, removed, hr, hcases⟩ := compaction_cases run
  obtain ⟨-, -, hrole, hballot, -⟩ := Replica.stance_eq_iff.1 (Replica.stance_compact hr)
  obtain ⟨hlast, happlied⟩ := h.ends_compact hr
  have hcompact : Tends P m { m with replica := r } :=
    .of_replica hrole (congrArg Ballot.term hballot) hlast (Nat.le_of_eq happlied.symm)
  refine hcompact.trans (.of_desk ?_)
  rcases hcases with ⟨-, rfl⟩ | ⟨n, image, -, -, rfl | ⟨-, contents, rfl, -⟩⟩ <;> rfl

/-- The position is executed between two points of a section. -/
def Passes (m m' : Member MemoryDisk) (i : Nat) (result : Except ServiceError Answer) : Prop :=
  m.replica.lastApplied < i ∧ i ≤ m'.replica.lastApplied ∧ Verdict i result

/-- What is not applied yet stands between what is applied and what is committed. -/
theorem of_mem_takeCommitted {r : Replica} (h : r.Sourced S) {e : Entry}
    (he : e ∈ r.takeCommitted.2) :
    r.lastApplied < e.index ∧ e.index ≤ r.takeCommitted.1.lastApplied := by
  simp only [Replica.takeCommitted] at he ⊢
  obtain ⟨i, hi, hat⟩ := List.mem_filterMap.1 he
  obtain ⟨hlow, hhigh⟩ := List.mem_range'_1.1 hi
  unfold Replica.entryAt? at hat
  split at hat
  · cases hat
  · next hbase =>
    have hindex := h.lined _ _ hat
    omega

theorem tends_applyCommitted (h : m.replica.Sourced S) {now : Instant} {e : Option ServiceError}
    (run : m.applyCommitted now = .ok (m', e)) :
    Tends (fun i result => m.replica.lastApplied < i ∧ i ≤ m'.replica.lastApplied ∧
      (e = none → Verdict i result)) m m' := by
  unfold applyCommitted at run
  split at run
  · next hw =>
    cases run
    exact .of_desk (writes_write hw).desk
  · next m₁ hw =>
    obtain ⟨hr, -⟩ := desk_eq_iff.1 (writes_write hw).desk
    have hs : m₁.replica.Sourced S := hr ▸ h
    simp only at run
    split at run
    · cases run
      exact (Tends.of_desk (writes_write hw).desk).trans
        (.of_replica rfl rfl rfl (Nat.le_max_left _ _))
    · cases hall : applyAll { m₁ with replica := m₁.replica.takeCommitted.1 }
          m₁.replica.takeCommitted.2 with
      | mk m₂ err =>
        have htaken := tends_applyAll hall
        -- what is left of the section only compacts
        have hrest : Tends (fun _ _ => False) m₂ m' ∧ (e = none → err = none) := by
          rw [hall] at run
          cases err with
          | some err =>
            cases run
            exact ⟨.refl _, nofun⟩
          | none =>
            refine ⟨?_, fun _ => rfl⟩
            simp only at run
            split at run
            · refine tends_takeImage (S := S) ?_ run
              obtain ⟨m₃, err', happ, hcore, -⟩ := applyAll_cases
                { m₁ with replica := m₁.replica.takeCommitted.1 } m₁.replica.takeCommitted.2
              cases hall.symm.trans happ
              rw [(core_eq_iff.1 hcore).1]
              exact hs.congr rfl rfl
            · cases run
              exact .refl _
        have hserved := htaken.mono (Q := fun i result => m.replica.lastApplied < i ∧
            i ≤ m'.replica.lastApplied ∧ (e = none → Verdict i result)) fun i result hi => by
          obtain ⟨⟨e', he', rfl⟩, hv⟩ := hi
          obtain ⟨hlow, hhigh⟩ := of_mem_takeCommitted hs he'
          have happlied : m₁.replica.takeCommitted.1.lastApplied ≤ m'.replica.lastApplied :=
            Nat.le_trans htaken.lastApplied hrest.1.lastApplied
          exact ⟨hr ▸ hlow, Nat.le_trans hhigh happlied, fun he => hv (hrest.2 he)⟩
        have hcommit : Tends (fun _ _ => False) m
            { m₁ with replica := m₁.replica.takeCommitted.1 } :=
          (Tends.of_desk (writes_write hw).desk).trans
            (.of_replica rfl rfl rfl (Nat.le_max_left _ _))
        exact ((hcommit.mono fun _ _ => False.elim).trans hserved).trans
          (hrest.1.mono fun _ _ => False.elim)

theorem tends_applyOrHalt (h : m.replica.Sourced S) {now : Instant}
    (run : m.applyOrHalt now = .ok m') : Tends (Passes m m') m m' := by
  unfold applyOrHalt at run
  obtain ⟨⟨m₁, e⟩, happ, run⟩ := bind_eq_ok.1 run
  have happlied := tends_applyCommitted h happ
  cases e with
  | none =>
    cases run
    exact happlied.mono fun i result hi => ⟨hi.1, hi.2.1, hi.2.2 rfl⟩
  | some e =>
    cases run
    have hhalt := (happlied.mono (Q := fun _ _ => True) fun _ _ _ => trivial).trans
      (tends_halt m₁ .applyEntries e)
    exact hhalt.of_over (over_halt ..)

/-- What is committed is applied, perhaps, before the rest of the section. -/
theorem tends_settle {β : Type} (h : m.replica.Sourced S) {advanced : Bool} {now : Instant}
    {f : Member MemoryDisk → Except Fault β} {b : β}
    (run : (if advanced then m.applyOrHalt now >>= f else f m) = .ok b) :
    ∃ m₁, Tends (Passes m m₁) m m₁ ∧ f m₁ = .ok b := by
  split at run
  · obtain ⟨m₁, happ, run⟩ := bind_eq_ok.1 run
    exact ⟨m₁, tends_applyOrHalt h happ, run⟩
  · exact ⟨m, .refl m, run⟩

/-! ## Sections -/

/-- What a section does to the lead of a member and to the proposals that wait in it: it settles on
a replica and tends to them from there. At its end nobody waits unless the member leads. -/
structure Attends (m m' : Member MemoryDisk) : Prop where
  exists_turn : ∃ r, m.replica.Turns r ∧
    Tends (Passes { m with replica := r } m') { m with replica := r } m'
  idle : (m.replica.role ≠ .leader → m.Deserted) → m'.replica.role ≠ .leader → m'.Deserted

/-- What comes after may tend to the proposals too. -/
theorem Attends.tends {m₁ : Member MemoryDisk} (h : Attends m m₁)
    (h' : ∀ {P}, Tends P m₁ m') : Attends m m' := by
  have hrest : Tends (fun _ _ => False) m₁ m' := h'
  obtain ⟨r, hturn, ht⟩ := h.exists_turn
  refine ⟨⟨r, hturn, (ht.mono fun i result hi => ?_).trans h'⟩, fun hm hrole i => ?_⟩
  · exact ⟨hi.1, Nat.le_trans hi.2.1 hrest.lastApplied, hi.2.2⟩
  · exact hrest.none_of_none (h.idle hm (hrest.role ▸ hrole) i)

/-- What a section settles on is what the member has at its end, but for what was applied. -/
theorem Attends.turn (h : Attends m m') : m.replica.Turns m'.replica := by
  obtain ⟨r, hturn, ht⟩ := h.exists_turn
  cases hturn with
  | follows role => exact .follows (ht.role.trans role)
  | stays role term lastIndex lastApplied =>
    exact .stays (ht.role.trans role) (ht.term.trans term) (ht.lastIndex.trans lastIndex)
      (Nat.le_trans lastApplied ht.lastApplied)
  | rises role term => exact .rises role (ht.term ▸ term)
  | wins role term => exact .wins role (ht.term.trans term)

/-- A section that ends in line with the role. -/
theorem Attends.of_finish {m₁ : Member MemoryDisk} {r : Replica} (hturn : m.replica.Turns r)
    (h : Tends (Passes { m with replica := r } m₁) { m with replica := r } m₁) :
    Attends m m₁.finish := by
  have hreplica : m₁.finish.replica = m₁.replica := (quiet_finish m₁).replica
  refine ⟨⟨r, hturn, (h.mono fun i result hi => ?_).trans (tends_finish m₁)⟩, fun _ hrole => ?_⟩
  · exact ⟨hi.1, hreplica ▸ hi.2.1, hi.2.2⟩
  · exact deserted_finish (hreplica ▸ hrole)

/-- A section that does nothing to the lead. -/
theorem Attends.of_tends (h : Tends (Passes m m') m m') : Attends m m' :=
  ⟨⟨m.replica, .refl _, h⟩, fun hidle hrole i => h.none_of_none (hidle (h.role ▸ hrole) i)⟩

theorem attends_answerVote {q : VoteRequest} {reply : Except ServiceError Message}
    (run : m.answerVote q = (m', reply)) : Attends m m' := by
  unfold answerVote at run
  cases hr : m.replica.answerVote q with
  | mk r granted =>
    have hturn := Replica.turns_answerVote hr
    simp only [hr] at run
    split at run
    · next hsave =>
      cases run
      exact .of_finish hturn (.of_desk (writes_saveBallot hsave).desk)
    · next m₁ hsave =>
      cases run
      have h : Attends m m₁.finish := .of_finish hturn (.of_desk (writes_saveBallot hsave).desk)
      split
      · exact h.tends ((Tends.refl _).emit nofun)
      · exact h

theorem attends_answerAppend (h : m.replica.Sourced S) {now : Instant} {q : AppendRequest}
    {reply : Except ServiceError Message} (hq : Lined q.prevIndex q.entries)
    (hS : ∀ e ∈ q.entries, S e) (run : m.answerAppend now q = .ok (m', reply)) :
    Attends m m' := by
  unfold answerAppend at run
  obtain ⟨⟨r, o⟩, hr, run⟩ := bind_eq_ok.1 run
  obtain ⟨⟨m₁, e⟩, hpersist, run⟩ := bind_eq_ok.1 run
  have hturn := Replica.turns_takeEntries hr
  have h₁ : ∀ {P}, Tends P { m with replica := r } m₁ :=
    (tends_noteLeader _ o.resetTimer).trans (.of_desk (writes_persistEntries hpersist).desk)
  cases e with
  | some e =>
    cases run
    exact .of_finish hturn (h₁.trans (tends_halt ..))
  | none =>
    have hs : m₁.replica.Sourced S := by
      obtain ⟨hreplica, -⟩ := desk_eq_iff.1 (writes_persistEntries hpersist).desk
      rw [hreplica, (quiet_noteLeader { m with replica := r } o.resetTimer).replica]
      exact h.takeEntries hq hS hr
    obtain ⟨m₂, hsettle, run⟩ := tends_settle hs run
    cases run
    refine .of_finish hturn (h₁.trans (hsettle.mono fun i result hi => ?_))
    exact ⟨Nat.lt_of_le_of_lt (h₁ (P := fun _ _ => False)).lastApplied hi.1, hi.2⟩

theorem attends_answerInstall {now : Instant} {q : InstallRequest}
    {reply : Except ServiceError Message} (run : m.answerInstall now q = .ok (m', reply)) :
    Attends m m' := by
  unfold answerInstall at run
  obtain ⟨⟨r, o⟩, hr, run⟩ := bind_eq_ok.1 run
  have hturn := Replica.turns_takeImage hr
  simp only at run
  split at run <;> cases run <;> next hpersist =>
    obtain ⟨_, _, hwrites⟩ := writes_persistImage hpersist
    have h₁ : ∀ {P}, Tends P { m with replica := r } _ :=
      (tends_noteLeader _ o.resetTimer).trans (.of_desk hwrites.desk)
    first
    | exact .of_finish hturn h₁
    | exact .of_finish hturn (h₁.trans (tends_halt ..))

theorem attends_campaign {q : Option VoteRequest} (run : m.campaign = .ok (m', q)) :
    Attends m m' := by
  unfold campaign at run
  split at run
  · cases run
    exact .of_tends (.refl m)
  · next hleads =>
    obtain ⟨⟨r, request⟩, hr, run⟩ := bind_eq_ok.1 run
    obtain ⟨-, -, hballot, -⟩ := Replica.campaign_spec hr
    have hrole : m.replica.role ≠ .leader := fun hr => hleads (decide_eq_true hr)
    have hterm : m.replica.term < r.term := by
      rw [show r.term = m.replica.term + 1 from congrArg Ballot.term hballot]
      exact Nat.lt_succ_self _
    simp only at run
    split at run
    · next m₁ _ hsave =>
      -- the vote could not be written, so the member does not stand
      cases run
      obtain ⟨hreplica, hp, hs, ho⟩ := desk_eq_iff.1 (writes_saveBallot hsave).desk
      refine .of_finish (r := m₁.replica.follow m₁.replica.term) (.follows rfl) (.of_desk ?_)
      exact desk_eq_iff.2 ⟨rfl, hp, hs, ho⟩
    · next hsave =>
      cases run
      exact .of_finish (.rises hrole hterm) (.of_desk (writes_saveBallot hsave).desk)

theorem attends_countVote {campaign term : Nat} {peer : NodeId} {granted more : Bool}
    (run : m.countVote campaign peer term granted = .ok (m', more)) : Attends m m' := by
  unfold countVote at run
  obtain ⟨⟨r, won⟩, hr, run⟩ := bind_eq_ok.1 run
  have hturn := Replica.turns_countVote hr
  simp only at run
  split at run <;> cases run <;> next hsave =>
    have h₁ : ∀ {P}, Tends P { m with replica := r } _ := .of_desk (writes_saveBallot hsave).desk
    first
    | exact .of_finish hturn h₁
    | exact .of_finish hturn (h₁.trans (tends_halt ..))

theorem attends_recordReply (h : m.replica.Sourced S) {now : Instant} {peer : NodeId}
    {lastSent : Nat} {reply : Message} {more : Bool}
    (run : m.recordReply now peer lastSent reply = .ok (m', more)) : Attends m m' := by
  obtain rfl | ⟨_, _, r, advanced, _, -, hr, run⟩ := recordReply_cases run
  · exact .of_tends (.refl _)
  have hturn := Replica.turns_recordAppend hr
  unfold recorded at run
  split at run
  · next hsave =>
    cases run
    exact .of_finish hturn ((Tends.of_desk (writes_saveBallot hsave).desk).trans (tends_halt ..))
  · next m₁ hsave =>
    have hdesk := (writes_saveBallot hsave).desk
    have hreplica : m₁.replica = r := (desk_eq_iff.1 hdesk).1
    obtain ⟨m₂, hsettle, run⟩ := tends_settle (hreplica ▸ h.recordAppend hr) run
    cases run
    refine .of_finish hturn ((Tends.of_desk hdesk).trans (hsettle.mono fun i result hi => ?_))
    exact ⟨hreplica ▸ hi.1, hi.2⟩

theorem attends_recordBeat (h : m.replica.Sourced S) {now : Instant} {peer : NodeId}
    {lastSent : Nat} {reply : Message} (run : m.recordBeat now peer lastSent reply = .ok m') :
    Attends m m' := by
  obtain ⟨m₁, more, hrecord, hbegins⟩ := recordBeat_cases run
  exact (attends_recordReply h hrecord).tends hbegins.tends

theorem attends_shutDown (m : Member MemoryDisk) : Attends m m.shutDown := by
  have hstop : ∀ {P}, Tends P m { m with stopped := true } :=
    ⟨rfl, rfl, rfl, Nat.le_refl _, fun _ => rfl, fun _ h => h, fun _ _ h => h,
      fun _ _ h => .inl h, fun _ _ h => .inl h⟩
  have hbeat := fun {P} => tends_stopHeartbeat (P := P) { m with stopped := true }
  refine .of_tends (hstop.trans (hbeat.trans (tends_failPending .shutdown (.inl ?_))))
  exact (hbeat (P := fun _ _ => False)).stopped rfl

theorem attends_heartbeats (m : Member MemoryDisk) : Attends m m.heartbeats.1 :=
  .of_tends (begins_heartbeats m).tends

theorem attends_caughtUp (m : Member MemoryDisk) (peer : NodeId) : Attends m (m.caughtUp peer) :=
  .of_tends (.of_desk rfl)

theorem attends_takeImage (h : m.replica.Sourced S) {now : Instant} {e : Option ServiceError}
    (run : m.takeImage now = .ok (m', e)) : Attends m m' := .of_tends (tends_takeImage h run)

theorem await_eq {w : Waiter} (h : m.pending.get? i = none) :
    m.await i w = { m with pending := m.pending.insert i w } := by
  simp only [await, dropWaiter, h]

/-- A proposal that is accepted waits, at the end of the log, and is tended to from there. -/
theorem propose_waiters (h : m.replica.Sourced S)
    (hfree : m.pending.get? (m.replica.lastIndex + 1) = none) {now : Instant} {command : Command}
    {ticket : Nat} {result : Except ServiceError Nat}
    (run : m.propose now command ticket = .ok (m', result)) :
    (m'.desk = m.desk ∧ ∃ e, result = .error e) ∨
    (m.replica.role = .leader ∧ result = .ok (m.replica.lastIndex + 1) ∧
      ∃ m₁ : Member MemoryDisk, m₁.replica.role = .leader ∧ m₁.replica.term = m.replica.term ∧
        m₁.replica.lastIndex = m.replica.lastIndex + 1 ∧
        m₁.replica.lastApplied = m.replica.lastApplied ∧
        m₁.pending = m.pending.insert (m.replica.lastIndex + 1) ⟨m.replica.term, ticket⟩ ∧
        m₁.outbox = m.outbox ∧ Attends m₁ m') := by
  unfold propose at run
  obtain ⟨proposed, hp, run⟩ := bind_eq_ok.1 run
  rcases Replica.propose_cases hp with ⟨-, rfl⟩ | ⟨hrole, -, rfl⟩
  · cases run
    exact .inl ⟨rfl, _, rfl⟩
  · simp only at run
    split at run
    · next hw =>
      cases run
      exact .inl ⟨(writes_write hw).desk, _, rfl⟩
    · next m₂ hw =>
      obtain ⟨⟨r, advanced⟩, hadvance, run⟩ := bind_eq_ok.1 run
      obtain ⟨-, hpending, -, houtbox⟩ := desk_eq_iff.1 (writes_write hw).desk
      rw [await_eq (by rw [hpending]; exact hfree)] at hadvance run
      obtain ⟨-, -, hrole', hballot, -⟩ :=
        Replica.stance_eq_iff.1 (Replica.stance_advanceCommit hadvance)
      obtain ⟨hlast, happlied⟩ := Replica.lastIndex_advanceCommit hadvance
      -- where entries come from does not matter here
      have hs : m.replica.Sourced fun _ => True := ⟨h.lined, fun _ _ => trivial⟩
      obtain ⟨m₃, hsettle, run⟩ := tends_settle
        ((hs.concat (e := ⟨m.replica.term, _, command⟩) rfl trivial).advanceCommit hadvance) run
      cases run
      let m₁ : Member MemoryDisk := { m₂ with
        replica := r
        pending := m₂.pending.insert (m.replica.lastIndex + 1) ⟨m.replica.term, ticket⟩ }
      have hrest : Tends (Passes m₁ m₃) m₁ m₃ := hsettle
      refine .inr ⟨hrole, rfl, m₁, hrole'.trans hrole, congrArg Ballot.term hballot, ?_, happlied,
        ?_, houtbox, .of_finish (.refl _) hrest⟩
      · rw [hlast]
        simp [Replica.lastIndex]
      · rw [← hpending]

end Member

end ReplicatedStore
