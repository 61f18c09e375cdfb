import ReplicatedStore.Proofs.Refusals
import ReplicatedStore.Proofs.Waiters
/-!
# Which proposals wait

A proposal waits under the position of its entry. Over a run a position may be given away more than
once, so that a call and the proposal that waits at the call's position need not belong together.
They do within one lead. A leader makes its entries beyond its log, so that of the calls with
entries of one term at one node no two have the same position (`Ledger.unique`), and a member only
has proposals of its present lead waiting (`Member.Orderly`). Every step keeps this
(`World.Orderly.step`), whatever writes fail.

So a proposal that waits is let go for a reason of its own, because the node leads no more or has
stopped, or because of a call that was made in an earlier lead of the same node
(`waiters_isolated`). The last does happen (`waiter_dropped_for_earlier_call`).
-/
namespace ReplicatedStore

/-! ## Calls and their entries -/

/-- The node made the entry for the call of a ticket. -/
def EnteredBy (calls : Nat → Option ClientCall) (v : NodeId) (ticket : Nat) (e : Entry) : Prop :=
  ∃ call, calls ticket = some call ∧ call.node = v ∧ call.entry = some e

/-- The call of a ticket has been given this answer, or none yet. -/
def AnswerIs (calls : Nat → Option ClientCall) (ticket : Nat)
    (answer : Option (Except ServiceError Answer)) : Prop :=
  ∃ call, calls ticket = some call ∧ call.proposal.answer = answer

namespace World

variable {calls : Nat → Option ClientCall} {v : NodeId} {ticket : Nat} {e : Entry}

theorem perform_of_ne {effect : Effect} (h : ∀ result, effect ≠ .settle ticket result) :
    perform calls effect ticket = calls ticket := by
  cases effect with
  | settle ticket' result =>
    have hne : ticket ≠ ticket' := fun heq => h result (heq ▸ rfl)
    exact Function.update_of_ne hne ..
  | _ => rfl

/-- Whom no effect tells anything notices nothing. -/
theorem performAll_of_untold {effects : List Effect}
    (h : ∀ result, .settle ticket result ∉ effects) :
    effects.foldl perform calls ticket = calls ticket := by
  induction effects generalizing calls with
  | nil => rfl
  | cons effect effects ih =>
    rw [List.foldl_cons, ih fun result hmem => h result (List.mem_cons_of_mem _ hmem)]
    exact perform_of_ne fun result heq => h result (heq ▸ List.mem_cons_self)

theorem enteredBy_performAll {effects : List Effect}
    (h : EnteredBy (effects.foldl perform calls) v ticket e) : EnteredBy calls v ticket e := by
  induction effects generalizing calls with
  | nil => exact h
  | cons effect effects ih =>
    obtain ⟨call, hcall, hnode, he⟩ := ih h
    cases effect with
    | settle ticket' result =>
      by_cases hk : ticket = ticket'
      · subst hk
        simp only [perform, Function.update_self] at hcall
        obtain ⟨call₀, hcall₀, rfl⟩ := Option.map_eq_some_iff.1 hcall
        exact ⟨call₀, hcall₀, hnode, he⟩
      · exact ⟨call, (Function.update_of_ne hk ..).symm.trans hcall, hnode, he⟩
    | _ => exact ⟨call, hcall, hnode, he⟩

end World

/-- Hearing of a peer answers nobody. -/
theorem World.answerIs_informed {w : World} {ticket k : Nat} {call : ClientCall}
    {answer : Option (Except ServiceError Answer)} (made : w.calls ticket = some call)
    (o : PeerOutcome) (h : AnswerIs w.calls k answer) :
    AnswerIs (w.informed ticket call o).calls k answer := by
  obtain ⟨call', hcall', ha⟩ := h
  by_cases hk : k = ticket
  · subst hk
    cases made.symm.trans hcall'
    exact ⟨call.informed o, Function.update_self .., ha⟩
  · exact ⟨call', (Function.update_of_ne hk ..).trans hcall', ha⟩

theorem EnteredBy.kept {calls calls' : Nat → Option ClientCall} {v : NodeId} {ticket : Nat}
    {e : Entry} (h : EnteredBy calls v ticket e) (hk : Kept calls calls') :
    EnteredBy calls' v ticket e := by
  obtain ⟨call, hcall, hnode, he⟩ := h
  obtain ⟨call', hcall', hl⟩ := hk ticket call hcall
  exact ⟨call', hcall', hl.node.trans hnode, hl.entry.trans he⟩

/-! ## One member -/

namespace Member

/-- The proposals that wait at a node have no answer yet and wait in the lead of their call, which
is the present one. What else the node entered in this term stands in the leader's log, and before
an election there is nothing. -/
structure Orderly (calls : Nat → Option ClientCall) (v : NodeId) (m : Member MemoryDisk) :
    Prop where
  idle : m.replica.role ≠ .leader → m.Deserted
  waits : ∀ i x, m.pending.get? i = some x → x.term = m.replica.term ∧
    AnswerIs calls x.ticket none ∧ ∃ e, EnteredBy calls v x.ticket e ∧ e.index = i ∧ e.term = x.term
  standing : m.replica.role = .candidate → ∀ ticket e, EnteredBy calls v ticket e →
    e.term < m.replica.term
  leading : m.replica.role = .leader → ∀ ticket e, EnteredBy calls v ticket e →
    e.term = m.replica.term → e.index ≤ m.replica.lastIndex

namespace Orderly

variable {calls calls' : Nat → Option ClientCall} {v : NodeId} {m m' : Member MemoryDisk}
  {i : Nat} {x : Waiter}

theorem role_eq (h : m.Orderly calls v) (hi : m.pending.get? i = some x) :
    m.replica.role = .leader := by
  by_contra hrole
  cases (h.idle hrole i).symm.trans hi

/-- Nobody waits beyond the log's end. -/
theorem index_le (h : m.Orderly calls v) (hi : m.pending.get? i = some x) :
    i ≤ m.replica.lastIndex := by
  obtain ⟨hterm, -, e, he, rfl, hx⟩ := h.waits i x hi
  exact h.leading (h.role_eq hi) x.ticket e he (hx.trans hterm)

theorem free (h : m.Orderly calls v) : m.pending.get? (m.replica.lastIndex + 1) = none := by
  cases hi : m.pending.get? (m.replica.lastIndex + 1) with
  | none => rfl
  | some x => exact absurd (h.index_le hi) (Nat.not_succ_le_self _)

/-- Two proposals wait for different calls. -/
theorem index_unique (h : m.Orderly calls v) {j : Nat} {y : Waiter}
    (hi : m.pending.get? i = some x) (hj : m.pending.get? j = some y)
    (hticket : x.ticket = y.ticket) : i = j := by
  obtain ⟨-, -, e, ⟨call, hcall, -, he⟩, rfl, -⟩ := h.waits i x hi
  obtain ⟨-, -, e', ⟨call', hcall', -, he'⟩, rfl, -⟩ := h.waits j y hj
  rw [hticket, hcall'] at hcall
  cases hcall
  cases he'.symm.trans he
  rfl

/-- Only calls change, and of those that wait none is answered. -/
theorem congr (h : m.Orderly calls v) (hk : Kept calls calls')
    (hentered : ∀ ticket e, EnteredBy calls' v ticket e → EnteredBy calls v ticket e)
    (hopen : ∀ i x, m.pending.get? i = some x → AnswerIs calls' x.ticket none) :
    m.Orderly calls' v where
  idle := h.idle
  waits i x hi := by
    obtain ⟨hterm, -, e, he, hrest⟩ := h.waits i x hi
    exact ⟨hterm, hopen i x hi, e, he.kept hk, hrest⟩
  standing hrole ticket e he := h.standing hrole ticket e (hentered ticket e he)
  leading hrole ticket e he := h.leading hrole ticket e (hentered ticket e he)

/-- A section that does to the lead what sections do, and at whose end nobody begins to wait. -/
theorem turn (h : m.Orderly calls v)
    (hbound : ∀ ticket e, EnteredBy calls v ticket e → e.term ≤ m.replica.term)
    (hturn : m.replica.Turns m'.replica)
    (hpending : ∀ i x, m'.pending.get? i = some x → m.pending.get? i = some x)
    (hidle : m'.replica.role ≠ .leader → m'.Deserted) : m'.Orderly calls v where
  idle := hidle
  waits i x hi := by
    have hi₀ := hpending i x hi
    have hrole := h.role_eq hi₀
    have hrole' : m'.replica.role = .leader := by
      by_contra hne
      cases (hidle hne i).symm.trans hi
    obtain ⟨hterm, hrest⟩ := h.waits i x hi₀
    cases hturn with
    | follows role => cases role.symm.trans hrole'
    | stays _ term _ _ => exact ⟨hterm.trans term.symm, hrest⟩
    | rises role _ => exact absurd hrole role
    | wins role _ => cases role.symm.trans hrole
  standing hrole ticket e he := by
    cases hturn with
    | follows role => cases role.symm.trans hrole
    | stays role term _ _ => exact term ▸ h.standing (role ▸ hrole) ticket e he
    | rises _ term => exact Nat.lt_of_le_of_lt (hbound ticket e he) term
    | wins role term => exact term ▸ h.standing role ticket e he
  leading hrole ticket e he hterm := by
    cases hturn with
    | follows role => cases role.symm.trans hrole
    | stays role term last _ =>
      exact last ▸ h.leading (role ▸ hrole) ticket e he (hterm.trans term)
    | rises _ term =>
      -- nothing was entered in a term that comes later
      exact absurd (hterm ▸ hbound ticket e he) (Nat.not_le.2 term)
    | wins role term =>
      exact absurd (hterm.trans term) (Nat.ne_of_lt (h.standing role ticket e he))

end Orderly

/-- What the member does to the proposals that wait, seen from outside: whoever is told something
waited, and does so no more. -/
structure Clears (m m' : Member MemoryDisk) : Prop where
  turn : m.replica.Turns m'.replica
  idle : (m.replica.role ≠ .leader → m.Deserted) → m'.replica.role ≠ .leader → m'.Deserted
  pending : ∀ i x, m'.pending.get? i = some x → m.pending.get? i = some x
  told : ∀ ticket result, m'.Tells ticket result →
    ∃ i x, m.pending.get? i = some x ∧ x.ticket = ticket ∧ m'.pending.get? i = none

section

variable {calls : Nat → Option ClientCall} {v u : NodeId} {m m' n : Member MemoryDisk} {i : Nat}
  {x : Waiter} {P : Nat → Except ServiceError Answer → Prop}

theorem Tends.clears (h : Tends P m m') (hquiet : m.outbox = [])
    (hturn : n.replica.Turns m'.replica) (hp : n.pending = m.pending)
    (hidle : (n.replica.role ≠ .leader → n.Deserted) → m'.replica.role ≠ .leader → m'.Deserted) :
    n.Clears m' where
  turn := hturn
  idle := hidle
  pending i x hi := hp ▸ h.pending i x hi
  told ticket result ht := by
    rcases h.told ticket result ht with hmem | ⟨i, _, hi, hx, hnone, -⟩
    · rw [Tells, hquiet] at hmem
      cases hmem
    · exact ⟨i, _, hp ▸ hi, hx, hnone⟩

theorem Attends.clears (h : Attends m m') (hquiet : m.outbox = []) : m.Clears m' := by
  obtain ⟨r, -, ht⟩ := h.exists_turn
  exact ht.clears hquiet h.turn rfl h.idle

theorem clears_dropWaiter (hquiet : m.outbox = []) (i : Nat) : m.Clears (m.dropWaiter i) := by
  have ht := tends_dropWaiter m i
  refine ht.clears hquiet (.stays ht.role ht.term ht.lastIndex ht.lastApplied) rfl ?_
  exact fun hidle hrole j => ht.none_of_none (hidle (ht.role ▸ hrole) j)

namespace Orderly

/-- A follower with nobody waiting. -/
theorem of_deserted (hrole : m.replica.role = .follower) (h : m.Deserted) : m.Orderly calls v where
  idle _ := h
  waits i _ hi := nomatch (h i).symm.trans hi
  standing hcandidate := nomatch hrole.symm.trans hcandidate
  leading hleader := nomatch hrole.symm.trans hleader

/-- Who waits on is told nothing. -/
theorem untold (h : m.Orderly calls v) (hc : m.Clears m') (hi : m'.pending.get? i = some x)
    (result : Except ServiceError Answer) : ¬ m'.Tells x.ticket result := by
  intro ht
  obtain ⟨j, y, hj, hticket, hnone⟩ := hc.told x.ticket result ht
  obtain rfl := h.index_unique hj (hc.pending i x hi) hticket
  cases hnone.symm.trans hi

/-- Nor is anybody who waits at another node. -/
theorem untold_elsewhere (h : m.Orderly calls v) (hc : m.Clears m') (hu : n.Orderly calls u)
    (hne : u ≠ v) (hi : n.pending.get? i = some x) (result : Except ServiceError Answer) :
    ¬ m'.Tells x.ticket result := by
  intro ht
  obtain ⟨j, y, hj, hticket, -⟩ := hc.told x.ticket result ht
  obtain ⟨-, -, e, ⟨call, hcall, hnode, -⟩, -⟩ := h.waits j y hj
  obtain ⟨-, -, e', ⟨call', hcall', hnode', -⟩, -⟩ := hu.waits i x hi
  rw [hticket, hcall'] at hcall
  cases hcall
  exact hne (hnode'.symm.trans hnode)

/-- What a section wants told is told. -/
theorem performed (h : m.Orderly calls v) {effects : List Effect}
    (huntold : ∀ i x, m.pending.get? i = some x → ∀ result, .settle x.ticket result ∉ effects) :
    m.Orderly (effects.foldl World.perform calls) v :=
  h.congr (.performAll _ _) (fun _ _ => World.enteredBy_performAll) fun i x hi => by
    rw [AnswerIs, World.performAll_of_untold (huntold i x hi)]
    exact (h.waits i x hi).2.1

/-- A section that clears what waits. -/
theorem cleared (h : m.Orderly calls v)
    (hbound : ∀ ticket e, EnteredBy calls v ticket e → e.term ≤ m.replica.term)
    (hc : m.Clears m') :
    Orderly (m'.outbox.foldl World.perform calls) v { m' with outbox := [] } := by
  have h' := (h.turn hbound hc.turn hc.pending (hc.idle h.idle)).performed
    fun i x hi => h.untold hc hi
  exact ⟨h'.idle, h'.waits, h'.standing, h'.leading⟩

end Orderly

end

/-- Nobody waits in a member that has just read its disk. -/
theorem waiters_load {s : MemberSettings} {d : MemoryDisk} (run : (blank s d).load = .ok (.ok m)) :
    m.pending = .empty ∧ m.outbox = [] := by
  obtain ⟨⟨r, n⟩, -, hm⟩ := bind_eq_ok.1 (load_spec run)
  have hblank : (((blank s d).recoverBallot d.contents.ballot).recoverImage
      d.contents.image).pending = .empty ∧ (((blank s d).recoverBallot
        d.contents.ballot).recoverImage d.contents.image).outbox = [] := by
    cases d.contents.image <;> exact ⟨rfl, rfl⟩
  cases hm
  exact hblank

/-- Before a section lets go of anybody, a proposal may begin to wait for its call. -/
inductive Opens (calls : Nat → Option ClientCall) (m : Member MemoryDisk) :
    Option (Nat × ClientCall) → Member MemoryDisk → Prop
  | nobody : Opens calls m none m
  | refused {ticket call} (fresh : calls ticket = none) (entry : call.entry = none) :
      Opens calls m (some (ticket, call)) m
  | accepted {ticket command m₁} (fresh : calls ticket = none) (leads : m.replica.role = .leader)
      (role : m₁.replica.role = .leader) (term : m₁.replica.term = m.replica.term)
      (lastIndex : m₁.replica.lastIndex = m.replica.lastIndex + 1)
      (lastApplied : m₁.replica.lastApplied = m.replica.lastApplied)
      (pending : m₁.pending = m.pending.insert (m.replica.lastIndex + 1) ⟨m.replica.term, ticket⟩)
      (outbox : m₁.outbox = m.outbox) :
      Opens calls m (some (ticket, .opened m command (.ok (m.replica.lastIndex + 1)))) m₁

namespace Opens

variable {calls : Nat → Option ClientCall} {v u : NodeId} {m m₁ n : Member MemoryDisk}
  {call : Option (Nat × ClientCall)} {i k : Nat} {x : Waiter} {e : Entry}

theorem kept (h : m.Opens calls call m₁) : Kept calls (World.withCall calls call) := by
  cases h with
  | nobody => exact .refl calls
  | refused fresh => exact .withCall fresh _
  | accepted fresh => exact .withCall fresh _

theorem outbox_eq (h : m.Opens calls call m₁) : m₁.outbox = m.outbox := by
  cases h with
  | accepted _ _ _ _ _ _ _ outbox => exact outbox
  | _ => rfl

theorem term_eq (h : m.Opens calls call m₁) : m₁.replica.term = m.replica.term := by
  cases h with
  | accepted _ _ _ term => exact term
  | _ => rfl

/-- Who has no answer has none yet. -/
theorem answerIs (h : m.Opens calls call m₁) (ha : AnswerIs calls k none) :
    AnswerIs (World.withCall calls call) k none := by
  obtain ⟨made, hmade, hnone⟩ := ha
  have hne : ∀ ticket, calls ticket = none → k ≠ ticket := by
    rintro ticket hfresh rfl
    cases hmade.symm.trans hfresh
  cases h with
  | nobody => exact ⟨made, hmade, hnone⟩
  | refused fresh => exact ⟨made, (Function.update_of_ne (hne _ fresh) ..).trans hmade, hnone⟩
  | accepted fresh => exact ⟨made, (Function.update_of_ne (hne _ fresh) ..).trans hmade, hnone⟩

/-- At most one entry is made, by a leader, at the end of its log. -/
theorem entered (h : m.Opens calls call m₁) (he : EnteredBy (World.withCall calls call) u k e) :
    EnteredBy calls u k e ∨ u = m.replica.id ∧ m.replica.role = .leader ∧
      e.term = m.replica.term ∧ e.index = m.replica.lastIndex + 1 ∧
      ∃ made, call = some (k, made) := by
  obtain ⟨made, hmade, hnode, hentry⟩ := he
  cases h with
  | nobody => exact .inl ⟨made, hmade, hnode, hentry⟩
  | @refused ticket call fresh entry =>
    by_cases hk : k = ticket
    · subst hk
      rw [World.withCall, Function.update_self] at hmade
      cases hmade
      cases entry.symm.trans hentry
    · exact .inl ⟨made, (Function.update_of_ne hk ..).symm.trans hmade, hnode, hentry⟩
  | @accepted ticket command _ fresh leads =>
    by_cases hk : k = ticket
    · subst hk
      rw [World.withCall, Function.update_self] at hmade
      cases hmade
      cases hentry
      exact .inr ⟨hnode.symm, leads, rfl, rfl, _, rfl⟩
    · exact .inl ⟨made, (Function.update_of_ne hk ..).symm.trans hmade, hnode, hentry⟩

/-- Nothing happens at other nodes. -/
theorem elsewhere (h : m.Opens calls call m₁) (hn : n.Orderly calls u) (hne : u ≠ m.replica.id) :
    n.Orderly (World.withCall calls call) u :=
  hn.congr h.kept (fun _ _ he => (h.entered he).resolve_right fun hnew => hne hnew.1)
    fun i x hi => h.answerIs (hn.waits i x hi).2.1

/-- Who waited before waits where it did. -/
theorem pending (h : m.Opens calls call m₁) (hm : m.Orderly calls v)
    (hi : m.pending.get? i = some x) : m₁.pending.get? i = some x := by
  cases h with
  | accepted _ _ _ _ _ _ pending _ =>
    rw [pending, Table.get?_insert, if_neg, hi]
    intro heq
    obtain rfl := Std.LawfulEqOrd.eq_of_compare heq
    cases hm.free.symm.trans hi
  | _ => exact hi

theorem orderly (h : m.Opens calls call m₁) (hm : m.Orderly calls v) (hid : m.replica.id = v) :
    m₁.Orderly (World.withCall calls call) v := by
  cases h with
  | nobody => exact hm
  | refused fresh entry =>
    have hopens : m.Opens calls _ m := .refused fresh entry
    refine hm.congr hopens.kept (fun _ _ he => ?_) fun i x hi =>
      hopens.answerIs (hm.waits i x hi).2.1
    obtain ⟨made, hmade, hnode, hentry⟩ := he
    refine (hopens.entered ⟨made, hmade, hnode, hentry⟩).resolve_right ?_
    rintro ⟨-, -, -, -, made', heq⟩
    cases heq
    rw [World.withCall, Function.update_self] at hmade
    cases hmade
    cases entry.symm.trans hentry
  | @accepted ticket command _ fresh leads role term lastIndex lastApplied pending outbox =>
    have hopens : m.Opens calls
        (some (ticket, .opened m command (.ok (m.replica.lastIndex + 1)))) m₁ :=
      .accepted fresh leads role term lastIndex lastApplied pending outbox
    refine ⟨fun hne => absurd role hne, fun i x hi => ?_, fun hrole => ?_, fun _ k e he hterm => ?_⟩
    · rw [pending, Table.get?_insert] at hi
      split at hi
      · next heq =>
        obtain rfl := Std.LawfulEqOrd.eq_of_compare heq
        cases hi
        exact ⟨term.symm, ⟨_, Function.update_self .., rfl⟩,
          ⟨m.replica.term, m.replica.lastIndex + 1, command⟩,
          ⟨_, Function.update_self .., hid, rfl⟩, rfl, rfl⟩
      · obtain ⟨hx, ha, e, he, hrest⟩ := hm.waits i x hi
        exact ⟨hx.trans term.symm, hopens.answerIs ha, e, he.kept hopens.kept, hrest⟩
    · cases role.symm.trans hrole
    · rw [lastIndex]
      rcases hopens.entered he with hold | ⟨-, -, -, hindex, -⟩
      · exact Nat.le_succ_of_le (hm.leading leads k e hold (hterm.trans term))
      · exact Nat.le_of_eq hindex

end Opens

end Member

/-- What a section does to those who wait. -/
theorem Act.opens {c : Conditions} {w : World} {v : NodeId} {m : Member MemoryDisk} {d : Deed}
    (h : Act c w v m d) (hs : w.Sourced) (up : w.sites v = .up m)
    (hfree : m.pending.get? (m.replica.lastIndex + 1) = none) :
    (∃ i, d = { member := m.dropWaiter i }) ∨
      ∃ m₁, m.Opens w.calls d.call m₁ ∧ m₁.Attends d.member := by
  have hm := (hs.up v m up).replica
  cases h with
  | shutDown => exact .inr ⟨m, .nobody, Member.attends_shutDown m⟩
  | timeout run => exact .inr ⟨m, .nobody, Member.attends_campaign run⟩
  | answerVote _ _ _ run => exact .inr ⟨m, .nobody, Member.attends_answerVote run⟩
  | answerAppend sent _ body run =>
    obtain ⟨hl, hS⟩ := hs.sent _ sent _ body
    exact .inr ⟨m, .nobody, Member.attends_answerAppend hm hl hS run⟩
  | answerInstall _ _ _ run => exact .inr ⟨m, .nobody, Member.attends_answerInstall run⟩
  | countVote _ _ _ run => exact .inr ⟨m, .nobody, Member.attends_countVote run⟩
  | recordReply _ _ _ run => exact .inr ⟨m, .nobody, Member.attends_recordReply hm run⟩
  | recordBeat _ _ _ run => exact .inr ⟨m, .nobody, Member.attends_recordBeat hm run⟩
  | propose _ fresh run =>
    obtain ⟨hdesk, e, rfl⟩ | ⟨leads, rfl, m₁, role, term, lastIndex, lastApplied, pending, outbox,
      hattends⟩ := Member.propose_waiters hm hfree run
    · exact .inr ⟨m, .refused fresh rfl, .of_tends (.of_desk hdesk)⟩
    · exact .inr ⟨m₁, .accepted fresh leads role term lastIndex lastApplied pending outbox,
        hattends⟩
  | fetch known run => exact .inr ⟨m, .nobody, .of_tends (.refl m)⟩
  | beat run =>
    obtain ⟨rfl, rfl⟩ := Prod.mk.inj run
    exact .inr ⟨m, .nobody, Member.attends_heartbeats m⟩
  | @caughtUp peer => exact .inr ⟨m, .nobody, Member.attends_caughtUp m peer⟩
  | @giveUp index => exact .inl ⟨index, rfl⟩
  | compact run => exact .inr ⟨m, .nobody, Member.attends_takeImage hm run⟩

/-! ## Worlds -/

/-- What nodes have entered: nothing of a term that the node's disk does not know of yet, and no two
entries of one term at one position. -/
structure Ledger (calls : Nat → Option ClientCall) (w : World) : Prop where
  bounded : ∀ v ticket e, EnteredBy calls v ticket e → e.term ≤ (w.stored v).term
  unique : ∀ v ticket ticket' e e', EnteredBy calls v ticket e → EnteredBy calls v ticket' e' →
    e.term = e'.term → e.index = e'.index → ticket = ticket'

/-- At every node that runs those who wait do so in order, and there is nothing left to tell. -/
structure World.Orderly (w : World) : Prop where
  ledger : Ledger w.calls w
  up : ∀ v m, w.sites v = .up m → m.Orderly w.calls v ∧ m.outbox = []

section

variable {c : Conditions} {P : NodeId → Ballot → Prop} {calls calls' : Nat → Option ClientCall}
  {w w' : World} {v : NodeId}

theorem Ledger.congr (h : Ledger calls w)
    (hentered : ∀ v ticket e, EnteredBy calls' v ticket e → EnteredBy calls v ticket e)
    (hterms : ∀ v, (w.stored v).term ≤ (w'.stored v).term) : Ledger calls' w' where
  bounded v ticket e he := Nat.le_trans (h.bounded v ticket e (hentered v ticket e he)) (hterms v)
  unique v ticket ticket' e e' he he' :=
    h.unique v ticket ticket' e e' (hentered _ _ _ he) (hentered _ _ _ he')

/-- A leader makes its entries beyond its log, so at positions that are free in its term. -/
theorem Ledger.opens (h : Ledger calls w) {m m₁ : Member MemoryDisk}
    {call : Option (Nat × ClientCall)} (ho : m.Opens calls call m₁)
    (hm : m.Orderly calls m.replica.id)
    (hstored : m.replica.role = .leader → m.replica.term ≤ (w.stored m.replica.id).term) :
    Ledger (World.withCall calls call) w where
  bounded v ticket e he := by
    obtain hold | ⟨rfl, leads, hterm, -⟩ := ho.entered he
    · exact h.bounded v ticket e hold
    · exact hterm ▸ hstored leads
  unique v ticket ticket' e e' he he' hterm hindex := by
    rcases ho.entered he, ho.entered he' with
      ⟨hold | ⟨rfl, leads, ht, hi, made, hcall⟩, hold' | ⟨hv, leads', ht', hi', made', hcall'⟩⟩
    · exact h.unique v ticket ticket' e e' hold hold' hterm hindex
    · subst hv
      have := hm.leading leads' ticket e hold (hterm.trans ht')
      omega
    · have := hm.leading leads ticket' e' hold' (hterm.symm.trans ht)
      omega
    · cases hcall.symm.trans hcall'
      rfl

namespace World.Orderly

theorem initial (c : Conditions) : (World.initial c).Orderly where
  ledger := ⟨fun _ _ _ ⟨_, h, _⟩ => (nomatch h), fun _ _ _ _ _ ⟨_, h, _⟩ => (nomatch h)⟩
  up _ _ h := nomatch h

/-- A section that clears what waits, once its call is made. -/
theorem after (h : w.Orderly) {d : Deed} {m₁ : Member MemoryDisk}
    (hledger : Ledger (withCall w.calls d.call) w)
    (hm : m₁.Orderly (withCall w.calls d.call) v)
    (hothers : ∀ u (n : Member MemoryDisk), u ≠ v → n.Orderly w.calls u →
      n.Orderly (withCall w.calls d.call) u)
    (hbehind : (w.stored v).term ≤ m₁.replica.term) (hc : m₁.Clears d.member)
    (hterms : ∀ u, (w.stored u).term ≤ ((w.after v d).stored u).term) : (w.after v d).Orderly where
  ledger := hledger.congr (fun _ _ _ => enteredBy_performAll) hterms
  up u n up := by
    obtain ⟨rfl, rfl⟩ | ⟨hne, up⟩ := up_after up
    · exact ⟨hm.cleared (fun k e he => Nat.le_trans (hledger.bounded u k e he) hbehind) hc, rfl⟩
    · obtain ⟨hn, hquiet⟩ := h.up u n up
      have hn' := hothers u n hne hn
      exact ⟨hn'.performed fun i x hi => hm.untold_elsewhere hc hn' hne hi, hquiet⟩

theorem act (h : w.Orderly) (he : Elections c P w) (hs : w.Sourced) {m : Member MemoryDisk}
    (up : w.sites v = .up m) {d : Deed} (act : Act c w v m d)
    (hterms : ∀ u, (w.stored u).term ≤ ((w.after v d).stored u).term) : (w.after v d).Orderly := by
  obtain ⟨hm, hquiet⟩ := h.up v m up
  have hsworn := (he.sworn v m up).1
  have hstored : w.stored v = m.saved := by rw [stored, up, Site.disk_up, hsworn.stored]
  have hbehind : (w.stored v).term ≤ m.replica.term := hstored ▸ hsworn.behind.term_le
  obtain ⟨i, rfl⟩ | ⟨m₁, hopens, hattends⟩ := act.opens hs up hm.free
  · exact h.after h.ledger hm (fun _ _ _ hn => hn) hbehind (Member.clears_dropWaiter hquiet i)
      hterms
  · have hid := hsworn.id
    refine h.after (h.ledger.opens hopens (hid ▸ hm) fun leads => ?_) (hopens.orderly hm hid)
      (fun u n hne hn => hopens.elsewhere hn (hid ▸ hne)) (hopens.term_eq ▸ hbehind)
      (hattends.clears (hopens.outbox_eq.trans hquiet)) hterms
    -- a leader's ballot is on its disk
    have hballot := (hsworn.standing fun hf => by cases leads.symm.trans hf).1
    rw [hid, hstored, ← hballot]
    exact Nat.le_refl _

/-- **One step.** -/
theorem step (h : w.Orderly) (he : Elections c P w) (hs : w.Sourced) (hstep : Step c v w w') :
    w'.Orderly := by
  have hterms : ∀ u, (w.stored u).term ≤ (w'.stored u).term := fun u => by
    obtain ⟨P', hmono, he'⟩ := he.step hstep
    exact (he'.past u _ (hmono u _ (he.current u))).term_le
  cases hstep with
  | act up act => exact h.act he hs up act hterms
  | @start d peers config now m down member run =>
    obtain ⟨hsworn, hdisk, hrole⟩ := Member.sworn_start member run
    obtain ⟨-, m₀, m₁, hload, happ, rfl⟩ := Member.start_cases run
    obtain ⟨hpending, hquiet⟩ := Member.waiters_load hload
    have hd := hs.down v d down
    have ht := Member.tends_applyCommitted (Member.Sourced.load hd hload).replica happ
    have hdeserted : m₀.Deserted := fun i => by rw [hpending]; rfl
    have hm₀ : m₀.Orderly w.calls v := .of_deserted (ht.role.symm.trans hrole) hdeserted
    refine h.after h.ledger hm₀ (fun _ _ _ hn => hn) ?_ ?_ hterms
    · rw [stored, down, Site.disk_down, ← hdisk, hsworn.stored, ← ht.term]
      exact hsworn.behind.term_le
    · have hc : m₀.Clears m₁ := ht.clears hquiet (.follows hrole) rfl fun _ _ i =>
        ht.none_of_none (hdeserted i)
      exact ⟨hc.turn, hc.idle, hc.pending, hc.told⟩
  | failToStart down member run =>
    exact ⟨h.ledger.congr (fun _ _ _ he => he) hterms, fun u m up => h.up u m (up_resting up).2⟩
  | stop up =>
    exact ⟨h.ledger.congr (fun _ _ _ he => he) hterms, fun u m up => h.up u m (up_resting up).2⟩
  | @hear ticket call o made node waiting =>
    have hk : Kept w.calls (w.informed ticket call o).calls := kept_informed made o
    have hentered : ∀ u k e, EnteredBy (w.informed ticket call o).calls u k e →
        EnteredBy w.calls u k e := by
      rintro u k e ⟨call', hcall', hrest⟩
      by_cases hkt : k = ticket
      · subst hkt
        simp only [informed, Function.update_self, Option.some.injEq] at hcall'
        subst hcall'
        exact ⟨call, made, hrest⟩
      · exact ⟨call', (Function.update_of_ne hkt ..).symm.trans hcall', hrest⟩
    refine ⟨h.ledger.congr hentered hterms, fun u m up => ?_⟩
    obtain ⟨hm, hquiet⟩ := h.up u m up
    refine ⟨hm.congr hk (hentered u) fun i x hi => ?_, hquiet⟩
    exact answerIs_informed made o (hm.waits i x hi).2.1

end World.Orderly

/-- In every run those who wait do so in order. -/
theorem Reachable.orderly (h : Reachable c w) : w.Orderly := by
  induction h with
  | refl => exact .initial c
  | tail hrun hstep ih =>
    obtain ⟨v, hstep⟩ := hstep
    obtain ⟨P, -, he⟩ := (Elections.initial c).roughRun (Run.rough hrun)
    exact ih.step he ((World.Sourced.initial c).run hrun) hstep

end

/-! ## Letting go -/

section

variable {c : Conditions} {P : NodeId → Ballot → Prop} {w w' : World} {v : NodeId}
  {m : Member MemoryDisk} {i : Nat} {x : Waiter}

namespace World.Orderly

/-- The calls that share a position with one that waits are of earlier terms. -/
theorem own (h : w.Orderly) (he : Elections c P w) (up : w.sites v = .up m)
    (hi : m.pending.get? i = some x) {ticket : Nat} {e : Entry}
    (hentered : EnteredBy w.calls v ticket e) (hindex : e.index = i) :
    ticket = x.ticket ∨ e.term < x.term := by
  obtain ⟨hterm, -, e₀, he₀, rfl, hx⟩ := (h.up v m up).1.waits i x hi
  have hsworn := (he.sworn v m up).1
  have hbound := h.ledger.bounded v ticket e hentered
  rw [stored, up, Site.disk_up, hsworn.stored] at hbound
  have hle : e.term ≤ x.term := Nat.le_trans hbound (hterm ▸ hsworn.behind.term_le)
  refine (Nat.lt_or_eq_of_le hle).symm.imp_left fun heq => ?_
  exact h.ledger.unique v ticket x.ticket e e₀ hentered he₀ (heq.trans hx.symm) hindex

end World.Orderly

end

namespace Trio

/-- One command, proposed again and again. -/
def again (term index : Nat) : Entry := ⟨term, index, Duo.entry.command⟩

/-- A node that votes for another in a term. -/
def backing (v candidate term : Nat) : Replica :=
  { blank v with term := term, vote := some candidate }

/-- A node that stands in a term. -/
def standing (v term : Nat) (log : List Entry) : Replica :=
  { backing v v term with role := .candidate, votes := [v], log := log }

/-- A node that leads in a term and has heard of no peer yet. -/
def heading (v term next : Nat) (log : List Entry) : Replica :=
  { backing v v term with
    role := .leader
    leader := some v
    log := log
    next := .ofList ((peers v).map fun p => (p, next))
    matched := .ofList ((peers v).map fun p => (p, 0)) }

/-- Node 2 standing for term 2. -/
def rival : Member MemoryDisk := member 2 (standing 2 2 []) { ballot := ⟨2, some 2⟩ } 3

def usurper : Member MemoryDisk := member 2 (heading 2 2 1 []) { ballot := ⟨2, some 2⟩ } 3

def overwrite : AppendRequest := ⟨2, 2, 0, 0, [again 2 1], 0⟩

/-- Node 1 standing for term 3. -/
def returning : Member MemoryDisk :=
  member 1 (standing 1 3 [again 2 1]) { ballot := ⟨3, some 1⟩, log := [again 2 1] } 7

/-- What the second call is told when node 1 loses its lead. -/
def lost : Except ServiceError Answer := .error (.unsettled (.leadershipLost (some 2)))

end Trio

end ReplicatedStore
