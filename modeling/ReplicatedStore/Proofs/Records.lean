import ReplicatedStore.Proofs.Calls
import ReplicatedStore.Proofs.Posts
import ReplicatedStore.Proofs.Restarts
/-!
# Chronicles of worlds

When a chronicle is true of a world without failing writes (`Chronicle.Records`):

* a node that is up is steady with its history and has the place that the chronicle gives it
  (`Seat`), a node that is down keeps its history on its disk (`Rests`);
* requests and replies tell what the chronicle says (`Told`, `Answered`), and only what is committed
  is shipped as an image (`Ships`);
* the entry of a call stands in the log of the leader that made it, and a call that was given a
  result was given that of its entry (`Clients`).

All of it but what is said of the acting node only has to be carried along: that is
`Records.after`, which each section is brought to in `ReplicatedStore.Proofs.RecordSteps`.
-/
namespace ReplicatedStore

open History

namespace Chronicle

variable {H H' : Chronicle} {members : List NodeId} {a v : NodeId}

/-! ## Nodes -/

/-- The place of a replica in the chronicle. -/
structure Seat (H : Chronicle) (members : List NodeId) (v : NodeId) (r : Replica) : Prop where
  term : r.term = H.term v
  commit : r.commitIndex = H.commit v
  post : H.Post members v r (H.log v)

/-- A node that is up. -/
structure Lives (H : Chronicle) (members : List NodeId) (v : NodeId) (m : Member MemoryDisk) :
    Prop where
  steady : m.Steady (H.log v)
  seat : H.Seat members v m.replica

/-- A node that is down. -/
structure Rests (H : Chronicle) (v : NodeId) (d : MemoryDisk) : Prop where
  keeps : d.Keeps (H.log v)
  term : d.contents.ballot.term = H.term v
  commit : d.contents.commit = H.commit v

theorem Seat.of_follower {r : Replica} (ht : r.term = H.term v) (hc : r.commitIndex = H.commit v)
    (hrole : r.role = .follower) : H.Seat members v r :=
  ⟨ht, hc, .of_follower hrole⟩

/-- Only the log and what is applied differ. -/
theorem Seat.of_sameButLog {r r' : Replica} (h : H.Seat members v r)
    (hr : Replica.SameButLog r r') : H.Seat members v r' :=
  ⟨hr.term.trans h.term, hr.commit.trans h.commit, h.post.of_sameButLog hr⟩

theorem Lives.of_becomes {m m' : Member MemoryDisk} {r : Replica}
    (hb : m.Becomes r m' (H.log v)) (h : H.Seat members v r) : H.Lives members v m' :=
  ⟨hb.steady, h.of_sameButLog hb.replica⟩

/-- The place of a node that did nothing. -/
theorem Seat.extend {r : Replica} (h : H.Seat members v r) (hs : H.Sound members)
    (hx : Extends a H H') (hv : v ≠ a) : H'.Seat members v r := by
  obtain ⟨hlog, hterm, hcommit, -⟩ := hx.others v hv
  exact ⟨h.term.trans hterm.symm, h.commit.trans hcommit.symm, hlog ▸ h.post.extend hs hx hv⟩

theorem Lives.extend {m : Member MemoryDisk} (h : H.Lives members v m) (hs : H.Sound members)
    (hx : Extends a H H') (hv : v ≠ a) : H'.Lives members v m :=
  ⟨(hx.others v hv).1 ▸ h.steady, h.seat.extend hs hx hv⟩

theorem Rests.extend {d : MemoryDisk} (h : H.Rests v d) (hx : Extends a H H') (hv : v ≠ a) :
    H'.Rests v d := by
  obtain ⟨hlog, hterm, hcommit, -⟩ := hx.others v hv
  exact ⟨hlog ▸ h.keeps, h.term.trans hterm.symm, h.commit.trans hcommit.symm⟩

/-! ## Messages -/

/-- What a node ships as an image, it has committed. -/
def Ships (H : Chronicle) (sender : NodeId) (body : Message) : Prop :=
  ∀ q, body = .installRequest q → q.lastIndex ≤ H.commit sender

theorem Ships.extend (hx : Extends a H H') {sender : NodeId} {body : Message}
    (h : H.Ships sender body) : H'.Ships sender body :=
  fun q hq => Nat.le_trans (h q hq) (hx.commit sender)

/-! ## Calls -/

/-- The entry is fixed at its position and committed by the node, and this is its result there. -/
def Settled (H : Chronicle) (members : List NodeId) (v : NodeId) (e : Entry) (a : Answer) : Prop :=
  ∃ t p k, H.Fixed members t p ∧ e.index = k + 1 ∧ p.length = k + 1 ∧ p[k]? = some e ∧
    k < H.commit v ∧ (Valued (p.take k) → a = (Image.restore (p.take k)).answer e)

/-- What calls have to do with the chronicle. -/
structure Clients (H : Chronicle) (members : List NodeId) (calls : Nat → Option ClientCall) :
    Prop where
  entered : ∀ ticket call e, calls ticket = some call → call.entry = some e →
    e.command = call.command ∧ ∃ R k, H.reign e.term = some R ∧ e.index = k + 1 ∧
      R.log[k]? = some e
  distinct : ∀ ticket ticket' call call' e, calls ticket = some call →
    calls ticket' = some call' → call.entry = some e → call'.entry = some e → ticket = ticket'
  answered : ∀ ticket call a, calls ticket = some call → call.proposal.answer = some (.ok a) →
    ∃ e, call.entry = some e ∧ H.Settled members call.node e a

variable {calls : Nat → Option ClientCall}

theorem Settled.extend (hx : Extends a H H') {e : Entry} {r : Answer}
    (h : H.Settled members v e r) : H'.Settled members v e r := by
  obtain ⟨t, p, k, hfixed, hi, hlen, hk, hlt, ha⟩ := h
  exact ⟨t, p, k, hfixed.extend hx, hi, hlen, hk, Nat.lt_of_lt_of_le hlt (hx.commit v), ha⟩

theorem Clients.extend (hx : Extends a H H') (h : H.Clients members calls) :
    H'.Clients members calls where
  entered ticket call e hcall he := by
    obtain ⟨hc, R, k, hR, hi, hk⟩ := h.entered ticket call e hcall he
    obtain ⟨R', hR', -, -, hp, -⟩ := hx.reign _ R hR
    exact ⟨hc, R', k, hR', hi, getElem?_mono hp hk⟩
  distinct := h.distinct
  answered ticket call r hcall hr := by
    obtain ⟨e, he, hs⟩ := h.answered ticket call r hcall hr
    exact ⟨e, he, hs.extend hx⟩

/-- What happens to a call leaves its entry alone, and gives it no result but its own. -/
theorem Clients.update (h : H.Clients members calls) {ticket : Nat} {f : ClientCall → ClientCall}
    (hf : ∀ call, calls ticket = some call → (f call).node = call.node ∧
      (f call).command = call.command ∧ (f call).entry = call.entry ∧
      ∀ r, (f call).proposal.answer = some (.ok r) → call.proposal.answer = some (.ok r) ∨
        ∃ e, call.entry = some e ∧ H.Settled members call.node e r) :
    H.Clients members (Function.update calls ticket ((calls ticket).map f)) := by
  have hback : ∀ k call', Function.update calls ticket ((calls ticket).map f) k = some call' →
      ∃ call, calls k = some call ∧ call'.node = call.node ∧ call'.command = call.command ∧
        call'.entry = call.entry ∧ ∀ r, call'.proposal.answer = some (.ok r) →
          call.proposal.answer = some (.ok r) ∨
            ∃ e, call.entry = some e ∧ H.Settled members call.node e r := by
    intro k call' hk
    by_cases hkt : k = ticket
    · subst hkt
      rw [Function.update_self] at hk
      obtain ⟨call, hcall, rfl⟩ := Option.map_eq_some_iff.1 hk
      exact ⟨call, hcall, hf call hcall⟩
    · rw [Function.update_of_ne hkt] at hk
      exact ⟨call', hk, rfl, rfl, rfl, fun _ => .inl⟩
  constructor
  · intro k call' e hk he
    obtain ⟨call, hcall, -, hc, hentry, -⟩ := hback k call' hk
    rw [hc]
    exact h.entered k call e hcall (hentry ▸ he)
  · intro k k' call₁ call₂ e hk hk' he he'
    obtain ⟨call, hcall, -, -, hentry, -⟩ := hback k call₁ hk
    obtain ⟨call', hcall', -, -, hentry', -⟩ := hback k' call₂ hk'
    exact h.distinct k k' call call' e hcall hcall' (hentry ▸ he) (hentry' ▸ he')
  · intro k call' r hk hr
    obtain ⟨call, hcall, hnode, -, hentry, hans⟩ := hback k call' hk
    rw [hnode, hentry]
    rcases hans r hr with hr | hs
    · exact h.answered k call r hcall hr
    · exact hs

/-- A call that is made, with an entry of its own if it has one. -/
theorem Clients.withCall (h : H.Clients members calls) {ticket : Nat} {call : ClientCall}
    (hanswer : call.proposal.answer = none) (he : ∀ e, call.entry = some e →
      (e.command = call.command ∧ ∃ R k, H.reign e.term = some R ∧ e.index = k + 1 ∧
        R.log[k]? = some e) ∧
      ∀ ticket' call', calls ticket' = some call' → call'.entry ≠ some e) :
    H.Clients members (World.withCall calls (some (ticket, call))) := by
  have hcases : ∀ k call', World.withCall calls (some (ticket, call)) k = some call' →
      (k = ticket ∧ call' = call) ∨ (k ≠ ticket ∧ calls k = some call') := by
    intro k call' hk
    by_cases hkt : k = ticket
    · subst hkt
      rw [World.withCall, Function.update_self] at hk
      exact .inl ⟨rfl, (Option.some.inj hk).symm⟩
    · rw [World.withCall, Function.update_of_ne hkt] at hk
      exact .inr ⟨hkt, hk⟩
  constructor
  · intro k call' e hk hentry
    obtain ⟨-, rfl⟩ | ⟨-, hk⟩ := hcases k call' hk
    · exact (he e hentry).1
    · exact h.entered k call' e hk hentry
  · intro k k' call₁ call₂ e hk hk' he₁ he₂
    obtain ⟨rfl, rfl⟩ | ⟨-, hold⟩ := hcases k call₁ hk <;>
      obtain ⟨rfl, rfl⟩ | ⟨-, hold'⟩ := hcases k' call₂ hk'
    · rfl
    · exact absurd he₂ ((he e he₁).2 _ _ hold')
    · exact absurd he₁ ((he e he₂).2 _ _ hold)
    · exact h.distinct k k' call₁ call₂ e hold hold' he₁ he₂
  · intro k call' r hk hr
    obtain ⟨-, rfl⟩ | ⟨-, hk⟩ := hcases k call' hk
    · rw [hanswer] at hr
      cases hr
    · exact h.answered k call' r hk hr

/-- No call has the entry that comes next in a leader's log. -/
theorem Clients.unclaimed (h : H.Clients members calls) {R : Reign} {e : Entry}
    (hR : H.reign e.term = some R) (hi : R.log.length < e.index) {ticket : Nat} {call : ClientCall}
    (hcall : calls ticket = some call) : call.entry ≠ some e := by
  intro hentry
  obtain ⟨-, S, k, hS, hk, hget⟩ := h.entered _ _ _ hcall hentry
  obtain rfl : R = S := Option.some.inj (hR.symm.trans hS)
  have hlt := (List.getElem?_eq_some_iff.1 hget).1
  omega

/-- Whoever earned a result waits for the entry that gave it. -/
theorem Clients.settled (h : H.Clients members calls) (hs : H.Sound members)
    {pending : Table Nat Waiter} (hp : ∀ i w, pending.get? i = some w → Waits calls v i w)
    {ticket : Nat} {r : Answer}
    (he : Effect.Earned pending (H.log v) (H.commit v) (.settle ticket (.ok r)))
    {call : ClientCall} (hcall : calls ticket = some call) :
    ∃ e, call.entry = some e ∧ H.Settled members call.node e r := by
  have hup := hs.upright v
  obtain ⟨k, w, e, hw, rfl, hk, hget, hterm, hr⟩ := he _ _ rfl
  obtain ⟨call', e₀, hcall', hnode, hentry, hindex, hterm'⟩ := hp _ w hw
  obtain rfl : call = call' := Option.some.inj (hcall.symm.trans hcall')
  -- both entries stand in the log of the leader of their term
  obtain ⟨-, R, k', hR, hk', hget'⟩ := h.entered _ call e₀ hcall hentry
  obtain rfl : k = k' := by omega
  obtain ⟨R', hR', hpre⟩ := hup.rooted k e hget
  obtain rfl : R' = R := by
    rw [hterm, ← hterm', hR] at hR'
    exact (Option.some.inj hR').symm
  have htake : ((H.log v).take (k + 1))[k]? = some e := by
    rw [List.getElem?_take_of_lt (Nat.lt_succ_self k), hget]
  obtain rfl : e = e₀ := Option.some.inj ((getElem?_mono hpre htake).symm.trans hget')
  refine ⟨e, hentry, H.term v, (H.log v).take (k + 1), k, ?_, hindex, ?_, htake, hnode ▸ hk, ?_⟩
  · exact hup.fixed.of_isPrefix (take_prefix_take hk)
  · exact List.length_take_of_le (List.getElem?_eq_some_iff.1 hget).1
  · rw [List.take_take, Nat.min_eq_left (Nat.le_succ k)]
    exact hr

theorem Clients.perform (h : H.Clients members calls) (hs : H.Sound members)
    {pending : Table Nat Waiter} (hp : ∀ i w, pending.get? i = some w → Waits calls v i w)
    {effect : Effect}
    (he : effect.Earned pending (H.log v) (H.commit v)) :
    H.Clients members (World.perform calls effect) := by
  cases effect with
  | settle ticket result =>
    refine h.update fun call hcall => ⟨rfl, rfl, rfl, fun r hr => ?_⟩
    cases hans : call.proposal.answer with
    | some first => exact .inl (by simpa [ClientCall.answered, hans] using hr)
    | none =>
      obtain rfl : result = .ok r := by simpa [ClientCall.answered, hans] using hr
      exact .inr (h.settled hs hp he hcall)
  | _ => exact h

theorem Clients.performAll (h : H.Clients members calls) (hs : H.Sound members)
    {pending : Table Nat Waiter} (hp : ∀ i w, pending.get? i = some w → Waits calls v i w)
    {effects : List Effect}
    (he : ∀ e ∈ effects, e.Earned pending (H.log v) (H.commit v)) :
    H.Clients members (effects.foldl World.perform calls) := by
  induction effects generalizing calls with
  | nil => exact h
  | cons effect effects ih =>
    exact ih (h.perform hs hp (he effect List.mem_cons_self))
      (fun i w hw => (hp i w hw).kept (.perform _ effect))
      fun e h' => he e (List.mem_cons_of_mem _ h')

/-! ## Worlds -/

/-- The chronicle is true of the world. -/
structure Records (H : Chronicle) (c : Conditions) (P : NodeId → Ballot → Prop) (w : World) :
    Prop where
  elections : Elections c P w
  sound : H.Sound c.members
  up : ∀ v m, w.sites v = .up m → H.Lives c.members v m ∧ m.outbox = []
  down : ∀ v d, w.sites v = .down d → H.Rests v d
  told : ∀ r ∈ w.requests, H.Told c.members r.sender r.body ∧ H.Ships r.sender r.body
  answered : ∀ r reply, (r, reply) ∈ w.replies → H.Answered H.acked r reply
  crowned : ∀ t R, H.reign t = some R → ∃ Q, Voters c P R.leader t Q ∧ Majority c.members Q
  admitted : ∀ t R, H.reign t = some R → ∀ e ∈ R.log, c.admits e.command
  waits : ∀ v m i x, w.sites v = .up m → m.pending.get? i = some x → Waits w.calls v i x
  clients : H.Clients c.members w.calls

variable {c : Conditions} {P P' : NodeId → Ballot → Prop} {w : World}

theorem Records.initial (hc : c.Reliable) :
    Chronicle.initial.Records c (fun _ b => b = ⟨0, none⟩) (.initial c) where
  elections := .initial c
  sound := .initial _
  up _ _ h := nomatch h
  down v d h := by
    cases h
    exact ⟨⟨rfl, rfl, Nat.le_refl _, Nat.le_refl _, .nil, hc v⟩, rfl, rfl⟩
  told _ h := nomatch h
  answered _ _ h := nomatch h
  crowned _ _ h := nomatch h
  admitted _ _ h := nomatch h
  waits _ _ _ _ h := nomatch h
  clients :=
    ⟨fun _ _ _ h => (nomatch h), fun _ _ _ _ _ h => (nomatch h), fun _ _ _ h => (nomatch h)⟩

/-- **What a section has to show.** The chronicle grew at the acting node only, what the node has
and says is true of it, and nobody is given a result that was not earned. -/
theorem Records.after (h : H.Records c P w) {d : Deed} (pending : Table Nat Waiter)
    (he : Elections c P' (w.after v d)) (hmono : ∀ u b, P u b → P' u b) (hx : Extends v H H')
    (hs : H'.Sound c.members) (hlives : H'.Lives c.members v d.member)
    (htold : ∀ r ∈ d.requests, H'.Told c.members r.sender r.body ∧ H'.Ships r.sender r.body)
    (hanswered : ∀ r reply, (r, reply) ∈ d.replies → H'.Answered H'.acked r reply)
    (hcrowned : ∀ t R, H'.reign t = some R → H.reign t = none →
      d.member.replica.role = .leader ∧ d.member.replica.term = t)
    (hadmitted : ∀ t R, H'.reign t = some R → ∀ e ∈ R.log, c.admits e.command)
    (hclients : H'.Clients c.members (World.withCall w.calls d.call))
    (hkept : Kept w.calls (World.withCall w.calls d.call))
    (hp : ∀ i x, pending.get? i = some x → Waits (World.withCall w.calls d.call) v i x)
    (hpending : ∀ i x, d.member.pending.get? i = some x → pending.get? i = some x)
    (hearned : ∀ e ∈ d.member.outbox, e.Earned pending (H'.log v) (H'.commit v)) :
    H'.Records c P' (w.after v d) where
  elections := he
  sound := hs
  up u m up := by
    obtain ⟨rfl, rfl⟩ | ⟨hu, up⟩ := World.up_after up
    · exact ⟨⟨hlives.steady.of_core rfl, hlives.seat⟩, rfl⟩
    · exact (h.up u m up).imp_left fun hl => hl.extend h.sound hx hu
  down u d' down := by
    obtain ⟨hu, down⟩ := World.down_after down
    exact (h.down u d' down).extend hx hu
  told r hr := by
    rcases List.mem_append.1 hr with hr | hr
    · exact (h.told r hr).imp (·.extend hx) (·.extend hx)
    · exact htold r hr
  answered r reply hr := by
    rcases List.mem_append.1 hr with hr | hr
    · exact ((h.answered r reply hr).extend h.sound hx).mono hx.acked
    · exact hanswered r reply hr
  crowned _ _ hR' := crowned_after he hmono hx h.crowned hcrowned hR'
  admitted := hadmitted
  waits u m i x up hi := by
    obtain ⟨rfl, rfl⟩ | ⟨-, up⟩ := World.up_after up
    · exact (hp i x (hpending i x hi)).kept (.performAll _ _)
    · exact (h.waits u m i x up hi).kept (hkept.trans (.performAll _ _))
  clients := hclients.performAll hs hp hearned

end Chronicle

end ReplicatedStore
