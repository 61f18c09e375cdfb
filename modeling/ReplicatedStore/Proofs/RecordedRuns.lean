import Mathlib.Data.List.Permutation
import ReplicatedStore.Proofs.RecordSteps
import ReplicatedStore.Proofs.Sites
/-!
# Recorded runs

Every run without failing writes has a chronicle (`Records.run`, `Reachable.recorded`).

A section extends the chronicle at one node (`Records.act`). A node that starts has the history
that its disk keeps, one that stops leaves its history on its disk, and a call that hears of a peer
is given no result, so these only carry the chronicle along. Over a run different nodes act:
`Later` is what is left of `Extends` when it is not said who did.

What nodes have committed is fixed, and fixed prefixes extend each other, so there is one history
that all members follow (`Records.exists_followed`).
-/
namespace ReplicatedStore

open History

variable {c : Conditions} {w w' : World} {v : NodeId}

namespace Chronicle

variable {H H' H'' : Chronicle} {members : List NodeId} {P P' : NodeId → Ballot → Prop}

/-! ## Steps that are no sections -/

theorem Lives.rests {m : Member MemoryDisk} (h : H.Lives members v m) : H.Rests v m.disk where
  keeps := h.steady.keeps
  term := by
    rw [h.steady.ballot]
    exact h.seat.term
  commit := h.steady.commit.trans h.seat.commit

namespace Records

theorem start (h : H.Records c P w) {d : MemoryDisk} (down : w.sites v = .down d)
    {peers : List NodeId} {config : Config} {now : Instant} {m : Member MemoryDisk}
    (member : (v :: peers).Perm c.members)
    (run : Member.start ⟨v, peers, config⟩ d now = .ok (.ok m))
    (he : Elections c P' (w.after v { member := m })) (hmono : ∀ u b, P u b → P' u b) :
    H.Records c P' (w.after v { member := m }) := by
  have hrests := h.down v d down
  obtain ⟨-, -, hrole⟩ := Member.sworn_start member run
  obtain ⟨hsteady, hcommit, hballot, hpending, hmute⟩ := Member.steady_start hrests.keeps run
  have hterm : m.replica.term = H.term v := (congrArg Ballot.term hballot).trans hrests.term
  refine h.after (d := { member := m }) m.pending he hmono (.refl v H) h.sound
    ⟨hsteady, .of_follower hterm (hcommit.trans hrests.commit) hrole⟩ nofun nofun
    (fun t R hR hR' => nomatch hR'.symm.trans hR) h.admitted h.clients (.refl _) ?_
    (fun _ _ => id) ?_
  · intro i x hi
    rw [hpending] at hi
    cases hi
  · exact fun e he => (hmute e he).earned _ _ _

theorem hear (h : H.Records c P w) {ticket : Nat} {call : ClientCall}
    (made : w.calls ticket = some call) (o : PeerOutcome)
    (he : Elections c P' (w.informed ticket call o)) (hmono : ∀ u b, P u b → P' u b) :
    H.Records c P' (w.informed ticket call o) := by
  have hcalls : (w.informed ticket call o).calls =
      Function.update w.calls ticket ((w.calls ticket).map (·.informed o)) := by
    rw [made]
    rfl
  refine ⟨he, h.sound, h.up, h.down, h.told, h.answered, fun t R hR => ?_, h.admitted, ?_, ?_⟩
  · obtain ⟨Q, hQ, hmaj⟩ := h.crowned t R hR
    exact ⟨Q, hQ.mono hmono, hmaj⟩
  · exact fun u m i x up hi => (h.waits u m i x up hi).kept (World.kept_informed made o)
  · rw [hcalls]
    exact h.clients.update fun call _ => ⟨rfl, rfl, rfl, fun r hr => .inl hr⟩

/-- **One step.** The chronicle grows at one node, and is true afterwards. -/
theorem step (h : H.Records c P w) (hstep : Step c v w w') :
    ∃ P' H', Extends v H H' ∧ H'.Records c P' w' := by
  obtain ⟨P', hmono, he⟩ := h.elections.step hstep
  cases hstep with
  | act up act =>
    obtain ⟨H', hx, h'⟩ := h.act up act he hmono
    exact ⟨P', H', hx, h'⟩
  | start down member run => exact ⟨P', H, .refl v H, h.start down member run he hmono⟩
  | @failToStart d _ _ _ _ d' down member run =>
    have hrests := h.down v d down
    obtain ⟨hkeeps, hcommit⟩ := Member.start_error_keeps hrests.keeps run
    have hballot := Member.stored_start_error run
    exact ⟨P', H, .refl v H, h.resting he hmono
      ⟨hkeeps, (congrArg Ballot.term hballot).trans hrests.term, hcommit.trans hrests.commit⟩⟩
  | @stop m up => exact ⟨P', H, .refl v H, h.resting he hmono (h.up v m up).1.rests⟩
  | hear made node waiting => exact ⟨P', H, .refl v H, h.hear made _ he hmono⟩

end Records

/-! ## Runs -/

/-- What a chronicle says is still true later. -/
structure Later (members : List NodeId) (H H' : Chronicle) : Prop where
  reign : ∀ t R, H.reign t = some R → ∃ R', H'.reign t = some R' ∧ R.log <+: R'.log
  fixed : ∀ t p, H.Fixed members t p → H'.Fixed members t p
  commit : ∀ u, H.commit u ≤ H'.commit u

theorem Extends.later (h : Extends v H H') (members : List NodeId) : Later members H H' where
  reign t R hR := by
    obtain ⟨R', hR', -, -, hp, -⟩ := h.reign t R hR
    exact ⟨R', hR', hp⟩
  fixed t p hp := hp.extend h
  commit := h.commit

namespace Later

theorem refl (members : List NodeId) (H : Chronicle) : Later members H H :=
  (Extends.refl 0 H).later members

theorem trans (h : Later members H H') (h' : Later members H' H'') : Later members H H'' where
  reign t R hR := by
    obtain ⟨R', hR', hp⟩ := h.reign t R hR
    obtain ⟨R'', hR'', hp'⟩ := h'.reign t R' hR'
    exact ⟨R'', hR'', hp.trans hp'⟩
  fixed t p hp := h'.fixed t p (h.fixed t p hp)
  commit u := Nat.le_trans (h.commit u) (h'.commit u)

theorem rooted (h : Later members H H') {x : History} (hx : H.Rooted x) : H'.Rooted x := by
  intro k e he
  obtain ⟨R, hR, hp⟩ := hx k e he
  obtain ⟨R', hR', hp'⟩ := h.reign _ R hR
  exact ⟨R', hR', hp.trans hp'⟩

end Later

theorem Records.run (h : H.Records c P w) (hrun : Run c w w') :
    ∃ P' H', Later c.members H H' ∧ H'.Records c P' w' := by
  induction hrun with
  | refl => exact ⟨P, H, .refl _ H, h⟩
  | tail _ hstep ih =>
    obtain ⟨P₁, H₁, hl, h₁⟩ := ih
    obtain ⟨v, hstep⟩ := hstep
    obtain ⟨P₂, H₂, hx, h₂⟩ := h₁.step hstep
    exact ⟨P₂, H₂, hl.trans (hx.later _), h₂⟩

/-- **Two moments of a run.** Each has a chronicle, and what the first says is still true in the
second. -/
theorem Reachable.recorded (hc : c.Reliable) (h : Reachable c w) (h' : Run c w w') :
    ∃ P H P' H', H.Records c P w ∧ Later c.members H H' ∧ H'.Records c P' w' := by
  obtain ⟨P, H, -, hrec⟩ := (Records.initial hc).run h
  obtain ⟨P', H', hlater, hrec'⟩ := hrec.run h'
  exact ⟨P, H, P', H', hrec, hlater, hrec'⟩

/-! ## What a chronicle says of sites -/

namespace Records

variable (h : H.Records c P w)
include h

theorem bears (v : NodeId) : (w.sites v).Bears (H.log v) := by
  cases hs : w.sites v with
  | up m => exact (h.up v m hs).1.steady
  | down d => exact (h.down v d hs).keeps

theorem commit_eq (v : NodeId) : (w.sites v).commit = H.commit v := by
  cases hs : w.sites v with
  | up m => exact (h.up v m hs).1.seat.commit
  | down d => exact (h.down v d hs).commit

theorem term_eq (v : NodeId) : (w.sites v).term = H.term v := by
  cases hs : w.sites v with
  | up m => exact (h.up v m hs).1.seat.term
  | down d => exact (h.down v d hs).term

/-- A leader's log is that of its reign. -/
theorem leads {term : Nat} (hl : w.Leads v term) :
    ∃ R, H.reign term = some R ∧ R.log = H.log v := by
  obtain ⟨m, up, hrole, rfl⟩ := hl
  obtain ⟨-, R, hR, -, hlog, -⟩ := (h.up v m up).1.seat.post.leads hrole
  exact ⟨R, hR, hlog⟩

/-- What is fixed was proposed. -/
theorem admits_of_fixed {t : Nat} {p : History} (hp : H.Fixed c.members t p) {e : Entry}
    (he : e ∈ p) : c.admits e.command := by
  obtain rfl | ⟨s, q, -, ⟨R, hR, hqR, -⟩, hpq⟩ := hp
  · cases he
  · exact h.admitted s R hR e ((hpq.trans hqR).mem he)

/-- **One history for all members**, above any fixed prefix. -/
theorem exists_followed (hv : c.Valued) {t : Nat} {p : History} (hp : H.Fixed c.members t p) :
    ∃ t' x, H.Fixed c.members t' x ∧ p <+: x ∧ ∀ u ∈ c.members,
      (H.log u).take (H.commit u) <+: x ∧ (w.sites u).Follows x := by
  obtain ⟨t', x, hx, hpx, hall, -⟩ :=
    h.sound.exists_longest hp (fun u => (h.sound.upright u).fixed) c.members
  have hvalued : Valued x := fun e he => hv _ (h.admits_of_fixed hx he)
  refine ⟨t', x, hx, hpx, fun u hu => ⟨hall u hu, ?_⟩⟩
  exact (h.bears u).follows (h.commit_eq u ▸ hall u hu) hvalued

end Records

end Chronicle

/-! ## An entry

The leader of `Duo` is given a command. It commits it once node 2 holds it, executes it and
compacts its log; node 2 learns of that with the next heartbeat and keeps its log. -/

namespace Duo

def entry : Entry := ⟨1, 1, ⟨.put, "k", some "v"⟩⟩

/-- Node 1 waiting for node 2. -/
def proposer : Member MemoryDisk :=
  { member { leading 0 with log := [entry] } { ballot := ⟨1, some 1⟩, log := [entry] } 3 with
    pending := .ofList [(1, ⟨1, 7⟩)] }

def append : AppendRequest := ⟨1, 1, 0, 0, [entry], 0⟩

/-- Node 2 holding the entry. -/
def holder : Member MemoryDisk :=
  member { voting 2 1 with leader := some 1, log := [entry] }
    { ballot := ⟨1, some 1⟩, log := [entry] } 3

def image : Image := ⟨[entry], 1, 1, .ofMillis 0⟩

/-- Node 1 when it has compacted its log. -/
def compacted : Member MemoryDisk :=
  { member { leading 1 with
      snapshotIndex := 1, snapshotTerm := 1, commitIndex := 1, lastApplied := 1 }
      { ballot := ⟨1, some 1⟩, commit := 1, image := some image } 6 with
    machine := .ofList [("k", "v")]
    image := some image }

def beat : AppendRequest := ⟨1, 1, 1, 1, [], 1⟩

/-- Node 2 when it has executed the entry. -/
def follower : Member MemoryDisk :=
  { member { holder.replica with commitIndex := 1, lastApplied := 1 }
      { holder.disk.contents with commit := 1 } 4 with
    machine := .ofList [("k", "v")] }

/-- The call for the entry, once it is answered. -/
def call : ClientCall := (ClientCall.opened leader entry.command (.ok 1)).answered (.ok .done)

theorem exists_committed : ∃ w, Reachable conditions w ∧ w.sites 1 = .up compacted ∧
    w.sites 2 = .up holder ∧ w.calls 7 = some call := by
  obtain ⟨w₀, h₀, hleader, hvoter, -, hcalls⟩ := exists_elected
  have hpropose : leader.propose (.ofMillis 0) entry.command 7 = .ok (proposer, .ok 1) := by cbv
  have hfetch : proposer.nextRequest 2 1 = .ok (.ok (some (.appendRequest append))) := rfl
  have happend : voter.answerAppend (.ofMillis 0) append =
      .ok ({ holder with outbox := [.resetElectionTimer] }, .ok (.appendReply 1 true)) := rfl
  have hrecord : proposer.recordReply (.ofMillis 0) 2 1 (.appendReply 1 true) =
      .ok ({ compacted with outbox := [.settle 7 (.ok .done)] }, true) := by cbv
  have h₁ := h₀.tail ⟨1, .act hleader (.propose (fun _ => rfl) (congrFun hcalls 7) hpropose)⟩
  have h₂ := h₁.tail ⟨1, .act rfl (.fetch (.head _) hfetch)⟩
  have h₃ := h₂.tail ⟨2, .act hvoter (.answerAppend
    (List.mem_append_right _ (.head _)) rfl rfl happend)⟩
  have h₄ := h₃.tail ⟨1, .act rfl (.recordReply
    (List.mem_append_right _ (.head _)) rfl rfl hrecord)⟩
  exact ⟨_, h₄, rfl, rfl, rfl⟩

/-- Node 1's call is answered, and node 2 executes the entry after it. -/
theorem exists_acknowledged : ∃ w w', Reachable conditions w ∧ Run conditions w w' ∧
    w.sites 1 = .up compacted ∧ w.sites 2 = .up holder ∧ w'.sites 1 = .up compacted ∧
    w'.sites 2 = .up follower ∧ w.calls 7 = some (call.informed (.ok ())) := by
  obtain ⟨w₀, h₀, hcompacted, hholder, hcall⟩ := exists_committed
  have hbeat : compacted.heartbeats = (compacted, [(2, beat)]) := rfl
  have happend : holder.answerAppend (.ofMillis 0) beat =
      .ok ({ follower with outbox := [.resetElectionTimer] }, .ok (.appendReply 1 true)) := rfl
  have h₁ : Reachable conditions (w₀.informed 7 call (.ok ())) :=
    h₀.tail ⟨1, .hear hcall rfl rfl⟩
  have h₂ : Run conditions (w₀.informed 7 call (.ok ())) _ :=
    .single ⟨1, .act hcompacted (.beat hbeat)⟩
  have h₃ := h₂.tail ⟨2, .act hholder (.answerAppend
    (List.mem_append_right _ (.head _)) rfl rfl happend)⟩
  exact ⟨_, _, h₁, h₃, hcompacted, hholder, rfl, rfl, rfl⟩

end Duo

end ReplicatedStore
