import ReplicatedStore.Proofs.RecordedRuns
import ReplicatedStore.Proofs.Sources
/-!
# Refused proposals

A proposal that its own section refuses leaves nothing behind: no log, in memory or on disk, ever
holds an entry of it (`refused_never_appended`). Any write may fail here. The invariant is that
every entry of a log, and every entry that is on its way, was made for a call that was accepted
(`World.Sourced`).

The error of a lost lead is the same as that of a refusal. A proposer that learns of a newer term
while it replicates reports it for an entry that it has appended (`lost_lead_reported_as_refusal`),
so that error says nothing by itself.
-/
namespace ReplicatedStore

/-! ## Calls -/

namespace ClientCall

/-- The call returns that its entry could not be written, or that its node does not lead without
having heard of any peer. -/
def Refused (call : ClientCall) : Prop :=
  (∃ e, call.proposal.result? = some (.error (.storage e))) ∨
    ∃ leader, call.proposal.result? = some (.error (.notLeader leader)) ∧
      call.proposal.tally.failures = 0

/-- A call that has an entry is told that its outcome is open, or that the lead was lost. -/
structure Candid (call : ClientCall) : Prop where
  barrier : ∀ e, call.proposal.barrier = some (.error e) → call.entry = none ∨ e.Open ∨
    0 < call.proposal.tally.failures ∧ ∃ leader, e = .notLeader leader
  answer : ∀ e, call.proposal.answer = some (.error e) → e.Open

variable {call : ClientCall}

theorem Candid.entry_eq_none (h : call.Candid) (hr : call.Refused) : call.entry = none := by
  have hresult : ∀ e, call.proposal.result? = some (.error e) →
      call.proposal.barrier = some (.error e) ∨ call.proposal.answer = some (.error e) := by
    intro e he
    unfold Proposal.result? at he
    split at he
    · cases he
    · next heq =>
      cases he
      exact .inl heq
    · exact .inr he
  rcases hr with ⟨e, he⟩ | ⟨leader, he, hnone⟩ <;> rcases hresult _ he with hb | ha
  · rcases h.barrier _ hb with hentry | (hopen | ⟨u, hopen⟩) | ⟨-, leader, heq⟩
    · exact hentry
    all_goals contradiction
  · rcases h.answer _ ha with hopen | ⟨u, hopen⟩ <;> cases hopen
  · rcases h.barrier _ hb with hentry | (hopen | ⟨u, hopen⟩) | ⟨hpos, -⟩
    · exact hentry
    · cases hopen
    · cases hopen
    · omega
  · rcases h.answer _ ha with hopen | ⟨u, hopen⟩ <;> cases hopen

theorem candid_opened (m : Member MemoryDisk) (command : Command)
    (result : Except ServiceError Nat) : (opened m command result).Candid := by
  cases result with
  | error e => exact ⟨fun _ _ => .inl rfl, nofun⟩
  | ok index =>
    refine ⟨fun e he => ?_, nofun⟩
    simp only [opened] at he
    split at he <;> cases he

theorem Candid.answered (h : call.Candid) {result : Except ServiceError Answer}
    (hr : ∀ e, result = .error e → e.Open) : (call.answered result).Candid := by
  refine ⟨h.barrier, fun e he => ?_⟩
  cases ha : call.proposal.answer with
  | some first =>
    refine h.answer e ?_
    simpa [ClientCall.answered, ha] using he
  | none =>
    refine hr e ?_
    simpa [ClientCall.answered, ha] using he

/-- What a waiting call hears of a peer is that the lead was lost, or leaves the outcome open. -/
theorem Candid.informed (h : call.Candid) (o : PeerOutcome) : (call.informed o).Candid := by
  refine ⟨fun e he => ?_, h.answer⟩
  right
  simp only [ClientCall.informed] at he ⊢
  unfold Tally.record at he ⊢
  split at he
  · simp only at he
    split at he <;> cases he
  · cases he
    exact .inr ⟨Nat.succ_pos _, _, rfl⟩
  · simp only at he
    split at he
    · cases he
      exact .inl (.inr ⟨_, rfl⟩)
    · cases he

end ClientCall

/-- The calls after a section, if those that it answers are answered candidly. -/
theorem World.candid_perform {calls : Nat → Option ClientCall}
    (h : ∀ ticket call, calls ticket = some call → call.Candid) {effects : List Effect}
    (he : ∀ effect ∈ effects, effect.Candid) :
    ∀ ticket call, effects.foldl World.perform calls ticket = some call → call.Candid := by
  induction effects generalizing calls with
  | nil => exact h
  | cons effect effects ih =>
    refine ih (fun k call hk => ?_) fun e he' => he e (List.mem_cons_of_mem _ he')
    cases effect with
    | settle ticket result =>
      by_cases hkt : k = ticket
      · subst hkt
        simp only [World.perform, Function.update_self] at hk
        obtain ⟨call₀, hcall₀, rfl⟩ := Option.map_eq_some_iff.1 hk
        exact (h k call₀ hcall₀).answered fun e heq => he _ List.mem_cons_self k e (heq ▸ rfl)
      · exact h k call ((Function.update_of_ne hkt ..).symm.trans hk)
    | _ => exact h k call hk

/-! ## Worlds -/

/-- The entries in the logs of a site, in memory and on disk. -/
def Site.logged : Site → List Entry
  | up m => m.replica.log ++ m.disk.contents.log
  | down d => d.contents.log

/-- The entry was made for a call that was accepted. -/
def World.Made (w : World) (e : Entry) : Prop :=
  ∃ ticket call, w.calls ticket = some call ∧ call.entry = some e

/-- Every entry was made for a call that was accepted, and calls are answered candidly. -/
structure World.Sourced (w : World) : Prop where
  up : ∀ v m, w.sites v = .up m → m.Sourced w.Made
  down : ∀ v d, w.sites v = .down d → ∀ e ∈ d.contents.log, w.Made e
  sent : ∀ r ∈ w.requests, ∀ q, r.body = .appendRequest q →
    Lined q.prevIndex q.entries ∧ ∀ e ∈ q.entries, w.Made e
  calls : ∀ ticket call, w.calls ticket = some call → call.Candid

namespace World

variable {c : Conditions} {w w' : World} {v : NodeId}

theorem Made.kept {e : Entry} (h : w.Made e) (hk : Kept w.calls w'.calls) : w'.Made e := by
  obtain ⟨ticket, call, hcall, he⟩ := h
  obtain ⟨call', hcall', hl⟩ := hk ticket call hcall
  exact ⟨ticket, call', hcall', hl.entry.trans he⟩

namespace Sourced

theorem initial (c : Conditions) : (World.initial c).Sourced where
  up _ _ h := nomatch h
  down v d h e he := by
    cases h
    cases he
  sent _ h := nomatch h
  calls _ _ h := nomatch h

theorem logged (h : w.Sourced) {e : Entry} (he : e ∈ (w.sites v).logged) : w.Made e := by
  cases hs : w.sites v with
  | up m =>
    rw [hs] at he
    exact (List.mem_append.1 he).elim ((h.up v m hs).replica.all e) ((h.up v m hs).disk e)
  | down d =>
    rw [hs] at he
    exact h.down v d hs e he

/-- What a section has to show. -/
theorem after (h : w.Sourced) {d : Deed} (hk : Kept w.calls (w.after v d).calls)
    (hm : d.member.Sourced (w.after v d).Made)
    (hsent : ∀ r ∈ d.requests, ∀ q, r.body = .appendRequest q →
      Lined q.prevIndex q.entries ∧ ∀ e ∈ q.entries, (w.after v d).Made e)
    (hcall : ∀ ticket call, d.call = some (ticket, call) → call.Candid) :
    (w.after v d).Sourced where
  up u m up := by
    obtain ⟨rfl, rfl⟩ | ⟨-, up⟩ := up_after up
    · exact ⟨hm.replica, hm.disk, nofun⟩
    · exact (h.up u m up).mono fun e he => he.kept hk
  down u d' down e he := (h.down u d' (down_after down).2 e he).kept hk
  sent r hr q hq := by
    rcases List.mem_append.1 hr with hr | hr
    · exact (h.sent r hr q hq).imp_right fun hall e he => (hall e he).kept hk
    · exact hsent r hr q hq
  calls := by
    refine candid_perform (fun k call hk => ?_) hm.outbox
    cases hc : d.call with
    | none =>
      rw [hc] at hk
      exact h.calls k call hk
    | some made =>
      obtain ⟨ticket, call'⟩ := made
      rw [hc] at hk
      simp only [withCall] at hk
      by_cases hkt : k = ticket
      · subst hkt
        rw [Function.update_self] at hk
        exact hcall k call (Option.some.inj hk ▸ hc)
      · exact h.calls k call ((Function.update_of_ne hkt ..).symm.trans hk)

/-- A section that makes no call. -/
theorem sends (h : w.Sourced) {d : Deed} (hk : Kept w.calls (w.after v d).calls)
    (hm : d.member.Sourced (w.after v d).Made) (hcall : d.call = none)
    (hsent : ∀ r ∈ d.requests, ∀ q, r.body = .appendRequest q →
      Lined q.prevIndex q.entries ∧ ∀ e ∈ q.entries, (w.after v d).Made e) :
    (w.after v d).Sourced :=
  h.after hk hm hsent fun ticket call hc => by rw [hcall] at hc; cases hc

/-- A section that makes no call and sends nothing. -/
theorem quiet (h : w.Sourced) {d : Deed} (hk : Kept w.calls (w.after v d).calls)
    (hm : d.member.Sourced (w.after v d).Made) (hcall : d.call = none) (hsent : d.requests = []) :
    (w.after v d).Sourced :=
  h.sends hk hm hcall fun r hr => by rw [hsent] at hr; cases hr

theorem resting (h : w.Sourced) {d : MemoryDisk} (hd : ∀ e ∈ d.contents.log, w.Made e) :
    (w.resting v d).Sourced where
  up u m up := h.up u m (up_resting up).2
  down u d' down := by
    obtain ⟨rfl, rfl⟩ | ⟨-, down⟩ := down_resting down
    · exact hd
    · exact h.down u d' down
  sent := h.sent
  calls := h.calls

theorem act (h : w.Sourced) {m : Member MemoryDisk} (up : w.sites v = .up m) {d : Deed}
    (act : Act c w v m d) : (w.after v d).Sourced := by
  have hk : Kept w.calls (w.after v d).calls := act.kept.trans (.performAll _ _)
  have hm := (h.up v m up).mono (T := (w.after v d).Made) fun e he => he.kept hk
  cases act with
  | shutDown => exact h.quiet hk hm.shutDown rfl rfl
  | @timeout m' q run =>
    refine h.sends hk (hm.campaign run) rfl fun r hr q' hq => ?_
    cases q with
    | none => cases hr
    | some q₀ =>
      obtain ⟨p, -, rfl⟩ := List.mem_map.1 hr
      cases hq
  | answerVote _ _ _ run => exact h.quiet hk (hm.answerVote run) rfl rfl
  | answerAppend sent _ body run =>
    obtain ⟨hl, hS⟩ := h.sent _ sent _ body
    exact h.quiet hk (hm.answerAppend hl (fun e he => (hS e he).kept hk) run) rfl rfl
  | answerInstall _ _ _ run => exact h.quiet hk (hm.answerInstall run) rfl rfl
  | countVote _ _ _ run => exact h.quiet hk (hm.countVote run) rfl rfl
  | recordReply _ _ _ run => exact h.quiet hk (hm.recordReply run) rfl rfl
  | recordBeat _ _ _ run => exact h.quiet hk (hm.recordBeat run) rfl rfl
  | @propose command ticket now m' result admitted fresh run =>
    refine h.after hk (hm.propose (fun index heq => ?_) run) (fun r hr => by cases hr)
      fun k call hc => ?_
    · obtain ⟨call', hcall', hl⟩ := Kept.performAll (withCall w.calls
        (some (ticket, ClientCall.opened m command result))) m'.outbox ticket _
          (Function.update_self ..)
      exact ⟨ticket, call', hcall', hl.entry.trans (heq ▸ rfl)⟩
    · cases hc
      exact ClientCall.candid_opened ..
  | fetch known run =>
    refine h.sends hk hm rfl fun r hr q hq => ?_
    obtain rfl := List.mem_singleton.1 hr
    rcases Member.nextRequest_cases run with ⟨q', rfl, hq'⟩ | ⟨i, q', rfl, -⟩
    · cases hq
      exact hm.replica.appendRequest hq'
    · cases hq
  | beat run =>
    obtain ⟨rfl, rfl⟩ := Prod.mk.inj run
    refine h.sends hk (hm.begins (Member.begins_heartbeats _)) rfl fun r hr q hq => ?_
    obtain ⟨b, hb, rfl⟩ := List.mem_map.1 hr
    cases hq
    rw [Replica.Sourced.heartbeat (Member.of_mem_heartbeats hb).2]
    exact ⟨.nil _, nofun⟩
  | caughtUp => exact h.quiet hk (hm.congr rfl rfl rfl) rfl rfl
  | @giveUp index => exact h.quiet hk (hm.dropWaiter index) rfl rfl
  | compact run => exact h.quiet hk (hm.takeImage run) rfl rfl

/-- **One step.** -/
theorem step (h : w.Sourced) (hstep : Step c v w w') : w'.Sourced := by
  have hk := hstep.kept
  cases hstep with
  | act up act => exact h.act up act
  | start down member run =>
    have hd := h.down v _ down
    exact h.quiet hk ((Member.Sourced.start fun e he => (hd e he).kept hk).1 _ run) rfl rfl
  | failToStart down member run =>
    exact h.resting ((Member.Sourced.start (h.down v _ down)).2 _ _ run)
  | stop up => exact h.resting (h.up v _ up).disk
  | @hear ticket call o made node waiting =>
    refine ⟨fun u m up => (h.up u m up).mono fun e he => he.kept hk,
      fun u d down e he => (h.down u d down e he).kept hk,
      fun r hr q hq => (h.sent r hr q hq).imp_right fun hall e he => (hall e he).kept hk,
      fun k call' hcall' => ?_⟩
    by_cases hkt : k = ticket
    · subst hkt
      simp only [informed, Function.update_self, Option.some.injEq] at hcall'
      exact hcall' ▸ (h.calls k call made).informed o
    · exact h.calls k call' ((Function.update_of_ne hkt ..).symm.trans hcall')

theorem run (h : w.Sourced) (hrun : Run c w w') : w'.Sourced := by
  induction hrun with
  | refl => exact h
  | tail _ hstep ih =>
    obtain ⟨v, hstep⟩ := hstep
    exact ih.step hstep

end Sourced

end World

/-- **A refused proposal was never appended.** Any write may fail. When a call returns that its
entry could not be written, or that its node does not lead and it heard of no peer, then it has no
entry, and all that any log holds from then on, in memory or on disk, was made for other calls. -/
theorem refused_never_appended {c : Conditions} {w w' : World} (h : Reachable c w)
    (h' : Run c w w') {ticket : Nat} {call : ClientCall} (hcall : w.calls ticket = some call)
    (hrefused : call.Refused) :
    (∃ call', w'.calls ticket = some call' ∧ call'.entry = none) ∧
      ∀ v, ∀ e ∈ (w'.sites v).logged, ∃ ticket' call', ticket' ≠ ticket ∧
        w'.calls ticket' = some call' ∧ call'.entry = some e := by
  have hs := (World.Sourced.initial c).run h
  have hnone := (hs.calls ticket call hcall).entry_eq_none hrefused
  obtain ⟨call', hcall', hl⟩ := h'.kept ticket call hcall
  refine ⟨⟨call', hcall', hl.entry.trans hnone⟩, fun v e he => ?_⟩
  obtain ⟨ticket', call'', hcall'', hentry⟩ := (hs.run h').logged he
  refine ⟨ticket', call'', ?_, hcall'', hentry⟩
  rintro rfl
  cases hcall''.symm.trans hcall'
  cases hentry.symm.trans (hl.entry.trans hnone)

/-! ## A call at the wrong node, and one at a leader that loses its lead -/

namespace Duo

/-- Node 2 standing for term 2 with the entry of node 1. -/
def rival : Member MemoryDisk :=
  member { holder.replica with
      role := .candidate, term := 2, vote := some 2, leader := none, votes := [2] }
    { ballot := ⟨2, some 2⟩, log := [entry] } 4

/-- Node 1 when it has heard of term 2. -/
def deposed : Member MemoryDisk :=
  member { leading 0 with
      role := .follower, term := 2, vote := none, leader := none, log := [entry], next := .empty,
      matched := .empty }
    { ballot := ⟨2, none⟩, log := [entry] } 4

end Duo

/-- Node 2 refuses the command that node 1 then takes. -/
theorem refused_never_appended_duo : ∃ w w' call, Reachable Duo.conditions w ∧
    Run Duo.conditions w w' ∧ w.calls 5 = some call ∧ call.Refused ∧
    Duo.entry ∈ (w'.sites 1).logged ∧
    (∃ call', w'.calls 5 = some call' ∧ call'.entry = none) ∧
    ∀ v, ∀ e ∈ (w'.sites v).logged, ∃ ticket' call', ticket' ≠ 5 ∧
      w'.calls ticket' = some call' ∧ call'.entry = some e := by
  obtain ⟨w₀, h₀, hleader, hvoter, -, hcalls⟩ := Duo.exists_elected
  have hrefuse : Duo.voter.propose (.ofMillis 0) Duo.entry.command 5 =
      .ok (Duo.voter, .error (.notLeader none)) := rfl
  have hpropose : Duo.leader.propose (.ofMillis 0) Duo.entry.command 7 =
      .ok (Duo.proposer, .ok 1) := by cbv
  have h₁ := h₀.tail ⟨2, .act hvoter (.propose (fun _ => rfl) (congrFun hcalls 5) hrefuse)⟩
  have h₂ : Run Duo.conditions (w₀.after 2 ⟨Duo.voter, [], [], some (5,
      .opened Duo.voter Duo.entry.command (.error (.notLeader none)))⟩) _ :=
    .single ⟨1, .act hleader
      (.propose (fun _ => rfl) (by simp only [World.after, hcalls]; rfl) hpropose)⟩
  refine ⟨_, _, _, h₁, h₂, rfl, ?_, ?_, refused_never_appended h₁ h₂ rfl ?_⟩
  · exact .inr ⟨none, rfl, rfl⟩
  · exact .head _
  · exact .inr ⟨none, rfl, rfl⟩

/-- **A lost lead is reported as a refusal.** Node 1 appends an entry, and node 2 takes it. Then
node 1 hears of a newer term, its work for node 2 ends with the error of a node that does not lead,
and so does the call, although the entry is in both logs. -/
theorem lost_lead_reported_as_refusal : ∃ w m call, Reachable Duo.conditions w ∧
    w.sites 1 = .up m ∧ m.nextRequest 2 1 = .ok (.error (.notLeader none)) ∧
    w.calls 7 = some call ∧ call.entry = some Duo.entry ∧
    call.proposal.result? = some (.error (.notLeader none)) ∧
    Duo.entry ∈ m.replica.log ∧ Duo.entry ∈ m.disk.contents.log ∧
    Duo.entry ∈ (w.sites 2).logged := by
  obtain ⟨w₀, h₀, hleader, hvoter, -, hcalls⟩ := Duo.exists_elected
  have hpropose : Duo.leader.propose (.ofMillis 0) Duo.entry.command 7 =
      .ok (Duo.proposer, .ok 1) := by cbv
  have hfetch : Duo.proposer.nextRequest 2 1 = .ok (.ok (some (.appendRequest Duo.append))) := rfl
  have happend : Duo.voter.answerAppend (.ofMillis 0) Duo.append =
      .ok ({ Duo.holder with outbox := [.resetElectionTimer] }, .ok (.appendReply 1 true)) := rfl
  have hstand : Duo.holder.campaign = .ok (Duo.rival, some ⟨2, 2, 1, 1⟩) := rfl
  have hrefuse : Duo.rival.answerAppend (.ofMillis 0) Duo.append =
      .ok (Duo.rival, .ok (.appendReply 2 false)) := rfl
  have hrecord : Duo.proposer.recordReply (.ofMillis 0) 2 1 (.appendReply 2 false) =
      .ok ({ Duo.deposed with
        outbox := [.stopHeartbeat, .settle 7 (.error (.unsettled (.leadershipLost none)))] },
        false) := by cbv
  have h₁ := h₀.tail ⟨1, .act hleader (.propose (fun _ => rfl) (congrFun hcalls 7) hpropose)⟩
  have h₂ := h₁.tail ⟨1, .act rfl (.fetch (.head _) hfetch)⟩
  have h₃ := h₂.tail ⟨2, .act hvoter (.answerAppend
    (List.mem_append_right _ (.head _)) rfl rfl happend)⟩
  have h₄ := h₃.tail ⟨2, .act rfl (.timeout hstand)⟩
  have h₅ := h₄.tail ⟨2, .act rfl (.answerAppend
    (List.mem_append_left _ (List.mem_append_left _ (List.mem_append_right _ (.head _))))
    rfl rfl hrefuse)⟩
  have h₆ := h₅.tail ⟨1, .act rfl (.recordReply
    (List.mem_append_right _ (.head _)) rfl rfl hrecord)⟩
  have h₇ := h₆.tail ⟨1, @Step.hear Duo.conditions 1 _ 7 _ (.error (.notLeader none)) rfl rfl rfl⟩
  exact ⟨_, Duo.deposed, _, h₇, rfl, rfl, rfl, rfl, rfl, .head _, .head _, .head _⟩

end ReplicatedStore
