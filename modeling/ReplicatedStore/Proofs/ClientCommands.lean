import ReplicatedStore.Proofs.HaleMembers
import ReplicatedStore.Proofs.Refusals
import ReplicatedStore.Proofs.StoredImages
/-!
# Commands of clients

What clients propose is appended, written and replicated as it is; whether it can be executed shows
when it is committed. If every put that they propose carries a value, and no write fails, then no
node halts and every node can be started again (`valued_commands_never_halt`). A put without a value
is accepted all the same. It halts every node that comes to execute it, and from then on the node
cannot be started (`valueless_put_halts`).
-/
namespace ReplicatedStore

open History

variable {c : Conditions} {w w' : World} {v : NodeId}

namespace World

/-! ## Whose commands are held -/

/-- An entry that was made for a call has a command that clients may propose. -/
def Admitted (w : World) (c : Conditions) : Prop := ∀ e, w.Made e → c.admits e.command

/-- Effects make no entries. -/
theorem entry_of_perform (effects : List Effect) {calls : Nat → Option ClientCall} {ticket : Nat}
    {call : ClientCall} (h : effects.foldl perform calls ticket = some call) :
    ∃ call₀, calls ticket = some call₀ ∧ call₀.entry = call.entry := by
  induction effects generalizing calls with
  | nil => exact ⟨call, h, rfl⟩
  | cons effect effects ih =>
    obtain ⟨call₁, hcall₁, he₁⟩ := ih h
    cases effect with
    | settle ticket' result =>
      by_cases hk : ticket = ticket'
      · subst hk
        simp only [perform, Function.update_self] at hcall₁
        obtain ⟨call₀, hcall₀, rfl⟩ := Option.map_eq_some_iff.1 hcall₁
        exact ⟨call₀, hcall₀, he₁⟩
      · exact ⟨call₁, (Function.update_of_ne hk ..).symm.trans hcall₁, he₁⟩
    | _ => exact ⟨call₁, hcall₁, he₁⟩

/-- What a section has to show. -/
theorem Admitted.after (h : w.Admitted c) {d : Deed}
    (hcall : ∀ ticket call, d.call = some (ticket, call) →
      ∀ e, call.entry = some e → c.admits e.command) : (w.after v d).Admitted c := by
  rintro e ⟨ticket, call, hmade, he⟩
  obtain ⟨call₀, hmade, he₀⟩ := entry_of_perform _ hmade
  rw [← he₀] at he
  cases hd : d.call with
  | none =>
    rw [hd] at hmade
    exact h e ⟨ticket, call₀, hmade, he⟩
  | some made =>
    obtain ⟨ticket', call'⟩ := made
    rw [hd] at hmade
    simp only [withCall] at hmade
    by_cases hk : ticket = ticket'
    · subst hk
      rw [Function.update_self] at hmade
      obtain rfl := Option.some.inj hmade
      exact hcall ticket call' hd e he
    · exact h e ⟨ticket, call₀, (Function.update_of_ne hk ..).symm.trans hmade, he⟩

theorem Admitted.act (h : w.Admitted c) {m : Member MemoryDisk} {d : Deed} (act : Act c w v m d) :
    (w.after v d).Admitted c := by
  refine h.after fun ticket call hd e he => ?_
  cases act with
  | @propose command _ _ _ result admitted _ _ =>
    cases hd
    cases result with
    | error _ => cases he
    | ok index =>
      cases he
      exact admitted
  | _ => cases hd

theorem Admitted.haltingStep (h : w.Admitted c) (hstep : HaltingStep c v w w') :
    w'.Admitted c := by
  cases hstep with
  | act _ _ act _ => exact h.act act
  | shutDown _ _ => exact h.after fun _ _ hd => by cases hd
  | start _ _ _ => exact h.after fun _ _ hd => by cases hd
  | failToStart _ _ _ => exact h
  | stop _ => exact h
  | @hear ticket call o made _ _ =>
    rintro e ⟨ticket', call', hmade, he⟩
    by_cases hk : ticket' = ticket
    · subst hk
      simp only [informed, Function.update_self, Option.some.injEq] at hmade
      subst hmade
      exact h e ⟨ticket', call, made, he⟩
    · exact h e ⟨ticket', call', (Function.update_of_ne hk ..).symm.trans hmade, he⟩

theorem Sourced.haltingStep (h : w.Sourced) (hstep : HaltingStep c v w w') : w'.Sourced := by
  cases hstep with
  | act up _ act _ => exact h.act up act
  | @shutDown m up _ =>
    have hk : Kept w.calls (w.after v { member := { m.shutDown with stopped := false } }).calls :=
      .performAll _ _
    have hm := (h.up v m up).mono fun e he => he.kept hk
    exact h.quiet hk (hm.shutDown.congr rfl rfl rfl) rfl rfl
  | start down member run => exact h.step (.start down member run)
  | failToStart down member run => exact h.step (.failToStart down member run)
  | stop up => exact h.step (c := c) (.stop up)
  | hear made node waiting => exact h.step (c := c) (.hear made node waiting)

end World

/-- **Every entry** was made for a call, and clients may propose its command. -/
theorem HaltingReachable.sourced (h : HaltingReachable c w) : w.Sourced ∧ w.Admitted c := by
  induction h with
  | refl => exact ⟨.initial c, fun _ ⟨_, _, hmade, _⟩ => nomatch hmade⟩
  | tail _ hstep ih =>
    obtain ⟨v, hstep⟩ := hstep
    exact ⟨ih.1.haltingStep hstep, ih.2.haltingStep hstep⟩

namespace World.Applies

variable {m : Member MemoryDisk}

/-- The log is of commands that clients may propose, also in the middle of a section. -/
theorem admitted (h : w.Applies c v m) (hw : HaltingReachable c w) :
    ∀ e ∈ m.replica.log, c.admits e.command := by
  obtain ⟨hs, hadmitted⟩ := hw.sourced
  have hup : ∀ {m}, w.sites v = .up m → m.Sourced fun e => c.admits e.command :=
    fun up => (hs.up v _ up).mono hadmitted
  cases h with
  | starting down member valid read =>
    exact (Member.Sourced.load (fun e he => hadmitted e (hs.down v _ down e he)) read).replica.all
  | @following m₀ _ _ _ o _ up running sent here body taken written advanced =>
    obtain ⟨hl, hmade⟩ := hs.sent _ sent _ body
    have h₁ := (hup up).replica.takeEntries hl (fun e he => hadmitted e (hmade e he)) taken
    exact ((((hup up).withReplica h₁).noteLeader o.resetTimer).persistEntries written).replica.all
  | @proposing m₀ command _ r e m₁ r' up running admitted proposed written counted =>
    rcases Replica.propose_cases proposed with ⟨-, hnone⟩ | ⟨-, -, hsome⟩
    · cases hnone
    · cases hsome
      obtain ⟨h₁, -⟩ := (hup up).write
        (fun e he => by rw [List.mem_singleton.1 he]; exact admitted) written
      have h₂ := (h₁.withReplica ((hup up).replica.concat (e := ⟨m₀.replica.term, _, command⟩)
        rfl admitted)).dropWaiter (m₀.replica.lastIndex + 1)
      exact (h₂.replica.advanceCommit counted).all
  | recording up running replied here covered answer recorded written =>
    exact (((hup up).withReplica ((hup up).replica.recordAppend recorded)).saveBallot
      written).replica.all

end World.Applies

/-! ## Disks that take all writes -/

namespace World

/-- Every disk takes all writes. -/
def Writes (w : World) : Prop := ∀ v n b, (w.sites v).disk.fails n b = false

namespace Writes

theorem up (h : w.Writes) {m : Member MemoryDisk} (up : w.sites v = .up m) (n : Nat)
    (b : DiskWrite) : m.disk.fails n b = false := by
  rw [← h v n b, up, Site.disk_up]

theorem down (h : w.Writes) {d : MemoryDisk} (down : w.sites v = .down d) (n : Nat)
    (b : DiskWrite) : d.fails n b = false := by
  rw [← h v n b, down, Site.disk_down]

theorem hale (h : w.Writes) {m : Member MemoryDisk} (up : w.sites v = .up m)
    (running : m.stopped = false) : m.Hale := ⟨running, h.up up⟩

theorem after (h : w.Writes) {d : Deed} (hd : ∀ n b, d.member.disk.fails n b = false) :
    (w.after v d).Writes := by
  intro u n b
  by_cases hu : u = v
  · subst hu
    rw [sites_after_self]
    exact hd n b
  · rw [sites_after_of_ne _ _ hu]
    exact h u n b

theorem resting (h : w.Writes) {d : MemoryDisk} (hd : ∀ n b, d.fails n b = false) :
    (w.resting v d).Writes := by
  intro u n b
  by_cases hu : u = v
  · subst hu
    rw [sites_resting_self]
    exact hd n b
  · rw [sites_resting_of_ne _ _ hu]
    exact h u n b

end Writes

end World

/-- What a start writes, whether it succeeds or not. -/
theorem HaltingReachable.writes_start (hw : HaltingReachable c w) (hwrites : w.Writes)
    {d : MemoryDisk} (down : w.sites v = .down d) {s : MemberSettings} {m m' : Member MemoryDisk}
    {now : Instant} {e : Option ServiceError} (hload : (Member.blank s d).load = .ok (.ok m))
    (happ : m.applyCommitted now = .ok (m', e)) (n : Nat) (b : DiskWrite) :
    m'.disk.fails n b = false := by
  obtain ⟨P, H, he⟩ := hw.endures
  obtain ⟨f, hstores⟩ := he.down v d down
  obtain ⟨hmirrors, -, -, rfl, -⟩ := Member.load_yields hstores.yields hstores.readable hload
  rw [(hmirrors.applyCommitted happ).1.spares.fails]
  exact hwrites.down down n b

namespace World.Applies

variable {m : Member MemoryDisk}

/-- Whoever comes to execute entries is hale. -/
theorem hale (h : w.Applies c v m) (hw : HaltingReachable c w) (hwrites : w.Writes) : m.Hale := by
  cases h with
  | @starting d _ _ _ down member valid read =>
    obtain ⟨P, H, he⟩ := hw.endures
    obtain ⟨f, hstores⟩ := he.down v d down
    obtain ⟨-, -, -, rfl, -, hrunning⟩ := Member.load_yields hstores.yields hstores.readable read
    exact ⟨hrunning, hwrites.down down⟩
  | following up running sent here body taken written advanced =>
    exact ((((hwrites.hale up running).withReplica _).of_gist
      (Member.gist_noteLeader _ _)).of_writes (Member.writes_persistEntries written)).2
  | proposing up running admitted proposed written counted =>
    exact ((((hwrites.hale up running).of_writes (Member.writes_write written)).2.withReplica
      _).of_gist (Member.gist_await _ _ _)).withReplica _
  | recording up running replied here covered answer recorded written =>
    exact (((hwrites.hale up running).withReplica _).of_writes
      (Member.writes_saveBallot written)).2

end World.Applies

/-- A hale member executes what it can execute. -/
theorem Member.Ready.goes {m : Member MemoryDisk} {x : History} (h : m.Ready x) (hale : m.Hale)
    (hlog : ∀ e ∈ m.replica.log, e.command.Valued) : m.Goes := by
  intro now
  -- what is applied next is still in the log
  have hvalued : ∀ e ∈ (x.drop m.replica.lastApplied).take
      (m.replica.commitIndex - m.replica.lastApplied), e.command.Valued := by
    intro e he
    refine hlog e ?_
    rw [h.spans.log]
    exact (List.drop_subset_drop_left x h.applied) (List.mem_of_mem_take he)
  obtain ⟨m', happ⟩ := h.toMirrors.exists_applyCommitted hale.writes hvalued now
  have hspares := (h.toMirrors.applyCommitted happ).1.spares
  exact ⟨m', happ, hspares.stopped.trans hale.running, by rw [hspares.fails]; exact hale.writes⟩

theorem World.Applies.goes {m : Member MemoryDisk} (h : w.Applies c v m)
    (hw : HaltingReachable c w) (hc : c.Valued) (hwrites : w.Writes) : m.Goes := by
  obtain ⟨P, H, he⟩ := hw.endures
  obtain ⟨x, hready⟩ := he.ready_applies h
  exact hready.goes (h.hale hw hwrites) fun e he => hc _ (h.admitted hw e he)

/-! ## Runs -/

/-- **Disks go on taking all writes.** -/
theorem HaltingReachable.writes (h : HaltingReachable c w) (hrel : c.Reliable) (hc : c.Valued) :
    w.Writes := by
  induction h with
  | refl => exact hrel
  | tail hrun hstep ih =>
    obtain ⟨v, hstep⟩ := hstep
    cases hstep with
    | @act m d up running act whole =>
      have hale := ih.hale up running
      refine ih.after ?_
      rcases act.hale up hale fun m₀ ha => ha.goes hrun hc ih with h | h
      · exact h.writes
      · rw [h, (Member.quiet_shutDown m).disk]
        exact hale.writes
    | @shutDown m up running =>
      refine ih.after fun n b => ?_
      simp only
      rw [(Member.quiet_shutDown m).disk]
      exact ih.up up n b
    | start down member run =>
      obtain ⟨-, m₀, m₁, hload, happ, rfl⟩ := Member.start_cases run
      exact ih.after fun n b => HaltingReachable.writes_start hrun ih down hload happ n b
    | failToStart down member run =>
      refine ih.resting fun n b => ?_
      obtain rfl | ⟨m₀, m₁, e', hload, happ, rfl⟩ := Member.start_cases_error run
      · exact ih.down down n b
      · exact HaltingReachable.writes_start hrun ih down hload happ n b
    | stop up => exact ih.resting (ih.up up)
    | hear made node waiting => exact ih

/-- **No client halts a node.** Take any run from empty disks in which no write fails and every put
that clients propose carries a value. Wherever a node comes to execute what is committed, that
succeeds. No section stops a node but a shutdown on request. And whenever a node is stopped between
sections, it can be started again from its disk. -/
theorem valued_commands_never_halt (h : HaltingReachable c w) (hrel : c.Reliable) (hc : c.Valued)
    (v : NodeId) :
    (∀ m, w.Applies c v m → ∀ now, ∃ m', m.applyCommitted now = .ok (m', none)) ∧
    (∀ m, w.sites v = .up m → m.stopped = false → ∀ d, Act c w v m d →
      d.member.stopped = false ∨ d.member = m.shutDown) ∧
    ∀ s : MemberSettings, s.validate = .ok () → ∀ now,
      ∃ m, Member.start s (w.sites v).disk now = .ok (.ok m) := by
  have hwrites := h.writes hrel hc
  refine ⟨fun m happlies now => ?_, fun m up running d act => ?_, fun s hs now => ?_⟩
  · obtain ⟨m', happ, -⟩ := happlies.goes h hc hwrites now
    exact ⟨m', happ⟩
  · exact (act.hale up (hwrites.hale up running) fun m₀ ha => ha.goes h hc hwrites).imp_left
      (·.running)
  · obtain ⟨P, H, he⟩ := h.endures
    obtain ⟨f, hstores, -⟩ := he.exists_stores v
    obtain ⟨hsourced, hadmitted⟩ := h.sourced
    have hlength : f.length ≤ maxWord := by
      rw [hstores.grafted.length_eq]
      exact he.length_le (he.sound.upright v).rooted
    refine Member.exists_start hstores.yields hstores.readable (hwrites v) hs hlength
      (fun e hmem => ?_) now
    obtain ⟨stale, -, hlog⟩ := hstores.yields.log
    have hdisk : e ∈ (w.sites v).disk.contents.log := by
      rw [hlog]
      rw [List.drop_take] at hmem
      exact List.mem_append_right _ (List.mem_of_mem_take hmem)
    refine hc _ (hadmitted e (hsourced.logged (v := v) ?_))
    cases hsite : w.sites v with
    | up m =>
      rw [hsite] at hdisk
      exact List.mem_append_right _ hdisk
    | down d =>
      rw [hsite] at hdisk
      exact hdisk

/-! ## A node of its own

It leads term 1, and a client proposes a command. The disk takes all writes. -/

namespace Lone

def conditions (admits : Command → Prop) : Conditions where
  members := [1]
  distinct := Solo.conditions.distinct
  admits := admits
  fails _ _ _ := false

theorem reliable (admits : Command → Prop) : (conditions admits).Reliable := fun _ _ _ => rfl

def started : Member MemoryDisk := Duo.member (.create 1 [1] {}) {} 1

def leading : Replica := { Solo.voting with role := .leader, leader := some 1 }

def leader : Member MemoryDisk := Duo.member leading { ballot := ⟨1, some 1⟩ } 2

theorem exists_leader (admits : Command → Prop) : ∃ w, HaltingReachable (conditions admits) w ∧
    w.sites 1 = .up leader ∧ w.calls 7 = none := by
  have hstart : Member.start ⟨1, [], {}⟩ {} (.ofMillis 0) = .ok (.ok started) := rfl
  have hlead : started.campaign = .ok ({ leader with outbox := [.startHeartbeat] }, none) := rfl
  have h₁ : HaltingReachable (conditions admits) _ := .single ⟨1, .start rfl (.refl _) hstart⟩
  have h₂ := h₁.act 1 rfl rfl (.timeout hlead) fun _ => ⟨_, rfl⟩
  exact ⟨_, h₂, rfl, rfl⟩

def entry (command : Command) : Entry := ⟨1, 1, command⟩

/-- The node when it has written an entry for a command. -/
def written (command : Command) : Member MemoryDisk :=
  Duo.member leading { ballot := ⟨1, some 1⟩, log := [entry command] } 3

/-- The node when it counts the entry as committed. -/
def committing (command : Command) : Member MemoryDisk :=
  { written command with
    replica := { leading with log := [entry command], commitIndex := 1 }
    pending := .ofList [(1, ⟨1, 7⟩)] }

theorem applies {admits : Command → Prop} {command : Command} (h : admits command) {w : World}
    (up : w.sites 1 = .up leader) : w.Applies (conditions admits) 1 (committing command) := by
  have hwrite : leader.write (.append [entry command]) = (written command, none) := rfl
  have hcount : (Member.await { written command with
      replica := { leading with log := [entry command] } } 1 ⟨1, 7⟩).replica.advanceCommit =
      .ok ({ leading with log := [entry command], commitIndex := 1 }, true) := by
    with_unfolding_all rfl
  exact .proposing up rfl h rfl hwrite hcount

/-- The node when nobody waits any more for the entry. -/
def counting (command : Command) : Member MemoryDisk :=
  { written command with
    replica := { leading with log := [entry command], commitIndex := 1, lastApplied := 1 }
    disk := {
      contents := { ballot := ⟨1, some 1⟩, log := [entry command], commit := 1 }
      tried := 4 } }

/-- The node when it has executed a command. -/
def executed : Member MemoryDisk :=
  { counting Solo.entry.command with
    machine := .ofList [("k", "v")]
    outbox := [.settle 7 (.ok .done)] }

/-- A put without a value. -/
def poison : Command := ⟨.put, "k", none⟩

def refusal : ConsensusError := .corruptEntry 1 "PUT k carries no value"

/-- The node when it could not execute the put. -/
def stuck : Member MemoryDisk :=
  { counting poison with outbox := [.settle 7 (.error (.unsettled (.other refusal.message)))] }

/-- And when it has halted. It still takes itself for the leader. -/
def halted : Member MemoryDisk :=
  { stuck with
    stopped := true
    published := stuck.replica.status
    outbox := stuck.outbox ++ [.stopHeartbeat, .startHeartbeat] }

theorem halts : leader.propose (.ofMillis 0) poison 7 = .ok (halted, .ok 1) := by
  with_unfolding_all rfl

/-- A start reads the put back, and fails as well. -/
theorem stays_down (now : Instant) : Member.start ⟨1, [], {}⟩ halted.disk now =
    .ok (.error (.consensus refusal, { halted.disk with tried := 5 })) := by
  with_unfolding_all rfl

end Lone

/-- The node of `Lone` executes a command, and can be started again. -/
theorem valued_commands_never_halt_lone : ∃ w m,
    HaltingReachable (Lone.conditions Command.Valued) w ∧ w.sites 1 = .up Lone.leader ∧
    (Lone.committing Solo.entry.command).applyCommitted (.ofMillis 0) =
      .ok (Lone.executed, none) ∧
    Member.start ⟨1, [], {}⟩ Lone.leader.disk (.ofMillis 0) = .ok (.ok m) := by
  obtain ⟨w, h, up, -⟩ := Lone.exists_leader Command.Valued
  obtain ⟨happlies, -, hstart⟩ := valued_commands_never_halt h (Lone.reliable _) (fun _ => id) 1
  obtain ⟨m, run⟩ := happlies (Lone.committing Solo.entry.command)
    (Lone.applies (fun _ => rfl) up) (.ofMillis 0)
  have hm : (Lone.committing Solo.entry.command).applyCommitted (.ofMillis 0) =
      .ok (Lone.executed, none) := by with_unfolding_all rfl
  obtain rfl : m = Lone.executed := congrArg Prod.fst (Except.ok.inj (run.symm.trans hm))
  obtain ⟨m', hm'⟩ := hstart ⟨1, [], {}⟩ rfl (.ofMillis 0)
  rw [up] at hm'
  exact ⟨w, m', h, up, run, hm'⟩

/-- **A put without a value halts the node.** Nothing is wrong with the disk of the node of `Lone`,
but a client proposes a put without a value. The node accepts it, writes it, counts it as committed
and halts, for it cannot execute it. Nor can it be started from then on. -/
theorem valueless_put_halts : ∃ w d, HaltingReachable (Lone.conditions fun _ => True) w ∧
    (Lone.conditions fun _ => True).Reliable ∧ w.sites 1 = .up Lone.leader ∧
    Lone.leader.stopped = false ∧
    w.Applies (Lone.conditions fun _ => True) 1 (Lone.committing Lone.poison) ∧
    (∀ now, (Lone.committing Lone.poison).applyCommitted now =
      .ok (Lone.stuck, some (.consensus Lone.refusal))) ∧
    Act (Lone.conditions fun _ => True) w 1 Lone.leader d ∧ d.member.stopped = true ∧
    d.member ≠ Lone.leader.shutDown ∧
    ∀ now, ∃ d', Member.start ⟨1, [], {}⟩ d.member.disk now =
      .ok (.error (.consensus Lone.refusal, d')) := by
  obtain ⟨w, h, up, fresh⟩ := Lone.exists_leader fun _ => True
  refine ⟨w, _, h, Lone.reliable _, up, rfl, Lone.applies trivial up, fun now => ?_,
    .propose trivial fresh Lone.halts, rfl, fun heq => ?_, fun now => ⟨_, Lone.stays_down now⟩⟩
  · with_unfolding_all rfl
  · exact absurd (congrArg (fun m => m.disk.tried) heq) (by decide)

end ReplicatedStore
