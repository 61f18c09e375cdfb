import ReplicatedStore.Member.Campaign
import ReplicatedStore.Member.Recovery
import ReplicatedStore.Member.Replication
import ReplicatedStore.Member.Requests
import ReplicatedStore.Proofs.Images
/-!
# What the bookkeeping of a section leaves alone

Around its work on the replica and the disk a section keeps books: it hands out effects, fails
proposals, turns the heartbeat on and off, and shows a status. All of that is `Quiet`: it does not
touch the `Core` of a member, no proposal begins to wait, and no proposal is given a result of the
machine. What is stated on cores is carried over it by one rewrite. Background tasks that are begun
(`Begins`) and writes (`Writes`) have a frame of their own, which says all that they leave alone.

The second half takes the sections that record answers, send requests and start a member apart into
the cases that differ.
-/
namespace ReplicatedStore

/-- The effect gives no proposal a result of the machine. -/
def Effect.Mute (e : Effect) : Prop := ∀ ticket a, e ≠ .settle ticket (.ok a)

/-- What a member works on. -/
structure Core (δ : Type) where
  replica : Replica
  disk : δ
  machine : Machine
  image : Option Image
  saved : Ballot

namespace Member

variable {δ : Type}

/-- The core of a member. -/
def core (m : Member δ) : Core δ := ⟨m.replica, m.disk, m.machine, m.image, m.saved⟩

theorem core_eq_iff {m m' : Member δ} :
    m'.core = m.core ↔ m'.replica = m.replica ∧ m'.disk = m.disk ∧ m'.machine = m.machine ∧
      m'.image = m.image ∧ m'.saved = m.saved := by
  simp only [core, Core.mk.injEq]

/-- Only the books differ, and nobody is told a result. -/
structure Quiet (m m' : Member δ) : Prop where
  core : m'.core = m.core
  pending : ∀ i w, m'.pending.get? i = some w → m.pending.get? i = some w
  outbox : ∀ e ∈ m'.outbox, e ∈ m.outbox ∨ e.Mute

theorem Quiet.refl (m : Member δ) : Quiet m m := ⟨rfl, fun _ _ h => h, fun _ h => .inl h⟩

theorem Quiet.trans {m m' m'' : Member δ} (h : Quiet m m') (h' : Quiet m' m'') : Quiet m m'' := by
  refine ⟨h'.core.trans h.core, fun i w hw => h.pending i w (h'.pending i w hw), fun e he => ?_⟩
  rcases h'.outbox e he with he | he
  · exact h.outbox e he
  · exact .inr he

theorem Quiet.replica {m m' : Member δ} (h : Quiet m m') : m'.replica = m.replica :=
  (core_eq_iff.1 h.core).1

theorem Quiet.disk {m m' : Member δ} (h : Quiet m m') : m'.disk = m.disk :=
  (core_eq_iff.1 h.core).2.1

theorem Quiet.of_eq {m m' : Member δ} (hc : m'.core = m.core) (hp : m'.pending = m.pending)
    (ho : m'.outbox = m.outbox) : Quiet m m' :=
  ⟨hc, fun _ _ h => hp ▸ h, fun _ h => .inl (ho ▸ h)⟩

theorem Quiet.emit {m m' : Member δ} (h : Quiet m m') (e : Effect) (he : e.Mute) :
    Quiet m (m'.emit e) := by
  refine ⟨h.core, h.pending, fun e' he' => ?_⟩
  rcases List.mem_append.1 he' with hmem | hmem
  · exact h.outbox e' hmem
  · exact .inr (List.mem_singleton.1 hmem ▸ he)

theorem quiet_failPending (m : Member δ) (reason : ServiceError) :
    Quiet m (m.failPending reason) := by
  refine ⟨rfl, fun i w h => ?_, fun e he => ?_⟩
  · simp only [failPending, Table.get?_empty] at h
    cases h
  · rcases List.mem_append.1 he with he | he
    · exact .inl he
    · obtain ⟨w, -, rfl⟩ := List.mem_map.1 he
      exact .inr fun ticket a => nofun

theorem quiet_stopHeartbeat (m : Member δ) : Quiet m m.stopHeartbeat := by
  unfold stopHeartbeat
  split
  · have h : Quiet m { m with beating := false } := .of_eq rfl rfl rfl
    exact h.emit .stopHeartbeat nofun
  · exact .refl m

theorem quiet_settleRole (m : Member δ) : Quiet m m.settleRole := by
  unfold settleRole
  split
  · split
    · exact .refl m
    · have h : Quiet m { m with beating := true } := .of_eq rfl rfl rfl
      exact h.emit .startHeartbeat nofun
  · simp only
    split
    · exact quiet_stopHeartbeat m
    · exact (quiet_stopHeartbeat m).trans (quiet_failPending _ _)

theorem quiet_finish (m : Member δ) : Quiet m m.finish :=
  (quiet_settleRole m).trans (.of_eq rfl rfl rfl)

theorem quiet_halt (m : Member δ) (step : CriticalStep) (cause : ServiceError) :
    Quiet m (m.halt step cause) :=
  ((quiet_failPending m _).trans (quiet_stopHeartbeat _)).trans (.of_eq rfl rfl rfl)

theorem quiet_shutDown (m : Member δ) : Quiet m m.shutDown :=
  have h : Quiet m { m with stopped := true } := .of_eq rfl rfl rfl
  h.trans ((quiet_stopHeartbeat _).trans (quiet_failPending _ .shutdown))

theorem quiet_dropWaiter (m : Member δ) (index : Nat) : Quiet m (m.dropWaiter index) := by
  unfold dropWaiter
  split
  · exact .refl m
  · next w hw =>
    refine ⟨rfl, fun i w' hw' => ?_, fun e he => ?_⟩
    · simp only [emit, Table.get?_erase] at hw'
      split at hw'
      · cases hw'
      · exact hw'
    · rcases List.mem_append.1 he with he | he
      · exact .inl he
      · exact .inr (List.mem_singleton.1 he ▸ fun ticket a => nofun)

theorem core_await (m : Member δ) (index : Nat) (w : Waiter) : (m.await index w).core = m.core :=
  (quiet_dropWaiter m index).core

theorem quiet_noteLeader (m : Member δ) (resetTimer : Bool) :
    Quiet m (m.noteLeader resetTimer) := by
  unfold noteLeader
  split
  · exact (Quiet.refl m).emit .resetElectionTimer nofun
  · exact .refl m

/-- All that happened is that background tasks for peers were begun. -/
def Begins (m m' : Member δ) : Prop :=
  ∃ catchingUp effects, m' = { m with
    catchingUp := catchingUp, outbox := m.outbox ++ effects } ∧
      ∀ e ∈ effects, ∃ peer target, e = .catchUp peer target

theorem Begins.refl (m : Member δ) : Begins m m :=
  ⟨m.catchingUp, [], by rw [List.append_nil], nofun⟩

theorem Begins.trans {m m' m'' : Member δ} (h : Begins m m') (h' : Begins m' m'') :
    Begins m m'' := by
  obtain ⟨_, es, rfl, hes⟩ := h
  obtain ⟨cs, es', rfl, hes'⟩ := h'
  exact ⟨cs, es ++ es', by simp only [List.append_assoc],
    fun e he => (List.mem_append.1 he).elim (hes e) (hes' e)⟩

theorem begins_catchUp (m : Member δ) (peer : NodeId) : Begins m (m.catchUp peer) := by
  unfold catchUp
  split
  · exact .refl m
  · exact ⟨_, [.catchUp peer m.replica.lastIndex], rfl, by simp⟩

theorem begins_beatsTo (m : Member δ) (ps : List NodeId) : Begins m (m.beatsTo ps).1 := by
  induction ps generalizing m with
  | nil => exact .refl m
  | cons p ps ih =>
    rw [beatsTo]
    split
    · exact (begins_catchUp m p).trans (ih _)
    · simp only
      split <;> exact ih m

theorem begins_heartbeats (m : Member δ) : Begins m m.heartbeats.1 := by
  unfold heartbeats
  split
  · exact begins_beatsTo m _
  · exact .refl m

theorem Begins.quiet {m m' : Member δ} (h : Begins m m') : Quiet m m' := by
  obtain ⟨_, es, rfl, hes⟩ := h
  refine ⟨rfl, fun _ _ h => h, fun e he => (List.mem_append.1 he).imp_right fun he => ?_⟩
  obtain ⟨peer, target, rfl⟩ := hes e he
  exact nofun

theorem quiet_catchUp (m : Member δ) (peer : NodeId) : Quiet m (m.catchUp peer) :=
  (begins_catchUp m peer).quiet

theorem quiet_heartbeats (m : Member δ) : Quiet m m.heartbeats.1 := (begins_heartbeats m).quiet

theorem quiet_caughtUp (m : Member δ) (peer : NodeId) : Quiet m (m.caughtUp peer) :=
  .of_eq rfl rfl rfl

/-- Each heartbeat of a round is the one for its peer. -/
theorem of_mem_beatsTo {m : Member δ} {ps : List NodeId} {p : NodeId} {q : AppendRequest}
    (h : (p, q) ∈ (m.beatsTo ps).2) : p ∈ ps ∧ m.replica.heartbeat? p = some q := by
  induction ps generalizing m with
  | nil => cases h
  | cons p' ps ih =>
    rw [beatsTo] at h
    split at h
    · have hp := ih h
      rw [(quiet_catchUp m p').replica] at hp
      exact ⟨List.mem_cons_of_mem _ hp.1, hp.2⟩
    · simp only at h
      split at h
      · exact (ih h).imp (List.mem_cons_of_mem _) id
      · next q' hq' =>
        rcases List.mem_cons.1 h with heq | h
        · cases heq
          exact ⟨List.mem_cons_self, hq'⟩
        · exact (ih h).imp (List.mem_cons_of_mem _) id

theorem of_mem_heartbeats {m : Member δ} {p : NodeId} {q : AppendRequest}
    (h : (p, q) ∈ m.heartbeats.2) : p ∈ m.replica.peers ∧ m.replica.heartbeat? p = some q := by
  unfold heartbeats at h
  split at h
  · exact of_mem_beatsTo h
  · cases h

/-- A request to a peer carries entries, or the image. -/
theorem nextRequest_cases {m : Member δ} {peer : NodeId} {target : Nat} {body : Message}
    (run : m.nextRequest peer target = .ok (.ok (some body))) :
    (∃ q, body = .appendRequest q ∧ m.replica.appendRequest? peer = .ok (some q)) ∨
      ∃ i q, body = .installRequest q ∧ m.image = some i ∧
        m.replica.installRequest? i.entries i.lastIndex i.lastTerm = some q := by
  unfold nextRequest at run
  split at run
  · cases run
  · split at run
    · cases run
    · obtain ⟨result, hresult, run⟩ := bind_eq_ok.1 run
      cases result with
      | error e => cases run
      | ok body' =>
        cases run
        unfold requestFor at hresult
        split at hresult
        · split at hresult
          · cases hresult
          · next i hi =>
            split at hresult
            · cases hresult
            · next q hq =>
              cases hresult
              exact .inr ⟨i, q, rfl, hi, hq⟩
        · obtain ⟨q?, hq, hresult⟩ := bind_eq_ok.1 hresult
          cases q? with
          | none => cases hresult
          | some q =>
            cases hresult
            exact .inl ⟨q, rfl, hq⟩

/-! ## What writing leaves alone -/

section Writing

variable {m m' m'' : Member MemoryDisk} {e : Option IoError}

/-- The disk was written, and nothing else but the note of the ballot on it. It is the same disk,
and an error is that of a write which it fails. -/
structure Writes (m m' : Member MemoryDisk) (e : Option IoError) : Prop where
  frame : ∃ tried contents saved, m' = { m with
    disk := { m.disk with tried := tried, contents := contents }, saved := saved }
  failed : e ≠ none → ∃ n w, m.disk.fails n w = true

theorem Writes.trans (h : Writes m m' none) (h' : Writes m' m'' e) : Writes m m'' e := by
  obtain ⟨⟨_, _, _, rfl⟩, -⟩ := h
  obtain ⟨⟨n, c, b, rfl⟩, hfailed⟩ := h'
  exact ⟨⟨n, c, b, rfl⟩, hfailed⟩

theorem Writes.replica (h : Writes m m' e) : m'.replica = m.replica := by
  obtain ⟨⟨_, _, _, rfl⟩, -⟩ := h
  rfl

theorem Writes.stopped (h : Writes m m' e) : m'.stopped = m.stopped := by
  obtain ⟨⟨_, _, _, rfl⟩, -⟩ := h
  rfl

theorem writes_write {w : DiskWrite} (run : m.write w = (m', e)) : Writes m m' e := by
  simp only [write, Disk.write, MemoryDisk.write] at run
  split at run <;> cases run
  · next hfails => exact ⟨⟨_, _, _, rfl⟩, fun _ => ⟨_, _, hfails⟩⟩
  · exact ⟨⟨_, _, _, rfl⟩, fun hne => absurd rfl hne⟩

theorem writes_saveBallot (run : m.saveBallot = (m', e)) : Writes m m' e := by
  unfold saveBallot at run
  split at run
  · cases run
    exact ⟨⟨_, _, _, rfl⟩, fun hne => absurd rfl hne⟩
  · split at run <;> cases run <;> next hw =>
      obtain ⟨⟨_, _, _, rfl⟩, hfailed⟩ := writes_write hw
      exact ⟨⟨_, _, _, rfl⟩, hfailed⟩

theorem writes_persistEntries {change : Option LogChange}
    (run : m.persistEntries change = .ok (m', e)) : Writes m m' e := by
  unfold persistEntries at run
  split at run
  · next hsave =>
    cases run
    exact writes_saveBallot hsave
  · next hsave =>
    have h := writes_saveBallot hsave
    split at run
    · cases run
      exact h
    · obtain ⟨es, -, run⟩ := bind_eq_ok.1 run
      exact h.trans (writes_write (Except.ok.inj run))
    · exact h.trans (writes_write (Except.ok.inj run))

/-- An installation may replace the machine and the image besides. -/
theorem writes_install {image : Image} (run : m.install image = (m', e)) :
    ∃ machine latest, Writes { m with machine := machine, image := latest } m' e := by
  unfold install at run
  split at run
  · next hw =>
    cases run
    exact ⟨m.machine, m.image, writes_write hw⟩
  · next hw =>
    obtain ⟨⟨_, _, _, rfl⟩, -⟩ := writes_write hw
    simp only at run
    split at run
    · next hw' =>
      cases run
      obtain ⟨⟨_, _, _, rfl⟩, hfailed⟩ := writes_write hw'
      exact ⟨Image.restore image.entries, m.image, ⟨_, _, _, rfl⟩, hfailed⟩
    · next hw' =>
      obtain ⟨⟨_, _, _, rfl⟩, -⟩ := writes_write hw'
      split at run <;> cases run <;> next hw'' =>
        obtain ⟨⟨_, _, _, rfl⟩, hfailed⟩ := writes_write hw''
        first
        | exact ⟨Image.restore image.entries, m.image, ⟨_, _, _, rfl⟩, hfailed⟩
        | exact ⟨Image.restore image.entries, some image, ⟨_, _, _, rfl⟩, hfailed⟩

theorem writes_persistImage {installed : Bool} {image : Image}
    (run : m.persistImage installed image = (m', e)) :
    ∃ machine latest, Writes { m with machine := machine, image := latest } m' e := by
  unfold persistImage at run
  split at run
  · next hsave =>
    cases run
    exact ⟨m.machine, m.image, writes_saveBallot hsave⟩
  · next hsave =>
    have h := writes_saveBallot hsave
    split at run
    · obtain ⟨⟨_, _, _, rfl⟩, -⟩ := h
      obtain ⟨machine, latest, ⟨_, _, _, rfl⟩, hfailed⟩ := writes_install run
      exact ⟨machine, latest, ⟨_, _, _, rfl⟩, hfailed⟩
    · cases run
      exact ⟨m.machine, m.image, h⟩

end Writing

variable [Disk δ]

/-- What is left to do once a peer's answer is recorded in the replica. -/
def recorded (m : Member δ) (now : Instant) (r : Replica) (advanced accepted : Bool) :
    Except Fault (Member δ × Bool) :=
  match saveBallot { m with replica := r } with
  | (m, some e) => .ok ((m.halt .persistTerm (.storage e)).finish, false)
  | (m, none) => do
    let m ← if advanced then m.applyOrHalt now else pure m
    return (m.finish, accepted && m.finish.replica.leads)

/-- Both kinds of answers are recorded alike: an image that was taken counts like entries that
were. -/
theorem recordReply_cases {m m' : Member δ} {now : Instant} {peer : NodeId} {lastSent : Nat}
    {reply : Message} {more : Bool}
    (run : m.recordReply now peer lastSent reply = .ok (m', more)) :
    m' = m ∨ ∃ term success r advanced accepted,
      (reply = .appendReply term success ∨ reply = .installReply term ∧ success = true) ∧
        m.replica.recordAppend term success peer lastSent = .ok (r, advanced) ∧
        m.recorded now r advanced accepted = .ok (m', more) := by
  unfold recordReply at run
  cases reply with
  | appendReply term success =>
    obtain ⟨⟨r, advanced⟩, hr, run⟩ := bind_eq_ok.1 run
    exact .inr ⟨term, success, r, advanced, success, .inl rfl, hr, run⟩
  | installReply term =>
    obtain ⟨⟨r, advanced⟩, hr, run⟩ := bind_eq_ok.1 run
    exact .inr ⟨term, true, r, advanced, _, .inr ⟨rfl, rfl⟩, hr, run⟩
  | _ =>
    cases run
    exact .inl rfl

/-- Recording the answer to a heartbeat is recording an answer, and perhaps bringing the peer up. -/
theorem recordBeat_cases {m m' : Member δ} {now : Instant} {peer : NodeId} {lastSent : Nat}
    {reply : Message} (run : m.recordBeat now peer lastSent reply = .ok m') :
    ∃ m₁ more, m.recordReply now peer lastSent reply = .ok (m₁, more) ∧ Begins m₁ m' := by
  unfold recordBeat at run
  obtain ⟨⟨m₁, more⟩, hm₁, run⟩ := bind_eq_ok.1 run
  refine ⟨m₁, more, hm₁, ?_⟩
  simp only at run
  split at run
  · cases run
    exact .refl m'
  · split at run <;> cases run
    · exact begins_catchUp m₁ peer
    · exact .refl m'

/-- A start that succeeds has read the disk and applied what is committed. -/
theorem start_cases {s : MemberSettings} {d : δ} {now : Instant} {m : Member δ}
    (run : start s d now = .ok (.ok m)) :
    s.validate = .ok () ∧ ∃ m₀ m₁, (blank s d).load = .ok (.ok m₀) ∧
      m₀.applyCommitted now = .ok (m₁, none) ∧ m = { m₁ with published := m₁.replica.status } := by
  unfold start at run
  split at run
  · cases run
  · next hv =>
    obtain ⟨loaded, hload, run⟩ := bind_eq_ok.1 run
    cases loaded with
    | error e => cases run
    | ok m₀ =>
      obtain ⟨⟨m₁, e⟩, happ, run⟩ := bind_eq_ok.1 run
      cases e with
      | some e => cases run
      | none =>
        cases run
        exact ⟨hv, m₀, m₁, hload, happ, rfl⟩

/-- A start that fails has written no more than applying what is committed does. -/
theorem start_cases_error {s : MemberSettings} {d d' : δ} {now : Instant} {e : ServiceError}
    (run : start s d now = .ok (.error (e, d'))) :
    d' = d ∨ ∃ m₀ m₁ e', (blank s d).load = .ok (.ok m₀) ∧
      m₀.applyCommitted now = .ok (m₁, some e') ∧ d' = m₁.disk := by
  unfold start at run
  split at run
  · cases run
    exact .inl rfl
  · obtain ⟨loaded, hload, run⟩ := bind_eq_ok.1 run
    cases loaded with
    | error e =>
      cases run
      exact .inl rfl
    | ok m₀ =>
      obtain ⟨⟨m₁, e'⟩, happ, run⟩ := bind_eq_ok.1 run
      cases e' with
      | some e' =>
        cases run
        exact .inr ⟨m₀, m₁, _, hload, happ, rfl⟩
      | none => cases run

/-- What a member that is starting takes over from a disk in memory. -/
theorem load_spec {m m' : Member MemoryDisk} (h : m.load = .ok (.ok m')) :
    ((m.recoverBallot m.disk.contents.ballot).recoverImage m.disk.contents.image).recoverLog
      m.disk.contents.log m.disk.contents.commit = .ok m' := by
  unfold load at h
  cases hu : m.disk.unreadable with
  | true => simp [Disk.readBallot, hu, bind, Except.bind] at h
  | false =>
    simp only [Disk.readBallot, Disk.readImage, Disk.readLog, Disk.readCommit, hu, bind,
      Except.bind, pure, Except.pure, Bool.false_eq_true, if_false] at h
    split at h
    · cases h
    · next m₁ hm₁ =>
      cases h
      exact hm₁

end Member

end ReplicatedStore
