import ReplicatedStore.Proofs.SteadySections
/-!
# Where entries come from

Whatever writes fail, a section puts no entry into a log, in memory or on disk, but those that it
was handed: by a request, by a proposal that it accepts, or by the disk that it starts on.
`Member.Sourced S m` says of one member that all its entries have a property `S`, together with what
makes this inductive: the log is lined up with its base, so that placing an entry does not change
its position.

It also says whom the member disappoints: a waiting proposal is never told that it was refused, only
that its outcome is open.
-/
namespace ReplicatedStore

/-- The outcome of the proposal is open, or the node went away. -/
def ServiceError.Open (e : ServiceError) : Prop := e = .shutdown ∨ ∃ u, e = .unsettled u

/-- A proposal that is told of an error is told that its outcome is open. -/
def Effect.Candid (effect : Effect) : Prop :=
  ∀ ticket e, effect = .settle ticket (.error e) → e.Open

/-- The entries that a write puts on the disk. -/
def DiskWrite.entries : DiskWrite → List Entry
  | .append es => es
  | .replace es => es
  | _ => []

theorem DiskContents.mem_after {contents : DiskContents} {w : DiskWrite} {e : Entry}
    (h : e ∈ (contents.after w).log) : e ∈ contents.log ∨ e ∈ w.entries := by
  cases w with
  | append es => exact List.mem_append.1 h
  | replace es => exact .inr h
  | clear => cases h
  | _ => exact .inl h

/-- Entries at consecutive positions, the first of them after the given one. -/
def Lined (base : Nat) (es : List Entry) : Prop :=
  ∀ (k : Nat) (e : Entry), es[k]? = some e → e.index = base + k + 1

namespace Lined

variable {base : Nat} {es : List Entry}

theorem nil (base : Nat) : Lined base [] := fun k e h => by simp at h

theorem of_isPrefix {es' : List Entry} (h : Lined base es) (hp : es' <+: es) : Lined base es' :=
  fun k e hk => h k e (History.getElem?_mono hp hk)

theorem drop (h : Lined base es) (n : Nat) : Lined (base + n) (es.drop n) := by
  intro k e hk
  rw [List.getElem?_drop] at hk
  have := h (n + k) e hk
  omega

theorem concat (h : Lined base es) {e : Entry} (he : e.index = base + es.length + 1) :
    Lined base (es ++ [e]) := by
  intro k e' hk
  rcases History.getElem?_concat hk with hk | ⟨rfl, rfl⟩
  · exact h k e' hk
  · exact he

theorem tail {e : Entry} (h : Lined base (e :: es)) : e.index = base + 1 ∧ Lined (base + 1) es :=
  ⟨h 0 e rfl, h.drop 1⟩

end Lined

/-! ## Replicas -/

namespace Replica

theorem dropFirst_spec {r r' : Replica} {n : Nat} (run : r.dropFirst n = .ok r') :
    r'.log = r.log.drop n ∧ r'.snapshotIndex = r.snapshotIndex := by
  unfold dropFirst at run
  split at run
  · cases run
    exact ⟨rfl, rfl⟩
  · cases run

/-- The log is lined up with its base, and all its entries have the property. -/
structure Sourced (S : Entry → Prop) (r : Replica) : Prop where
  lined : Lined r.snapshotIndex r.log
  all : ∀ e ∈ r.log, S e

namespace Sourced

variable {S : Entry → Prop} {r r' : Replica}

theorem congr (h : r.Sourced S) (hl : r'.log = r.log) (hb : r'.snapshotIndex = r.snapshotIndex) :
    r'.Sourced S :=
  ⟨hl ▸ hb ▸ h.lined, hl ▸ h.all⟩

theorem of_sameLog (h : r.Sourced S) (hs : SameLog r r') : r'.Sourced S := h.congr hs.log hs.base

theorem lastIndex_eq (h : r.Sourced S) : r.lastIndex = r.snapshotIndex + r.log.length := by
  rw [lastIndex, List.getLast?_eq_getElem?]
  rcases Nat.eq_zero_or_pos r.log.length with h0 | hpos
  · rw [h0, List.getElem?_eq_none (by omega)]
    rfl
  · have hget : r.log[r.log.length - 1]? = some r.log[r.log.length - 1] :=
      List.getElem?_eq_getElem (by omega)
    have := h.lined _ _ hget
    rw [hget, Option.map_some, Option.getD_some]
    omega

/-- An entry that comes next. -/
theorem concat (h : r.Sourced S) {e : Entry} (hi : e.index = r.lastIndex + 1) (he : S e) :
    ({ r with log := r.log ++ [e] } : Replica).Sourced S := by
  refine ⟨h.lined.concat (h.lastIndex_eq ▸ hi), fun e' he' => ?_⟩
  rcases List.mem_append.1 he' with he' | he'
  · exact h.all e' he'
  · exact List.mem_singleton.1 he' ▸ he

theorem take (h : r.Sourced S) (n : Nat) :
    ({ r with log := r.log.take n } : Replica).Sourced S :=
  ⟨h.lined.of_isPrefix (List.take_prefix _ _), fun e he => h.all e (List.mem_of_mem_take he)⟩

/-- The log starts later. -/
theorem drop (h : r.Sourced S) (n : Nat) (hl : r'.log = r.log.drop n)
    (hb : r'.snapshotIndex = r.snapshotIndex + n) : r'.Sourced S :=
  ⟨hl ▸ hb ▸ h.lined.drop n, fun e he => h.all e (List.mem_of_mem_drop (hl ▸ he))⟩

/-- Placing an entry that is next to the log, or inside it. -/
theorem place (h : r.Sourced S) {i : Nat} (hi : i ≤ r.lastIndex + 1) {e : Entry}
    (he : e.index = i) (hS : S e) (change : Option LogChange) :
    (r.place i e change).1.Sourced S ∧ i ≤ (r.place i e change).1.lastIndex := by
  have hlast := h.lastIndex_eq
  have hset : ({ e with index := i } : Entry) = e := by rw [← he]
  unfold Replica.place
  split
  · exact ⟨h, show i ≤ r.lastIndex by omega⟩
  · next hgt =>
    have hat : r.entryAt? i = r.log[i - r.snapshotIndex - 1]? := if_neg hgt
    split
    · next held hheld =>
      have hlt := (List.getElem?_eq_some_iff.1 (hat ▸ hheld)).1
      split
      · exact ⟨h, show i ≤ r.lastIndex by omega⟩
      · -- what stands there gives way
        have ht := h.take (i - r.snapshotIndex - 1)
        have hlen : (r.log.take (i - r.snapshotIndex - 1)).length = i - r.snapshotIndex - 1 :=
          List.length_take_of_le (Nat.le_of_lt hlt)
        have hend := ht.lastIndex_eq
        simp only [hlen] at hend
        have hs := ht.concat (e := e) (by omega) hS
        have hlast' := hs.lastIndex_eq
        simp only [List.length_append, hlen, List.length_singleton] at hlast'
        simp only [hset, truncate, if_pos (Nat.lt_of_not_le hgt)]
        exact ⟨hs, by omega⟩
    · next hnone =>
      have hge := List.getElem?_eq_none_iff.1 (hat ▸ hnone)
      have hs := h.concat (e := e) (by omega) hS
      have hlast' := hs.lastIndex_eq
      simp only [List.length_append, List.length_singleton] at hlast'
      simp only [hset]
      exact ⟨hs, by omega⟩

theorem placeAll {es : List Entry} {i : Nat} (h : r.Sourced S) (hi : i ≤ r.lastIndex)
    (hes : Lined i es) (hS : ∀ e ∈ es, S e) (change : Option LogChange) :
    (r.placeAll (i + 1) change es).1.Sourced S := by
  induction es generalizing r i change with
  | nil => exact h
  | cons e es ih =>
    obtain ⟨he, hes⟩ := hes.tail
    obtain ⟨hs, hle⟩ := h.place (Nat.succ_le_succ hi) he (hS e List.mem_cons_self) change
    rw [Replica.placeAll]
    exact ih hs hle hes (fun e' he' => hS e' (List.mem_cons_of_mem _ he')) _

theorem takeEntries (h : r.Sourced S) {q : AppendRequest} {o : AppendOutcome}
    (hq : Lined q.prevIndex q.entries) (hS : ∀ e ∈ q.entries, S e)
    (run : r.takeEntries q = .ok (r', o)) : r'.Sourced S := by
  have ha := h.of_sameLog (sameLog_accept r q.term q.leader)
  unfold Replica.takeEntries at run
  split at run
  · cases run
    exact h
  · simp only at run
    split at run
    · cases run
      exact ha
    · next hanch =>
      obtain ⟨lastNew, -, run⟩ := bind_eq_ok.1 run
      cases run
      have hi : q.prevIndex ≤ (r.accept q.term q.leader).lastIndex := by
        have := ha.lastIndex_eq
        simp only [anchors, Bool.not_eq_true, Bool.not_eq_false', Bool.or_eq_true,
          Bool.and_eq_true, decide_eq_true_eq] at hanch
        omega
      obtain ⟨⟨commit, hc⟩, -⟩ := followCommit_spec
        ((r.accept q.term q.leader).placeAll (q.prevIndex + 1) none q.entries).1 q.leaderCommit
        lastNew
      exact (ha.placeAll hi hq hS none).congr (by rw [hc]) (by rw [hc])

theorem rebase (h : r.Sourced S) {lastIndex lastTerm : Nat}
    (run : r.rebase lastIndex lastTerm = .ok r') : r'.Sourced S := by
  unfold Replica.rebase at run
  simp only at run
  split at run
  · obtain ⟨n, hn, run⟩ := bind_eq_ok.1 run
    obtain ⟨hle, rfl⟩ := Word.sub_eq_ok_iff.1 hn
    obtain ⟨r₁, hr₁, run⟩ := bind_eq_ok.1 run
    cases run
    exact h.drop _ (dropFirst_spec hr₁).1 (by simp only; omega)
  · cases run
    exact ⟨.nil _, nofun⟩

theorem takeImage (h : r.Sourced S) {term lastIndex lastTerm : Nat} {leader : NodeId}
    {o : InstallOutcome} (run : r.takeImage term leader lastIndex lastTerm = .ok (r', o)) :
    r'.Sourced S := by
  have ha := h.of_sameLog (sameLog_accept r term leader)
  rcases Member.takeImage_cases run with ⟨-, rfl, -⟩ | ⟨-, -, rfl, -⟩ | ⟨-, -, hre, -⟩
  · exact h
  · exact ha
  · exact ha.rebase hre

theorem compact (h : r.Sourced S) {through : Nat} {removed : List Entry}
    (run : r.compact through = .ok (r', removed)) : r'.Sourced S := by
  unfold Replica.compact at run
  simp only at run
  split at run
  · cases run
    exact h
  · obtain ⟨r₁, hr₁, run⟩ := bind_eq_ok.1 run
    cases run
    exact h.drop _ (dropFirst_spec hr₁).1 (by simp only; omega)

theorem advanceCommit (h : r.Sourced S) {advanced : Bool}
    (run : r.advanceCommit = .ok (r', advanced)) : r'.Sourced S := by
  rcases advanceCommit_spec run with ⟨rfl, -⟩ | ⟨-, -, i, -, -, -, rfl⟩
  · exact h
  · exact h.congr rfl rfl

theorem recordAppend (h : r.Sourced S) {term lastSent : Nat} {success advanced : Bool}
    {sender : NodeId} (run : r.recordAppend term success sender lastSent = .ok (r', advanced)) :
    r'.Sourced S := by
  have ha := h.of_sameLog (sameLog_answered r success sender lastSent)
  rcases recordAppend_spec run with ⟨-, rfl, -⟩ | ⟨rfl, -⟩ | ⟨-, -, ⟨-, hadv⟩ | ⟨-, rfl, -⟩⟩
  · exact h.of_sameLog (sameLog_follow r term)
  · exact h
  · exact ha.advanceCommit hadv
  · exact ha

/-- A stored log is read back in the order of positions, whatever is stored. -/
theorem loadLog {es : List Entry} (h : r.Sourced S) (hS : ∀ e ∈ es, S e) {loaded loaded' : Nat}
    (run : r.loadLog loaded es = .ok (r', loaded')) : r'.Sourced S := by
  induction es generalizing r loaded with
  | nil =>
    cases run
    exact h
  | cons e es ih =>
    have hes : ∀ e' ∈ es, S e' := fun e' he' => hS e' (List.mem_cons_of_mem _ he')
    rw [Replica.loadLog] at run
    split at run
    · exact ih h hes run
    · obtain ⟨following, hf, run⟩ := bind_eq_ok.1 run
      obtain ⟨-, rfl⟩ := Word.add_eq_ok_iff.1 hf
      split at run
      · next heq => exact ih (h.concat heq (hS e List.mem_cons_self)) hes run
      · cases run
        exact h

/-- The entries of a request stand where it says. -/
theorem appendRequest (h : r.Sourced S) {peer : NodeId} {q : AppendRequest}
    (hq : r.appendRequest? peer = .ok (some q)) :
    Lined q.prevIndex q.entries ∧ ∀ e ∈ q.entries, S e := by
  obtain ⟨next, hs, -, rfl⟩ := appendRequest?_eq_some_iff.1 hq
  obtain ⟨-, hneeds, hnext⟩ := sendable?_eq_some_iff.1 hs
  -- a position at or below the base is sent only from an empty base
  have hlt := (needsImage_eq_false_iff hnext).1 hneeds
  have hprev : r.snapshotIndex + (next - r.snapshotIndex - 1) = next - 1 := by omega
  have hlined := h.lined.drop (next - r.snapshotIndex - 1)
  rw [hprev] at hlined
  exact ⟨hlined, fun e he => h.all e (List.mem_of_mem_drop he)⟩

theorem heartbeat {peer : NodeId} {q : AppendRequest} (hq : r.heartbeat? peer = some q) :
    q.entries = [] := by
  obtain ⟨next, -, rfl⟩ := Option.map_eq_some_iff.1 hq
  rfl

end Sourced

end Replica

/-! ## Members -/

namespace Member

/-- All entries that the member holds have the property, in memory and on its disk, and it is candid
with those who wait. -/
structure Sourced (S : Entry → Prop) (m : Member MemoryDisk) : Prop where
  replica : m.replica.Sourced S
  disk : ∀ e ∈ m.disk.contents.log, S e
  outbox : ∀ effect ∈ m.outbox, effect.Candid

namespace Sourced

variable {S : Entry → Prop} {m m' : Member MemoryDisk}

theorem congr {n : Member MemoryDisk} (h : m.Sourced S) (hr : n.replica = m.replica)
    (hd : n.disk = m.disk) (ho : n.outbox = m.outbox) : n.Sourced S :=
  ⟨hr ▸ h.replica, hd ▸ h.disk, ho ▸ h.outbox⟩

theorem mono (h : m.Sourced S) {T : Entry → Prop} (hS : ∀ e, S e → T e) : m.Sourced T :=
  ⟨⟨h.replica.lined, fun e he => hS e (h.replica.all e he)⟩, fun e he => hS e (h.disk e he),
    h.outbox⟩

theorem withReplica (h : m.Sourced S) {r : Replica} (hr : r.Sourced S) :
    (show Member MemoryDisk from { m with replica := r }).Sourced S :=
  ⟨hr, h.disk, h.outbox⟩

/-! ### Books -/

theorem emit (h : m.Sourced S) {effect : Effect} (he : effect.Candid) :
    (m.emit effect).Sourced S := by
  refine ⟨h.replica, h.disk, fun effect' he' => ?_⟩
  rcases List.mem_append.1 he' with he' | he'
  · exact h.outbox effect' he'
  · exact List.mem_singleton.1 he' ▸ he

theorem failPending (h : m.Sourced S) {reason : ServiceError} (hr : reason.Open) :
    (m.failPending reason).Sourced S := by
  refine ⟨h.replica, h.disk, fun effect he => ?_⟩
  rcases List.mem_append.1 he with he | he
  · exact h.outbox effect he
  · obtain ⟨w, -, rfl⟩ := List.mem_map.1 he
    intro ticket e heq
    cases heq
    exact hr

theorem stopHeartbeat (h : m.Sourced S) : m.stopHeartbeat.Sourced S := by
  unfold Member.stopHeartbeat
  split
  · exact (h.congr (n := { m with beating := false }) rfl rfl rfl).emit nofun
  · exact h

theorem finish (h : m.Sourced S) : m.finish.Sourced S := by
  refine congr (m := m.settleRole) ?_ rfl rfl rfl
  unfold settleRole
  split
  · split
    · exact h
    · exact (h.congr (n := { m with beating := true }) rfl rfl rfl).emit nofun
  · simp only
    split
    · exact h.stopHeartbeat
    · exact h.stopHeartbeat.failPending (.inr ⟨_, rfl⟩)

theorem halt (h : m.Sourced S) (step : CriticalStep) (cause : ServiceError) :
    (m.halt step cause).Sourced S :=
  (h.failPending (.inr ⟨_, rfl⟩)).stopHeartbeat.congr rfl rfl rfl

theorem shutDown (h : m.Sourced S) : m.shutDown.Sourced S :=
  (h.congr (n := { m with stopped := true }) rfl rfl rfl).stopHeartbeat.failPending (.inl rfl)

theorem dropWaiter (h : m.Sourced S) (index : Nat) : (m.dropWaiter index).Sourced S := by
  unfold Member.dropWaiter
  split
  · exact h
  · next w hw =>
    refine (h.congr (n := { m with pending := m.pending.erase index }) rfl rfl rfl).emit ?_
    intro ticket e heq
    cases heq
    exact .inr ⟨_, rfl⟩

theorem noteLeader (h : m.Sourced S) (resetTimer : Bool) : (m.noteLeader resetTimer).Sourced S := by
  unfold Member.noteLeader
  split
  · exact h.emit nofun
  · exact h

theorem begins (h : m.Sourced S) (hb : Begins m m') : m'.Sourced S := by
  obtain ⟨_, es, rfl, hes⟩ := hb
  refine ⟨h.replica, h.disk, fun e he => (List.mem_append.1 he).elim (h.outbox e) fun he => ?_⟩
  obtain ⟨peer, target, rfl⟩ := hes e he
  exact nofun

/-! ### Writing and applying -/

theorem write (h : m.Sourced S) {w : DiskWrite} (hw : ∀ e ∈ w.entries, S e) {err : Option IoError}
    (run : m.write w = (m', err)) : m'.Sourced S ∧ m'.replica = m.replica := by
  simp only [Member.write, Disk.write, MemoryDisk.write] at run
  split at run <;> cases run
  · exact ⟨⟨h.replica, h.disk, h.outbox⟩, rfl⟩
  · refine ⟨⟨h.replica, fun e he => ?_, h.outbox⟩, rfl⟩
    exact (DiskContents.mem_after he).elim (h.disk e) (hw e)

theorem saveBallot (h : m.Sourced S) {err : Option IoError} (run : m.saveBallot = (m', err)) :
    m'.Sourced S := by
  unfold Member.saveBallot at run
  split at run
  · cases run
    exact h
  · split at run <;> cases run <;> next m₁ hw =>
      exact (h.write (fun e he => by cases he) hw).1.congr rfl rfl rfl

theorem applyEntry (h : m.Sourced S) (e : Entry) : (m.applyEntry e).1.Sourced S := by
  have h₁ : (show Member MemoryDisk from { m with pending := m.pending.erase e.index }).Sourced S :=
    ⟨h.replica, h.disk, h.outbox⟩
  simp only [Member.applyEntry]
  split
  · next a machine _ =>
    have h₂ : (show Member MemoryDisk from
        { m with pending := m.pending.erase e.index, machine := machine }).Sourced S :=
      ⟨h.replica, h.disk, h.outbox⟩
    split
    · exact h₂
    · refine h₂.emit fun ticket err heq => ?_
      obtain ⟨-, heq⟩ := Effect.settle.inj heq
      split at heq <;> cases heq
      exact .inr ⟨_, rfl⟩
  · split
    · exact h₁
    · refine h₁.emit fun ticket err heq => ?_
      cases heq
      exact .inr ⟨_, rfl⟩

theorem applyAll (h : m.Sourced S) (es : List Entry) : (m.applyAll es).1.Sourced S := by
  induction es generalizing m with
  | nil => exact h
  | cons e es ih =>
    have he := h.applyEntry e
    rw [Member.applyAll]
    split <;> next m₁ heq => rw [heq] at he; first | exact ih he | exact he

theorem takeImage (h : m.Sourced S) {now : Instant} {err : Option ServiceError}
    (run : m.takeImage now = .ok (m', err)) : m'.Sourced S := by
  unfold Member.takeImage at run
  obtain ⟨⟨r, removed⟩, hr, run⟩ := bind_eq_ok.1 run
  have h₁ := h.withReplica (h.replica.compact hr)
  simp only at run
  split at run
  · cases run
    exact h₁
  · split at run
    · next m₁ e hw =>
      cases run
      exact (h₁.write (fun e he => by cases he) hw).1
    · next m₁ hw =>
      obtain ⟨h₂, -⟩ := h₁.write (fun e he => by cases he) hw
      split at run <;> cases run <;> next m₂ hw' =>
        exact (h₂.write (w := .replace r.log) h₁.replica.all hw').1.congr rfl rfl rfl

theorem applyCommitted (h : m.Sourced S) {now : Instant} {err : Option ServiceError}
    (run : m.applyCommitted now = .ok (m', err)) : m'.Sourced S := by
  unfold Member.applyCommitted at run
  split at run
  · next m₁ e hw =>
    cases run
    exact (h.write (fun e he => by cases he) hw).1
  · next m₁ hw =>
    obtain ⟨h₁, -⟩ := h.write (fun e he => by cases he) hw
    have h₂ := h₁.withReplica (r := m₁.replica.takeCommitted.1) (h₁.replica.congr rfl rfl)
    simp only at run
    split at run
    · cases run
      exact h₂
    · have h₃ := h₂.applyAll m₁.replica.takeCommitted.2
      split at run
      · next m₂ e heq =>
        cases run
        rw [heq] at h₃
        exact h₃
      · next m₂ heq =>
        rw [heq] at h₃
        split at run
        · exact h₃.takeImage run
        · cases run
          exact h₃

theorem applyOrHalt (h : m.Sourced S) {now : Instant} (run : m.applyOrHalt now = .ok m') :
    m'.Sourced S := by
  unfold Member.applyOrHalt at run
  obtain ⟨⟨m₁, e⟩, hm₁, run⟩ := bind_eq_ok.1 run
  have h₁ := h.applyCommitted hm₁
  cases e with
  | none =>
    cases run
    exact h₁
  | some e =>
    cases run
    exact h₁.halt _ _

/-- What is committed is applied, perhaps, before the rest of the section. -/
theorem settle {β : Type} (h : m.Sourced S) {advanced : Bool} {now : Instant}
    {f : Member MemoryDisk → Except Fault β} {b : β}
    (run : (if advanced then m.applyOrHalt now >>= f else f m) = .ok b) :
    ∃ m₁, m₁.Sourced S ∧ f m₁ = .ok b := by
  split at run
  · obtain ⟨m₁, hm₁, run⟩ := bind_eq_ok.1 run
    exact ⟨m₁, h.applyOrHalt hm₁, run⟩
  · exact ⟨m, h, run⟩

/-! ### Sections -/

theorem campaign (h : m.Sourced S) {q : Option VoteRequest} (run : m.campaign = .ok (m', q)) :
    m'.Sourced S := by
  unfold Member.campaign at run
  split at run
  · cases run
    exact h
  · obtain ⟨⟨r, request⟩, hr, run⟩ := bind_eq_ok.1 run
    have h₁ := h.withReplica (h.replica.of_sameLog (Replica.sameLog_campaign hr))
    simp only at run
    split at run
    · next m₁ e hsave =>
      cases run
      have h₂ := h₁.saveBallot hsave
      exact (h₂.withReplica (h₂.replica.of_sameLog (Replica.sameLog_follow ..))).finish
    · next m₁ hsave =>
      cases run
      exact (h₁.saveBallot hsave).finish

theorem answerVote (h : m.Sourced S) {q : VoteRequest} {reply : Except ServiceError Message}
    (run : m.answerVote q = (m', reply)) : m'.Sourced S := by
  unfold Member.answerVote at run
  cases hr : m.replica.answerVote q with
  | mk r granted =>
    have h₁ := h.withReplica (h.replica.of_sameLog (Replica.sameLog_answerVote hr))
    simp only [hr] at run
    split at run
    · next m₁ e hsave =>
      cases run
      exact (h₁.saveBallot hsave).finish
    · next m₁ hsave =>
      cases run
      split
      · exact (h₁.saveBallot hsave).finish.emit nofun
      · exact (h₁.saveBallot hsave).finish

theorem countVote (h : m.Sourced S) {campaign term : Nat} {peer : NodeId} {granted more : Bool}
    (run : m.countVote campaign peer term granted = .ok (m', more)) : m'.Sourced S := by
  unfold Member.countVote at run
  obtain ⟨⟨r, won⟩, hr, hrun⟩ := bind_eq_ok.1 run
  clear run
  have h₁ := h.withReplica (h.replica.of_sameLog (Replica.sameLog_countVote hr))
  simp only at hrun
  split at hrun <;> cases hrun <;> next hsave =>
    first
    | exact (h₁.saveBallot hsave).finish
    | exact ((h₁.saveBallot hsave).halt _ _).finish

theorem recordReply (h : m.Sourced S) {now : Instant} {peer : NodeId} {lastSent : Nat}
    {reply : Message} {more : Bool}
    (run : m.recordReply now peer lastSent reply = .ok (m', more)) : m'.Sourced S := by
  obtain rfl | ⟨term, success, r, advanced, accepted, -, hr, run⟩ := recordReply_cases run
  · exact h
  · have h₁ := h.withReplica (h.replica.recordAppend hr)
    unfold recorded at run
    split at run
    · next m₁ e hsave =>
      cases run
      exact ((h₁.saveBallot hsave).halt _ _).finish
    · next m₁ hsave =>
      obtain ⟨m₂, h₂, run⟩ := (h₁.saveBallot hsave).settle run
      cases run
      exact h₂.finish

theorem recordBeat (h : m.Sourced S) {now : Instant} {peer : NodeId} {lastSent : Nat}
    {reply : Message} (run : m.recordBeat now peer lastSent reply = .ok m') : m'.Sourced S := by
  obtain ⟨m₁, more, hm₁, hbegins⟩ := recordBeat_cases run
  exact (h.recordReply hm₁).begins hbegins

/-- A proposal is refused, or it has an entry of its own. -/
theorem propose (h : m.Sourced S) {now : Instant} {command : Command} {ticket : Nat}
    {result : Except ServiceError Nat}
    (hS : ∀ index, result = .ok index → S ⟨m.replica.term, index, command⟩)
    (run : m.propose now command ticket = .ok (m', result)) : m'.Sourced S := by
  unfold Member.propose at run
  obtain ⟨proposed, hp, run⟩ := bind_eq_ok.1 run
  rcases Replica.propose_cases hp with ⟨-, rfl⟩ | ⟨-, -, rfl⟩
  · cases run
    exact h
  · simp only [Member.write, Disk.write, MemoryDisk.write] at run
    split at run
    · next hw =>
      -- the entry could not be written, and is gone
      split at hw <;> cases hw
      cases run
      exact ⟨h.replica, h.disk, h.outbox⟩
    · next m₁ hw =>
      obtain ⟨⟨r, advanced⟩, hadv, run⟩ := bind_eq_ok.1 run
      have hresult : result = .ok (m.replica.lastIndex + 1) := by
        split at run
        · obtain ⟨m₂, -, run⟩ := bind_eq_ok.1 run
          cases run
          rfl
        · cases run
          rfl
      have he := hS _ hresult
      have hwrite : m.write (.append [⟨m.replica.term, m.replica.lastIndex + 1, command⟩]) =
          (m₁, none) := by
        simp only [Member.write, Disk.write, MemoryDisk.write]
        exact hw
      obtain ⟨h₁, hr₁⟩ := h.write (w := .append [_]) (fun e he' => List.mem_singleton.1 he' ▸ he)
        hwrite
      have h₂ := h₁.withReplica (h.replica.concat rfl he)
      have h₃ := h₂.dropWaiter (m.replica.lastIndex + 1)
      have h₄ : (show Member MemoryDisk from
          { await _ (m.replica.lastIndex + 1) ⟨m.replica.term, ticket⟩ with replica := r }).Sourced
            S :=
        ⟨h₃.replica.advanceCommit hadv, h₃.disk, h₃.outbox⟩
      obtain ⟨m₂, h₅, run⟩ := h₄.settle run
      cases run
      exact h₅.finish

theorem persistEntries (h : m.Sourced S) {change : Option LogChange} {err : Option IoError}
    (run : m.persistEntries change = .ok (m', err)) : m'.Sourced S := by
  unfold Member.persistEntries at run
  split at run
  · next m₁ e hsave =>
    cases run
    exact h.saveBallot hsave
  · next m₁ hsave =>
    have h₁ := h.saveBallot hsave
    split at run
    · cases run
      exact h₁
    · obtain ⟨es, hes, run⟩ := bind_eq_ok.1 run
      obtain ⟨first, -, hes⟩ := bind_eq_ok.1 hes
      cases hes
      exact (h₁.write (w := .append _) (fun e he => h₁.replica.all e (List.mem_of_mem_drop he))
        (Except.ok.inj run)).1
    · exact (h₁.write (w := .replace _) h₁.replica.all (Except.ok.inj run)).1

theorem answerAppend (h : m.Sourced S) {now : Instant} {q : AppendRequest}
    {reply : Except ServiceError Message} (hq : Lined q.prevIndex q.entries)
    (hS : ∀ e ∈ q.entries, S e) (run : m.answerAppend now q = .ok (m', reply)) : m'.Sourced S := by
  unfold Member.answerAppend at run
  obtain ⟨⟨r, o⟩, hr, run⟩ := bind_eq_ok.1 run
  obtain ⟨⟨m₁, e⟩, hm₁, run⟩ := bind_eq_ok.1 run
  have h₁ := (h.withReplica (h.replica.takeEntries hq hS hr)).noteLeader o.resetTimer
  have h₂ := h₁.persistEntries hm₁
  cases e with
  | some e =>
    cases run
    exact (h₂.halt _ _).finish
  | none =>
    obtain ⟨m₂, h₃, run⟩ := h₂.settle run
    cases run
    exact h₃.finish

theorem install (h : m.Sourced S) {image : Image} {err : Option IoError}
    (run : m.install image = (m', err)) : m'.Sourced S := by
  unfold Member.install at run
  split at run
  · next m₁ e hw =>
    cases run
    exact (h.write (fun e he => by cases he) hw).1
  · next m₁ hw =>
    obtain ⟨h₁, -⟩ := h.write (fun e he => by cases he) hw
    have h₂ : (show Member MemoryDisk from
        { m₁ with machine := Image.restore image.entries }).Sourced S :=
      ⟨h₁.replica, h₁.disk, h₁.outbox⟩
    simp only at run
    split at run
    · next m₂ e hw' =>
      cases run
      exact (h₂.write (w := .replace m₁.replica.log) h₁.replica.all hw').1
    · next m₂ hw' =>
      obtain ⟨h₃, -⟩ := h₂.write (w := .replace m₁.replica.log) h₁.replica.all hw'
      split at run <;> cases run <;> next hw'' =>
        exact (h₃.write (fun e he => by cases he) hw'').1.congr rfl rfl rfl

theorem persistImage (h : m.Sourced S) {installed : Bool} {image : Image} {err : Option IoError}
    (run : m.persistImage installed image = (m', err)) : m'.Sourced S := by
  unfold Member.persistImage at run
  split at run
  · next m₁ e hsave =>
    cases run
    exact h.saveBallot hsave
  · next m₁ hsave =>
    split at run
    · exact (h.saveBallot hsave).install run
    · cases run
      exact h.saveBallot hsave

theorem answerInstall (h : m.Sourced S) {now : Instant} {q : InstallRequest}
    {reply : Except ServiceError Message} (run : m.answerInstall now q = .ok (m', reply)) :
    m'.Sourced S := by
  unfold Member.answerInstall at run
  obtain ⟨⟨r, o⟩, hr, run⟩ := bind_eq_ok.1 run
  have h₁ := (h.withReplica (h.replica.takeImage hr)).noteLeader o.resetTimer
  simp only at run
  split at run <;> cases run <;> next hm₁ =>
    first
    | exact (h₁.persistImage hm₁).finish
    | exact ((h₁.persistImage hm₁).halt _ _).finish

/-- A member that has read its disk holds what the disk holds. -/
theorem load {s : MemberSettings} {d : MemoryDisk} (hd : ∀ e ∈ d.contents.log, S e)
    (run : (blank s d).load = .ok (.ok m)) : m.Sourced S := by
  have hblank : (((blank s d).recoverBallot d.contents.ballot).recoverImage
      d.contents.image).Sourced S := by
    cases d.contents.image <;> exact ⟨⟨.nil _, nofun⟩, hd, nofun⟩
  obtain ⟨⟨r, n⟩, hr, hm⟩ := bind_eq_ok.1 (load_spec run)
  cases hm
  exact ⟨(hblank.replica.loadLog hd hr).congr rfl rfl, hblank.disk, hblank.outbox⟩

/-- A member that starts holds what its disk holds. -/
theorem start {s : MemberSettings} {d : MemoryDisk} {now : Instant}
    (hd : ∀ e ∈ d.contents.log, S e) :
    (∀ m, Member.start s d now = .ok (.ok m) → m.Sourced S) ∧
      ∀ e d', Member.start s d now = .ok (.error (e, d')) → ∀ e ∈ d'.contents.log, S e := by
  constructor
  · intro m run
    obtain ⟨-, m₀, m₁, hm₀, happ, rfl⟩ := start_cases run
    exact ((load hd hm₀).applyCommitted happ).congr rfl rfl rfl
  · intro e d' run
    obtain rfl | ⟨m₀, m₁, e', hm₀, happ, rfl⟩ := start_cases_error run
    · exact hd
    · exact ((load hd hm₀).applyCommitted happ).disk

end Sourced

end Member

end ReplicatedStore
