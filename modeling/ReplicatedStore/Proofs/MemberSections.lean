import ReplicatedStore.Proofs.Books
import ReplicatedStore.Proofs.CatchingUp
import ReplicatedStore.Proofs.Isolation
import ReplicatedStore.Proofs.RequestedLogs
/-!
# Sections of a member that can be asked anything

A member by itself, with whatever can reach it: requests of any content, replies to whatever it may
have sent, timers, proposals, callers that give up, in any order, and writes that fail.
`Member.Section` is one critical section, `Member.Works` any number of them. Nothing is asked of
where a request comes from, only that append requests satisfy a condition that is left open.

Every section after which the member goes on is taken apart here once, into stages that say all
that they do (`Section.passage`): it begins with the replica and what has to be written of it
(`Opening`), perhaps commits (`Commits`), perhaps applies (`Digests`), and ends in line with the
role. What is kept by each stage is kept by every section.
-/
namespace ReplicatedStore

namespace Member

variable {m m' m'' : Member MemoryDisk} {P : Replica → AppendRequest → Prop}

/-! ## Sections -/

/-- One critical section. The append requests that come satisfy the condition. A section that stops
in the middle, on a sum that is no word, does not end and is none of these. -/
inductive Section (P : Replica → AppendRequest → Prop) (m : Member MemoryDisk) :
    Member MemoryDisk → Prop
  | timeout {m' q} (run : m.campaign = .ok (m', q)) : Section P m m'
  | answerVote {q m' reply} (run : m.answerVote q = (m', reply)) : Section P m m'
  | answerAppend {q now m' reply} (asked : P m.replica q)
      (run : m.answerAppend now q = .ok (m', reply)) : Section P m m'
  | answerInstall {q now m' reply} (run : m.answerInstall now q = .ok (m', reply)) : Section P m m'
  | countVote {campaign peer term granted m' more} (known : peer ∈ m.replica.peers)
      (run : m.countVote campaign peer term granted = .ok (m', more)) : Section P m m'
  | recordReply {peer through reply now m' more} (known : peer ∈ m.replica.peers)
      (run : m.recordReply now peer through reply = .ok (m', more)) : Section P m m'
  | recordBeat {peer through reply now m'} (known : peer ∈ m.replica.peers)
      (run : m.recordBeat now peer through reply = .ok m') : Section P m m'
  | propose {command ticket now m' result}
      (run : m.propose now command ticket = .ok (m', result)) : Section P m m'
  | beat {m' beats} (run : m.heartbeats = (m', beats)) : Section P m m'
  | caughtUp {peer} : Section P m (m.caughtUp peer)
  | giveUp {index} : Section P m (m.dropWaiter index)
  | shutDown : Section P m m.shutDown

/-- Any number of sections, each on a member that has not stopped. What a section wants done outside
may be done after it. -/
inductive Works (P : Replica → AppendRequest → Prop) : Member MemoryDisk → Member MemoryDisk → Prop
  | refl (m : Member MemoryDisk) : Works P m m
  | act {m m' m'' : Member MemoryDisk} (run : Works P m m') (up : m'.stopped = false)
      (act : Section P m' m'') : Works P m m''
  | drain {m m' : Member MemoryDisk} (run : Works P m m') : Works P m { m' with outbox := [] }

/-! ## Applying -/

/-- Whoever waits on waited before, and for none of the entries that were applied. -/
theorem books_applyAll {es : List Entry} (run : m.applyAll es = (m', none)) :
    m'.beating = m.beating ∧ ∀ i w, m'.pending.get? i = some w →
      m.pending.get? i = some w ∧ ∀ e ∈ es, e.index ≠ i := by
  induction es generalizing m m' with
  | nil =>
    cases run
    exact ⟨rfl, fun i w hi => ⟨hi, nofun⟩⟩
  | cons e es ih =>
    obtain ⟨machine, effects, err, happ, -⟩ := applyEntry_cases m e
    rw [applyAll, happ] at run
    cases err with
    | some err => cases run
    | none =>
      obtain ⟨hbeating, hpending⟩ := ih (m := { m with
        pending := m.pending.erase e.index, machine := machine, outbox := m.outbox ++ effects }) run
      refine ⟨hbeating, fun i w hi => ?_⟩
      obtain ⟨hi, hes⟩ := hpending i w hi
      simp only [Table.get?_erase] at hi
      split at hi
      · cases hi
      · next hne =>
        refine ⟨hi, fun e' he' => ?_⟩
        rcases List.mem_cons.1 he' with rfl | he'
        · exact fun heq => hne (heq ▸ Std.ReflCmp.compare_self)
        · exact hes e' he'

/-- What applying leaves when nothing fails: so many entries were folded into the image, which is
then on the disk together with the whole log, and whoever waited for an entry that was applied waits
no more. -/
structure Digests (m m' : Member MemoryDisk) (n : Nat) : Prop where
  length : n ≤ m.replica.log.length
  covered : 0 < n →
    m.replica.snapshotIndex + n ≤ max m.replica.lastApplied m.replica.commitIndex
  replica : ∃ t, (n = 0 → t = m.replica.snapshotTerm) ∧ m'.replica = { m.replica with
    log := m.replica.log.drop n, snapshotIndex := m.replica.snapshotIndex + n, snapshotTerm := t
    lastApplied := max m.replica.lastApplied m.replica.commitIndex }
  kept : n = 0 → m'.image = m.image ∧
    m'.disk.contents = { m.disk.contents with commit := m.replica.commitIndex }
  folded : 0 < n → ∃ i, m'.image = some i ∧ i.lastIndex = m'.replica.snapshotIndex ∧
    i.lastTerm = m'.replica.snapshotTerm ∧ m'.disk.contents.image = some i ∧
    m'.disk.contents.log = m'.replica.log
  readable : m'.disk.unreadable = m.disk.unreadable
  beating : m'.beating = m.beating
  pending : ∀ i w, m'.pending.get? i = some w → m.pending.get? i = some w ∧
    ∀ e ∈ m.replica.takeCommitted.2, e.index ≠ i

/-- A compaction that does not fail leaves everything as it was, or the image and the log after it
are in memory and on the disk. -/
theorem takeImage_folds {S : Entry → Prop} (h : m.replica.Sourced S) {now : Instant}
    (run : m.takeImage now = .ok (m', none)) :
    m' = m ∨ ∃ n t image tried, 0 < n ∧ n ≤ m.replica.log.length ∧
      m.replica.snapshotIndex + n ≤ m.replica.lastApplied ∧
      image.lastIndex = m.replica.snapshotIndex + n ∧ image.lastTerm = t ∧
      m' = { m with
        replica := { m.replica with
          log := m.replica.log.drop n, snapshotIndex := m.replica.snapshotIndex + n
          snapshotTerm := t }
        image := some image
        disk := { m.disk with
          tried := tried
          contents := { m.disk.contents with
            image := some image, log := m.replica.log.drop n } } } := by
  unfold takeImage at run
  obtain ⟨⟨r, removed⟩, hr, run⟩ := bind_eq_ok.1 run
  rcases h.compact_cases hr with ⟨rfl, rfl⟩ | ⟨hne, n, hpos, hlen, hcovered, rfl⟩
  · cases run
    exact .inl rfl
  · simp only at run
    split at run
    · next hnil => exact absurd (List.isEmpty_iff.1 hnil) hne
    · split at run
      · cases run
      · next m₁ hw =>
        obtain rfl := write_ok hw
        split at run
        · cases run
        · next m₂ hw' =>
          obtain rfl := write_ok hw'
          cases run
          exact .inr ⟨n, _, ⟨Image.fold (m.image.elim [] (·.entries)) removed, _, _, now⟩, _, hpos,
            hlen, hcovered, rfl, rfl, rfl⟩

/-- **Applying that does not fail.** -/
theorem digests_applyCommitted {S : Entry → Prop} (h : m.replica.Sourced S) {now : Instant}
    (run : m.applyCommitted now = .ok (m', none)) : ∃ n, m.Digests m' n := by
  unfold applyCommitted at run
  split at run
  · cases run
  · next m₁ hw =>
    obtain rfl := write_ok hw
    simp only at run
    split at run
    · next hnil =>
      cases run
      exact ⟨0, Nat.zero_le _, nofun, ⟨_, fun _ => rfl, rfl⟩, fun _ => ⟨rfl, rfl⟩, nofun, rfl,
        rfl, fun i w hi => ⟨hi, by rw [List.isEmpty_iff.1 hnil]; nofun⟩⟩
    · split at run
      · cases run
      · next m₂ happ =>
        obtain ⟨m₃, err, happ', hcore, -⟩ := applyAll_cases _ _
        cases happ.symm.trans happ'
        have hr : m₂.replica = m.replica.takeCommitted.1 := (core_eq_iff.1 hcore).1
        have hi : m₂.image = m.image := (core_eq_iff.1 hcore).2.2.2.1
        have hd : m₂.disk = { m.disk with
            tried := m.disk.tried + 1
            contents := { m.disk.contents with commit := m.replica.commitIndex } } :=
          (core_eq_iff.1 hcore).2.1
        obtain ⟨hbeating, hpending⟩ := books_applyAll happ
        simp only at hbeating hpending
        clear happ' hcore happ
        have hstay : m.Digests m₂ 0 := ⟨Nat.zero_le _, nofun, ⟨_, fun _ => rfl, hr⟩,
          fun _ => ⟨hi, by rw [hd]⟩, nofun, by rw [hd], hbeating, hpending⟩
        split at run
        · have hs : m₂.replica.Sourced S := hr ▸ h.congr rfl rfl
          rcases takeImage_folds hs run with rfl | ⟨n, t, image, tried, hpos, hlen, hcovered, hn,
            ht, rfl⟩
          · exact ⟨0, hstay⟩
          · rw [hr] at hlen hcovered hn
            refine ⟨n, hlen, fun _ => hcovered, ⟨t, fun h0 => absurd h0 (by omega), ?_⟩,
              fun h0 => absurd h0 (by omega), fun _ => ⟨image, rfl, ?_, ht, rfl, rfl⟩, ?_,
              hbeating, hpending⟩
            · simp only [hr]
              rfl
            · rw [hr]; exact hn
            · rw [hd]
        · cases run
          exact ⟨0, hstay⟩

/-- A member that applied and goes on did not fail. -/
theorem digests_applyOrHalt {S : Entry → Prop} (h : m.replica.Sourced S) {now : Instant}
    (run : m.applyOrHalt now = .ok m') (up : m'.stopped = false) : ∃ n, m.Digests m' n := by
  unfold applyOrHalt at run
  obtain ⟨⟨m₁, e⟩, happ, run⟩ := bind_eq_ok.1 run
  cases e with
  | none =>
    cases run
    exact digests_applyCommitted h happ
  | some e =>
    cases run
    cases up

/-- A section that goes on after its member has applied, perhaps. -/
theorem digests_settle {S : Entry → Prop} {β : Type} (h : m.replica.Sourced S) {advanced : Bool}
    {now : Instant} {f : Member MemoryDisk → Except Fault β} {b : β}
    (run : (if advanced then m.applyOrHalt now >>= f else f m) = .ok b) :
    ∃ m₁, f m₁ = .ok b ∧ (m₁ = m ∨ (m₁.stopped = false → ∃ n, m.Digests m₁ n)) := by
  split at run
  · obtain ⟨m₁, happ, run⟩ := bind_eq_ok.1 run
    exact ⟨m₁, run, .inr (digests_applyOrHalt h happ)⟩
  · exact ⟨m, run, .inl rfl⟩

/-! ## The stages of a section -/

/-- The image, and what a start reads of the log, are the same. -/
structure SameStore (m m' : Member MemoryDisk) : Prop where
  image : m'.image = m.image
  log : m'.disk.contents.log = m.disk.contents.log
  stored : m'.disk.contents.image = m.disk.contents.image
  readable : m'.disk.unreadable = m.disk.unreadable

theorem SameStore.refl (m : Member MemoryDisk) : SameStore m m := ⟨rfl, rfl, rfl, rfl⟩

theorem SameStore.trans (h : SameStore m m') (h' : SameStore m' m'') : SameStore m m'' :=
  ⟨h'.image.trans h.image, h'.log.trans h.log, h'.stored.trans h.stored,
    h'.readable.trans h.readable⟩

theorem SameStore.of_core (h : m'.core = m.core) : SameStore m m' := by
  obtain ⟨-, hd, -, hi, -⟩ := core_eq_iff.1 h
  exact ⟨hi, by rw [hd], by rw [hd], by rw [hd]⟩

/-- The disk is given the log as its change is reported. -/
def Logs (m m' : Member MemoryDisk) : Option LogChange → Prop
  | none => m'.disk.contents.log = m.disk.contents.log
  | some (.appended start) => ∃ es, m'.replica.entriesFrom start = .ok es ∧
    m'.disk.contents.log = m.disk.contents.log ++ es
  | some .rewritten => m'.disk.contents.log = m'.replica.log

/-- How a section begins that does anything to the replica. -/
inductive Opening (P : Replica → AppendRequest → Prop) (m m' : Member MemoryDisk) : Prop
  /-- The replica takes another part, with the log that it has. -/
  | turns (turn : m.replica.Turns m'.replica) (same : Replica.SameLog m.replica m'.replica)
      (store : SameStore m m') (pending : m'.pending = m.pending)
  /-- A leader puts an entry at the end of its log, in memory and on disk, and somebody waits for
  it. -/
  | enlists (e : Entry) (leads : m.replica.role = .leader)
      (sourced : m'.replica.Sourced Entry.Placeable) (index : e.index = m.replica.lastIndex + 1)
      (term : e.term = m.replica.term)
      (replica : m'.replica = { m.replica with log := m.replica.log ++ [e] })
      (image : m'.image = m.image) (log : m'.disk.contents.log = m.disk.contents.log ++ [e])
      (stored : m'.disk.contents.image = m.disk.contents.image)
      (readable : m'.disk.unreadable = m.disk.unreadable)
      (pending : ∀ i w, m'.pending.get? i = some w →
        i = e.index ∧ w.term = e.term ∨ m.pending.get? i = some w)
  /-- The entries of a request are placed, and what changed is written. -/
  | takes (q : AppendRequest) (o : AppendOutcome) (asked : P m.replica q)
      (run : m.replica.takeEntries q = .ok (m'.replica, o)) (image : m'.image = m.image)
      (logs : Logs m m' o.change) (stored : m'.disk.contents.image = m.disk.contents.image)
      (readable : m'.disk.unreadable = m.disk.unreadable) (pending : m'.pending = m.pending)
  /-- A leader's image takes the place of what it covers. -/
  | images (i : Image) (term : Nat) (leader : NodeId) (new : m.replica.commitIndex < i.lastIndex)
      (rebased : (m.replica.accept term leader).rebase i.lastIndex i.lastTerm = .ok m'.replica)
      (image : m'.image = some i) (stored : m'.disk.contents.image = some i)
      (log : m'.disk.contents.log = m'.replica.log)
      (readable : m'.disk.unreadable = m.disk.unreadable) (pending : m'.pending = m.pending)

/-- A leader commits an entry of its term, or nothing happens. -/
inductive Commits (m m' : Member MemoryDisk) : Prop
  | stays (eq : m' = m)
  | moves (i : Nat) (leads : m.replica.role = .leader) (new : m.replica.commitIndex < i)
      (term : m.replica.termAt i = m.replica.term)
      (eq : m' = { m with replica := { m.replica with commitIndex := i } })

/-- What a section leaves when the member goes on after it. -/
inductive Passage (P : Replica → AppendRequest → Prop) (m m' : Member MemoryDisk) : Prop
  /-- Nothing is done to the replica, and nobody begins to wait. -/
  | quiet (replica : m'.replica = m.replica) (store : SameStore m m')
      (beating : m'.beating = m.beating)
      (pending : ∀ i w, m'.pending.get? i = some w → m.pending.get? i = some w)
  /-- After what it begins with, the section commits and applies, and it ends in line with the
  role. -/
  | ends (a b c : Member MemoryDisk) (opening : Opening P m a) (commits : Commits a b)
      (digests : c = b ∨ ∃ n, b.Digests c n) (core : m'.core = c.finish.core)
      (beating : m'.beating = c.finish.beating) (pending : m'.pending = c.finish.pending)

theorem saveBallot_keeps {r : Replica} {e : Option IoError}
    (run : saveBallot { m with replica := r } = (m', e)) :
    m'.replica = r ∧ SameStore m m' ∧ m'.pending = m.pending := by
  unfold saveBallot at run
  split at run
  · cases run
    exact ⟨rfl, ⟨rfl, rfl, rfl, rfl⟩, rfl⟩
  · split at run <;> cases run <;> next hw =>
      rcases write_cases hw with ⟨-, rfl⟩ | ⟨-, -, rfl⟩ <;> exact ⟨rfl, ⟨rfl, rfl, rfl, rfl⟩, rfl⟩

/-- The rest of the books does not count. -/
theorem Passage.congr {n : Member MemoryDisk} (h : Passage P m n) (core : m'.core = n.core)
    (beating : m'.beating = n.beating) (pending : m'.pending = n.pending) : Passage P m m' := by
  cases h with
  | quiet replica store beating' pending' =>
    exact .quiet ((core_eq_iff.1 core).1.trans replica) (store.trans (.of_core core))
      (beating.trans beating') (pending ▸ pending')
  | ends a b c opening commits digests core' beating' pending' =>
    exact .ends a b c opening commits digests (core.trans core') (beating.trans beating')
      (pending.trans pending')

/-- A section that neither commits nor applies. -/
theorem Passage.of_opening {n : Member MemoryDisk} (opening : Opening P m n)
    (core : m'.core = n.finish.core) (beating : m'.beating = n.finish.beating)
    (pending : m'.pending = n.finish.pending) : Passage P m m' :=
  .ends n n n opening (.stays rfl) (.inl rfl) core beating pending

/-- A section that only turns, and ends in line with the role. -/
theorem Passage.of_turn {r : Replica} {n : Member MemoryDisk} {e : Option IoError}
    (turn : m.replica.Turns r) (same : Replica.SameLog m.replica r)
    (save : saveBallot { m with replica := r } = (n, e)) (core : m'.core = n.finish.core)
    (beating : m'.beating = n.finish.beating) (pending : m'.pending = n.finish.pending) :
    Passage P m m' := by
  obtain ⟨hreplica, hstore, hpending⟩ := saveBallot_keeps save
  exact .of_opening (.turns (hreplica ▸ turn) (hreplica ▸ same) hstore hpending) core beating
    pending

theorem passage_answerVote {q : VoteRequest} {reply : Except ServiceError Message}
    (run : m.answerVote q = (m', reply)) : Passage P m m' := by
  unfold answerVote at run
  cases hr : m.replica.answerVote q with
  | mk r granted =>
    have hturn := Replica.turns_answerVote hr
    have hsame := Replica.sameLog_answerVote hr
    simp only [hr] at run
    split at run
    · next hsave =>
      cases run
      exact .of_turn hturn hsame hsave rfl rfl rfl
    · next hsave =>
      cases run
      refine .of_turn hturn hsame hsave ?_ ?_ ?_ <;> split <;> rfl

theorem passage_campaign {q : Option VoteRequest} (run : m.campaign = .ok (m', q)) :
    Passage P m m' := by
  unfold campaign at run
  split at run
  · cases run
    exact .quiet rfl (.refl m) rfl fun _ _ h => h
  · next hleads =>
    obtain ⟨⟨r, request⟩, hr, run⟩ := bind_eq_ok.1 run
    have hsame := Replica.sameLog_campaign hr
    obtain ⟨-, -, hballot, -⟩ := Replica.campaign_spec hr
    have hrole : m.replica.role ≠ .leader := fun hr => hleads (decide_eq_true hr)
    have hterm : m.replica.term < r.term := by
      rw [show r.term = m.replica.term + 1 from congrArg Ballot.term hballot]
      exact Nat.lt_succ_self _
    simp only at run
    split at run
    · next m₁ _ hsave =>
      -- the vote could not be written, so the member does not stand
      cases run
      obtain ⟨hreplica, hstore, hpending⟩ := saveBallot_keeps hsave
      let a : Member MemoryDisk := { m₁ with replica := m₁.replica.follow m₁.replica.term }
      have hstore' : SameStore m a := ⟨hstore.image, hstore.log, hstore.stored, hstore.readable⟩
      have hsame' : Replica.SameLog m.replica a.replica :=
        (hreplica ▸ hsame).trans (Replica.sameLog_follow ..)
      exact .of_opening (.turns (.follows rfl) hsame' hstore' hpending) rfl rfl rfl
    · next m₁ hsave =>
      cases run
      exact .of_turn (.rises hrole hterm) hsame hsave rfl rfl rfl

theorem passage_countVote {campaign term : Nat} {peer : NodeId} {granted more : Bool}
    (run : m.countVote campaign peer term granted = .ok (m', more)) (up : m'.stopped = false) :
    Passage P m m' := by
  unfold countVote at run
  obtain ⟨⟨r, won⟩, hr, run⟩ := bind_eq_ok.1 run
  simp only at run
  split at run
  · cases run
    cases (halted _ _ _).2.symm.trans up
  · next hsave =>
    cases run
    exact .of_turn (Replica.turns_countVote hr) (Replica.sameLog_countVote hr) hsave rfl rfl rfl

/-- The part of a section after its replica is settled. -/
theorem Passage.of_settle {S : Entry → Prop} {a b : Member MemoryDisk} {advanced : Bool}
    {now : Instant} {β : Type} {f : Member MemoryDisk → Except Fault β} {x : β}
    (opening : Opening P m a) (commits : Commits a b) (h : b.replica.Sourced S)
    (run : (if advanced then b.applyOrHalt now >>= f else f b) = .ok x)
    (hf : ∀ c, f c = .ok x → m' = c.finish) (up : m'.stopped = false) : Passage P m m' := by
  obtain ⟨c, hc, hdigests⟩ := digests_settle h run
  obtain rfl := hf c hc
  refine .ends a b c opening commits (hdigests.imp_right fun h => h ?_) rfl rfl rfl
  exact (gist_eq_iff.1 (gist_finish c)).2.symm.trans up

theorem passage_recordReply (h : m.replica.Sourced Entry.Placeable) {now : Instant} {peer : NodeId}
    {lastSent : Nat} {reply : Message} {more : Bool}
    (run : m.recordReply now peer lastSent reply = .ok (m', more)) (up : m'.stopped = false) :
    Passage P m m' := by
  obtain rfl | ⟨term, success, r, advanced, accepted, -, hr, run⟩ := recordReply_cases run
  · exact .quiet rfl (.refl _) rfl fun _ _ h => h
  unfold recorded at run
  split at run
  · cases run
    cases (halted _ _ _).2.symm.trans up
  · next m₁ hsave =>
    obtain ⟨hreplica, hstore, hpending⟩ := saveBallot_keeps hsave
    -- what is recorded, and what is committed then
    obtain ⟨a, opening, commits⟩ : ∃ a, Opening P m a ∧ Commits a m₁ := by
      have hturn := Replica.turns_recordAppend hr
      have hsame := Replica.sameLog_answered m.replica success peer lastSent
      rcases Replica.recordAppend_spec hr with
        ⟨-, rfl, -⟩ | ⟨rfl, -⟩ | ⟨hrole, -, ⟨-, hadvance⟩ | ⟨-, rfl, -⟩⟩
      · exact ⟨m₁, .turns (hreplica ▸ hturn) (hreplica ▸ Replica.sameLog_follow ..) hstore hpending,
          .stays rfl⟩
      · exact ⟨m₁, .turns (hreplica ▸ hturn) (hreplica ▸ .refl _) hstore hpending, .stays rfl⟩
      · rcases Replica.advanceCommit_spec hadvance with
          ⟨rfl, -⟩ | ⟨-, hrole', i, -, hnew, hterm, rfl⟩
        · exact ⟨m₁, .turns (hreplica ▸ hturn) (hreplica ▸ hsame) hstore hpending, .stays rfl⟩
        · let a : Member MemoryDisk :=
            { m₁ with replica := m.replica.answered success peer lastSent }
          have hstore' : SameStore m a := ⟨hstore.image, hstore.log, hstore.stored, hstore.readable⟩
          refine ⟨a, .turns ?_ hsame hstore' hpending, .moves i hrole' hnew hterm ?_⟩
          · refine .of_sameLog ?_ ?_ hsame <;> simp only [a, Replica.answered] <;> split <;> rfl
          · show m₁ = { m₁ with replica := _ }
            rw [← hreplica]
      · exact ⟨m₁, .turns (hreplica ▸ hturn) (hreplica ▸ hsame) hstore hpending, .stays rfl⟩
    refine .of_settle opening commits (hreplica ▸ h.recordAppend hr) run (fun c hc => ?_) up
    cases hc
    rfl

theorem Begins.books (h : Begins m m') : m'.core = m.core ∧ m'.stopped = m.stopped ∧
    m'.beating = m.beating ∧ m'.pending = m.pending := by
  obtain ⟨_, _, rfl, -⟩ := h
  exact ⟨rfl, rfl, rfl, rfl⟩

/-- Sections that only keep books. -/
theorem Passage.of_books (core : m'.core = m.core) (beating : m'.beating = m.beating)
    (pending : m'.pending = m.pending) : Passage P m m' :=
  (Passage.quiet rfl (.refl m) rfl fun _ _ h => h).congr core beating pending

theorem passage_recordBeat (h : m.replica.Sourced Entry.Placeable) {now : Instant} {peer : NodeId}
    {lastSent : Nat} {reply : Message} (run : m.recordBeat now peer lastSent reply = .ok m')
    (up : m'.stopped = false) : Passage P m m' := by
  obtain ⟨m₁, more, hrecord, hbegins⟩ := recordBeat_cases run
  obtain ⟨hcore, hstopped, hbeating, hpending⟩ := hbegins.books
  exact (passage_recordReply h hrecord (hstopped ▸ up)).congr hcore hbeating hpending

theorem passage_heartbeats {beats : List (NodeId × AppendRequest)}
    (run : m.heartbeats = (m', beats)) : Passage P m m' := by
  obtain ⟨hcore, -, hbeating, hpending⟩ := (begins_heartbeats m).books
  rw [run] at hcore hbeating hpending
  exact .of_books hcore hbeating hpending

theorem passage_dropWaiter (m : Member MemoryDisk) (index : Nat) :
    Passage P m (m.dropWaiter index) := by
  have hquiet := quiet_dropWaiter m index
  refine .quiet hquiet.replica (.of_core hquiet.core) ?_ hquiet.pending
  unfold dropWaiter
  split <;> rfl

/-- A proposal that is registered waits for its entry; who waited there before waits no more. -/
theorem pending_await {i : Nat} {w : Waiter} {j : Nat} {x : Waiter}
    (h : (m.await i w).pending.get? j = some x) :
    j = i ∧ x = w ∨ m.pending.get? j = some x := by
  by_cases hj : j = i
  · subst hj
    simp only [await, Table.get?_insert_self] at h
    exact .inl ⟨rfl, (Option.some.inj h).symm⟩
  · simp only [await, Table.get?_insert_of_ne _ _ hj] at h
    exact .inr ((quiet_dropWaiter m i).pending j x h)

/-- The entry of a proposal is on the disk, and the proposal is registered. -/
theorem Opening.of_await {n : Member MemoryDisk} {e : Entry} {ticket : Nat}
    (leads : m.replica.role = .leader) (sourced : n.replica.Sourced Entry.Placeable)
    (index : e.index = m.replica.lastIndex + 1) (term : e.term = m.replica.term)
    (replica : n.replica = { m.replica with log := m.replica.log ++ [e] })
    (image : n.image = m.image) (disk : n.disk = { m.disk with
      tried := m.disk.tried + 1, contents := m.disk.contents.after (.append [e]) })
    (pending : n.pending = m.pending) : Opening P m (n.await e.index ⟨e.term, ticket⟩) := by
  obtain ⟨hreplica, hdisk, -, himage, -⟩ := core_eq_iff.1 (core_await n e.index ⟨e.term, ticket⟩)
  have hdisk := hdisk.trans disk
  refine .enlists e leads (hreplica ▸ sourced) index term (hreplica.trans replica)
    (himage.trans image) ?_ ?_ ?_ fun i w hi => ?_
  · rw [hdisk]; rfl
  · rw [hdisk]; rfl
  · rw [hdisk]
  · rcases pending_await hi with ⟨rfl, rfl⟩ | hi
    · exact .inl ⟨rfl, rfl⟩
    · exact .inr (pending ▸ hi)

theorem passage_propose (h : m.replica.Sourced Entry.Placeable) {now : Instant}
    {command : Command} {ticket : Nat} {result : Except ServiceError Nat}
    (run : m.propose now command ticket = .ok (m', result)) (up : m'.stopped = false) :
    Passage P m m' := by
  unfold propose at run
  obtain ⟨proposed, hp, run⟩ := bind_eq_ok.1 run
  cases proposed with
  | none =>
    cases run
    exact .of_books rfl rfl rfl
  | some p =>
    obtain ⟨r, e⟩ := p
    obtain ⟨hsourced, hrole, hindex, hterm, rfl⟩ := h.propose hp
    simp only at run
    split at run
    · next hw =>
      cases run
      rcases write_cases hw with ⟨hnone, -⟩ | ⟨-, -, rfl⟩
      · cases hnone
      · exact .quiet rfl ⟨rfl, rfl, rfl, rfl⟩ rfl fun _ _ h => h
    · next m₁ hw =>
      have hm₁ := write_ok hw
      obtain ⟨⟨r', advanced⟩, hadvance, run⟩ := bind_eq_ok.1 run
      let a := Member.await { m₁ with replica := { m.replica with log := m.replica.log ++ [e] } }
        e.index ⟨e.term, ticket⟩
      have hreplica : a.replica = { m.replica with log := m.replica.log ++ [e] } :=
        (core_eq_iff.1 (core_await _ _ _)).1
      have opening : Opening P m a :=
        .of_await hrole hsourced hindex hterm rfl (by rw [hm₁]) (by rw [hm₁]) (by rw [hm₁])
      have commits : Commits a { a with replica := r' } := by
        rcases Replica.advanceCommit_spec hadvance with ⟨rfl, -⟩ | ⟨-, hrole', i, -, hnew, hi, rfl⟩
        · exact .stays rfl
        · exact .moves i hrole' hnew hi rfl
      refine .of_settle opening commits ((hreplica ▸ hsourced).advanceCommit hadvance) run
        (fun c hc => ?_) up
      cases hc
      rfl

/-- The ballot is written, and then what is reported of the log. -/
theorem persistEntries_keeps {r : Replica} {change : Option LogChange}
    (run : persistEntries { m with replica := r } change = .ok (m', none)) :
    m'.replica = r ∧ m'.image = m.image ∧ m'.disk.contents.image = m.disk.contents.image ∧
      m'.disk.unreadable = m.disk.unreadable ∧ m'.pending = m.pending ∧
      Logs m m' change := by
  unfold persistEntries at run
  split at run
  · cases run
  · next m₁ hsave =>
    obtain ⟨hreplica, hstore, hpending⟩ := saveBallot_keeps hsave
    split at run
    · cases run
      exact ⟨hreplica, hstore.image, hstore.stored, hstore.readable, hpending, hstore.log⟩
    · obtain ⟨es, hes, run⟩ := bind_eq_ok.1 run
      obtain rfl := write_ok (Except.ok.inj run)
      refine ⟨hreplica, hstore.image, hstore.stored, hstore.readable, hpending, es, hes, ?_⟩
      rw [← hstore.log]
      rfl
    · obtain rfl := write_ok (Except.ok.inj run)
      exact ⟨hreplica, hstore.image, hstore.stored, hstore.readable, hpending, rfl⟩

theorem exists_noteLeader (m : Member MemoryDisk) (resetTimer : Bool) :
    ∃ outbox, m.noteLeader resetTimer = { m with outbox := outbox } := by
  unfold noteLeader
  split <;> exact ⟨_, rfl⟩

theorem passage_answerAppend (h : m.replica.Sourced Entry.Placeable) {now : Instant}
    {q : AppendRequest} {reply : Except ServiceError Message} (asked : P m.replica q)
    (run : m.answerAppend now q = .ok (m', reply)) (up : m'.stopped = false) : Passage P m m' := by
  unfold answerAppend at run
  obtain ⟨⟨r, o⟩, hr, run⟩ := bind_eq_ok.1 run
  obtain ⟨⟨m₁, e⟩, hpersist, run⟩ := bind_eq_ok.1 run
  cases e with
  | some e =>
    cases run
    cases (halted _ _ _).2.symm.trans up
  | none =>
    obtain ⟨outbox, hnoted⟩ := exists_noteLeader { m with replica := r } o.resetTimer
    rw [hnoted] at hpersist
    obtain ⟨hreplica, himage, hstored, hreadable, hpending, hlogs⟩ :=
      persistEntries_keeps (m := { m with outbox := outbox }) hpersist
    obtain rfl : m₁.replica = r := hreplica
    refine .of_settle (.takes q o asked hr himage ?_ hstored hreadable hpending) (.stays rfl)
      (h.takeAny hr).sourced run (fun c hc => ?_) up
    · revert hlogs
      cases o.change with
      | none => exact id
      | some change => cases change <;> exact id
    · cases hc
      rfl

theorem passage_answerInstall {now : Instant} {q : InstallRequest}
    {reply : Except ServiceError Message} (run : m.answerInstall now q = .ok (m', reply))
    (up : m'.stopped = false) : Passage P m m' := by
  unfold answerInstall at run
  obtain ⟨⟨r, o⟩, hr, run⟩ := bind_eq_ok.1 run
  obtain ⟨outbox, hnoted⟩ := exists_noteLeader { m with replica := r } o.resetTimer
  simp only [hnoted] at run
  split at run
  · cases run
    cases (halted _ _ _).2.symm.trans up
  · next m₁ hpersist =>
    cases run
    unfold persistImage at hpersist
    split at hpersist
    · cases hpersist
    · next m₂ hsave =>
      obtain ⟨hreplica, hstore, hpending⟩ :=
        saveBallot_keeps (m := { m with outbox := outbox }) hsave
      obtain rfl : m₂.replica = r := hreplica
      have hstore' : SameStore m m₂ := ⟨hstore.image, hstore.log, hstore.stored, hstore.readable⟩
      have hturn := Replica.turns_takeImage hr
      split at hpersist
      · next hinstalled =>
        rcases takeImage_cases hr with ⟨-, -, ho⟩ | ⟨-, -, -, ho⟩ | ⟨-, hnew, hrebase, -⟩
        · cases ho.symm.trans hinstalled
        · cases ho.symm.trans hinstalled
        · obtain ⟨-, n, hm₁⟩ := (install_cases hpersist).resolve_right fun hne => hne.1 rfl
          refine .of_opening (.images ⟨q.entries, q.lastIndex, q.lastTerm, now⟩ q.term q.leader
            hnew ?_ ?_ ?_ ?_ ?_ ?_) rfl rfl rfl <;> rw [hm₁]
          · exact hrebase
          · exact hstore.readable
          · exact hpending
      · next hnot =>
        cases hpersist
        have hsame : Replica.SameLog m.replica m₁.replica := by
          rcases takeImage_cases hr with ⟨-, hr', -⟩ | ⟨-, -, hr', -⟩ | ⟨-, -, -, ho⟩
          · exact hr' ▸ .refl _
          · exact hr' ▸ Replica.sameLog_accept ..
          · exact absurd ho hnot
        exact .of_opening (.turns hturn hsame hstore' hpending) rfl rfl rfl

/-- **What a section leaves**, if the member goes on after it. -/
theorem Section.passage (h : Section P m m') (hm : m.replica.Sourced Entry.Placeable)
    (up : m'.stopped = false) : Passage P m m' := by
  cases h with
  | timeout run => exact passage_campaign run
  | answerVote run => exact passage_answerVote run
  | answerAppend asked run => exact passage_answerAppend hm asked run up
  | answerInstall run => exact passage_answerInstall run up
  | countVote _ run => exact passage_countVote run up
  | recordReply _ run => exact passage_recordReply hm run up
  | recordBeat _ run => exact passage_recordBeat hm run up
  | propose run => exact passage_propose hm run up
  | beat run => exact passage_heartbeats run
  | caughtUp => exact .of_books rfl rfl rfl
  | giveUp => exact passage_dropWaiter m _
  | shutDown =>
    have hstopped := (gist_eq_iff.1 (gist_stopHeartbeat { m with stopped := true })).2
    cases hstopped.symm.trans up

end Member

end ReplicatedStore
