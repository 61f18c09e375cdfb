import ReplicatedStore.Proofs.Executing
/-!
# Members that nothing stops

A hale member runs, and its disk takes all writes. A section then has only one way to halt it: what
it commits cannot be executed. So a section leaves the member hale if all that it comes to execute
`Goes`, but for a shutdown (`Act.hale`).
-/
namespace ReplicatedStore

namespace Member

/-- The member runs, and its disk takes all writes. -/
structure Hale (m : Member MemoryDisk) : Prop where
  running : m.stopped = false
  writes : ∀ n w, m.disk.fails n w = false

/-- What is committed is executed, whenever that is, and the member stays hale. -/
def Goes (m : Member MemoryDisk) : Prop :=
  ∀ now, ∃ m', m.applyCommitted now = .ok (m', none) ∧ m'.Hale

namespace Hale

variable {m m' : Member MemoryDisk}

/-! ## Pieces of sections -/

theorem of_gist (h : m.Hale) (hg : m'.gist = m.gist) : m'.Hale := by
  obtain ⟨hcore, hstopped⟩ := gist_eq_iff.1 hg
  exact ⟨hstopped.trans h.running, by rw [(core_eq_iff.1 hcore).2.1]; exact h.writes⟩

theorem finish (h : m.Hale) : m.finish.Hale := h.of_gist (gist_finish m)

/-- Nobody looks at the replica. -/
theorem withReplica (h : m.Hale) (r : Replica) :
    (show Member MemoryDisk from { m with replica := r }).Hale := ⟨h.running, h.writes⟩

theorem emit (h : m.Hale) (effect : Effect) : (m.emit effect).Hale := ⟨h.running, h.writes⟩

/-- On a disk that takes all writes there are no errors. -/
theorem of_writes (h : m.Hale) {e : Option IoError} (hw : Writes m m' e) : e = none ∧ m'.Hale := by
  obtain ⟨⟨_, _, _, rfl⟩, hfailed⟩ := hw
  refine ⟨?_, h.running, h.writes⟩
  by_contra hne
  obtain ⟨n, w, hfails⟩ := hfailed hne
  cases (h.writes n w).symm.trans hfails

theorem takeImage (h : m.Hale) {now : Instant} {e : Option ServiceError}
    (run : m.takeImage now = .ok (m', e)) : m'.Hale := by
  obtain ⟨r, removed, -, ⟨-, rfl⟩ | ⟨n, image, -, -, rfl | ⟨-, contents, rfl, -⟩⟩⟩ :=
    compaction_cases run <;> exact ⟨h.running, h.writes⟩

theorem persistImage (h : m.Hale) {installed : Bool} {image : Image} {e : Option IoError}
    (run : m.persistImage installed image = (m', e)) : e = none ∧ m'.Hale := by
  obtain ⟨machine, latest, hw⟩ := writes_persistImage run
  have h₁ : (show Member MemoryDisk from { m with machine := machine, image := latest }).Hale :=
    ⟨h.running, h.writes⟩
  exact h₁.of_writes hw

/-- What is committed is executed, perhaps, before the rest of the section. -/
theorem settle {β : Type} (h : m.Hale) {advanced : Bool} (hgoes : advanced = true → m.Goes)
    {now : Instant} {f : Member MemoryDisk → Except Fault β} {b : β}
    (run : (if advanced then m.applyOrHalt now >>= f else f m) = .ok b) :
    ∃ m₁, m₁.Hale ∧ f m₁ = .ok b := by
  split at run
  · next hadvanced =>
    obtain ⟨m₁, happ, h₁⟩ := hgoes hadvanced now
    obtain ⟨m₂, hm₂, run⟩ := bind_eq_ok.1 run
    unfold applyOrHalt at hm₂
    rw [happ] at hm₂
    cases hm₂
    exact ⟨m₁, h₁, run⟩
  · exact ⟨m, h, run⟩

/-! ## Sections -/

theorem campaign (h : m.Hale) {q : Option VoteRequest} (run : m.campaign = .ok (m', q)) :
    m'.Hale := by
  unfold Member.campaign at run
  split at run
  · cases run
    exact h
  · obtain ⟨⟨r, request⟩, -, run⟩ := bind_eq_ok.1 run
    have h₁ := h.withReplica r
    simp only at run
    split at run
    · next hsave => cases (h₁.of_writes (writes_saveBallot hsave)).1
    · next hsave =>
      cases run
      exact (h₁.of_writes (writes_saveBallot hsave)).2.finish

theorem answerVote (h : m.Hale) {q : VoteRequest} {reply : Except ServiceError Message}
    (run : m.answerVote q = (m', reply)) : m'.Hale := by
  unfold Member.answerVote at run
  have h₁ := h.withReplica (m.replica.answerVote q).1
  simp only at run
  split at run
  · next hsave => cases (h₁.of_writes (writes_saveBallot hsave)).1
  · next hsave =>
    cases run
    have h₂ := (h₁.of_writes (writes_saveBallot hsave)).2.finish
    split
    · exact h₂.emit _
    · exact h₂

theorem countVote (h : m.Hale) {campaign term : Nat} {peer : NodeId} {granted more : Bool}
    (run : m.countVote campaign peer term granted = .ok (m', more)) : m'.Hale := by
  unfold Member.countVote at run
  obtain ⟨⟨r, won⟩, -, run⟩ := bind_eq_ok.1 run
  have h₁ := h.withReplica r
  simp only at run
  split at run
  · next hsave => cases (h₁.of_writes (writes_saveBallot hsave)).1
  · next hsave =>
    cases run
    exact (h₁.of_writes (writes_saveBallot hsave)).2.finish

theorem answerAppend (h : m.Hale) {now : Instant} {q : AppendRequest}
    {reply : Except ServiceError Message} (run : m.answerAppend now q = .ok (m', reply))
    (hgoes : ∀ r o m₀, m.replica.takeEntries q = .ok (r, o) →
      (Member.noteLeader { m with replica := r } o.resetTimer).persistEntries o.change =
        .ok (m₀, none) → o.commitAdvanced = true → m₀.Goes) : m'.Hale := by
  unfold Member.answerAppend at run
  obtain ⟨⟨r, o⟩, hr, run⟩ := bind_eq_ok.1 run
  obtain ⟨⟨m₁, e⟩, hm₁, run⟩ := bind_eq_ok.1 run
  have hnoted := (h.withReplica r).of_gist (gist_noteLeader _ o.resetTimer)
  obtain ⟨rfl, h₁⟩ := hnoted.of_writes (writes_persistEntries hm₁)
  obtain ⟨m₂, h₂, run⟩ := h₁.settle (hgoes r o m₁ hr hm₁) run
  cases run
  exact h₂.finish

theorem answerInstall (h : m.Hale) {now : Instant} {q : InstallRequest}
    {reply : Except ServiceError Message} (run : m.answerInstall now q = .ok (m', reply)) :
    m'.Hale := by
  unfold Member.answerInstall at run
  obtain ⟨⟨r, o⟩, -, run⟩ := bind_eq_ok.1 run
  have h₁ := (h.withReplica r).of_gist (gist_noteLeader _ o.resetTimer)
  simp only at run
  split at run
  · next hpersist => cases (h₁.persistImage hpersist).1
  · next hpersist =>
    cases run
    exact (h₁.persistImage hpersist).2.finish

theorem recordReply (h : m.Hale) {now : Instant} {peer : NodeId} {lastSent : Nat}
    {reply : Message} {more : Bool}
    (run : m.recordReply now peer lastSent reply = .ok (m', more))
    (hgoes : ∀ term success r m₀,
      (reply = .appendReply term success ∨ reply = .installReply term ∧ success = true) →
      m.replica.recordAppend term success peer lastSent = .ok (r, true) →
      Member.saveBallot { m with replica := r } = (m₀, none) → m₀.Goes) : m'.Hale := by
  obtain rfl | ⟨term, success, r, advanced, accepted, hkind, hr, run⟩ := recordReply_cases run
  · exact h
  · unfold recorded at run
    split at run
    · next hsave => cases ((h.withReplica r).of_writes (writes_saveBallot hsave)).1
    · next m₁ hsave =>
      obtain ⟨m₂, h₂, run⟩ := ((h.withReplica r).of_writes (writes_saveBallot hsave)).2.settle
        (fun hadvanced => hgoes term success r m₁ hkind (hadvanced ▸ hr) hsave) run
      cases run
      exact h₂.finish

theorem recordBeat (h : m.Hale) {now : Instant} {peer : NodeId} {lastSent : Nat}
    {reply : Message} (run : m.recordBeat now peer lastSent reply = .ok m')
    (hgoes : ∀ term success r m₀,
      (reply = .appendReply term success ∨ reply = .installReply term ∧ success = true) →
      m.replica.recordAppend term success peer lastSent = .ok (r, true) →
      Member.saveBallot { m with replica := r } = (m₀, none) → m₀.Goes) : m'.Hale := by
  obtain ⟨m₁, more, hm₁, hbegins⟩ := recordBeat_cases run
  exact (h.recordReply hm₁ hgoes).of_gist hbegins.gist

theorem propose (h : m.Hale) {now : Instant} {command : Command} {ticket : Nat}
    {result : Except ServiceError Nat} (run : m.propose now command ticket = .ok (m', result))
    (hgoes : ∀ r e m₀ r', m.replica.propose command = .ok (some (r, e)) →
      m.write (.append [e]) = (m₀, none) →
      (Member.await { m₀ with replica := r } e.index ⟨e.term, ticket⟩).replica.advanceCommit =
        .ok (r', true) →
      Goes { Member.await { m₀ with replica := r } e.index ⟨e.term, ticket⟩ with replica := r' }) :
    m'.Hale := by
  unfold Member.propose at run
  obtain ⟨proposed, hp, run⟩ := bind_eq_ok.1 run
  cases proposed with
  | none =>
    cases run
    exact h
  | some p =>
    obtain ⟨r, e⟩ := p
    simp only at run
    split at run
    · next hw => cases (h.of_writes (writes_write hw)).1
    · next m₁ hw =>
      obtain ⟨⟨r', advanced⟩, hadv, run⟩ := bind_eq_ok.1 run
      have h₁ := ((h.of_writes (writes_write hw)).2.withReplica r).of_gist
        (gist_await _ e.index ⟨e.term, ticket⟩)
      obtain ⟨m₂, h₂, run⟩ := (h₁.withReplica r').settle
        (fun hadvanced => hgoes r e m₁ r' hp hw (hadvanced ▸ hadv)) run
      cases run
      exact h₂.finish

end Hale

end Member

/-- **A section leaves the member hale**, or it is a shutdown. -/
theorem Act.hale {c : Conditions} {w : World} {v : NodeId} {m : Member MemoryDisk} {d : Deed}
    (act : Act c w v m d) (up : w.sites v = .up m) (h : m.Hale)
    (hgoes : ∀ m₀, w.Applies c v m₀ → m₀.Goes) : d.member.Hale ∨ d.member = m.shutDown := by
  cases act with
  | shutDown => exact .inr rfl
  | timeout run => exact .inl (h.campaign run)
  | answerVote _ _ _ run => exact .inl (h.answerVote run)
  | answerAppend sent here body run =>
    exact .inl (h.answerAppend run fun _ _ _ hr hpersist hadvanced =>
      hgoes _ (.following up h.running sent here body hr hpersist hadvanced))
  | answerInstall _ _ _ run => exact .inl (h.answerInstall run)
  | countVote _ _ _ run => exact .inl (h.countVote run)
  | recordReply replied here covered run =>
    exact .inl (h.recordReply run fun _ _ _ _ hkind hr hsave =>
      hgoes _ (.recording up h.running replied here covered hkind hr hsave))
  | recordBeat replied here covered run =>
    exact .inl (h.recordBeat run fun _ _ _ _ hkind hr hsave =>
      hgoes _ (.recording up h.running replied here covered hkind hr hsave))
  | propose admitted _ run =>
    exact .inl (h.propose run fun _ _ _ _ hp hw hadv =>
      hgoes _ (.proposing up h.running admitted hp hw hadv))
  | fetch _ _ => exact .inl h
  | beat run =>
    have hg := (Member.begins_heartbeats m).gist
    rw [run] at hg
    exact .inl (h.of_gist hg)
  | caughtUp => exact .inl ⟨h.running, h.writes⟩
  | @giveUp index => exact .inl (h.of_gist (Member.gist_dropWaiter m index))
  | compact run => exact .inl (h.takeImage run)

end ReplicatedStore
