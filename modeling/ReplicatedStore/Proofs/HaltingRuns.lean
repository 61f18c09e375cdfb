import ReplicatedStore.Proofs.ElectionSafety
/-!
# Runs in which a member that halts rests

Any write may fail. A member that halted takes no further step: its disk waits for the next start.
(`Step` also lets sections go on that were under way when their member halted.)

A shutdown on request is no failure, and sections that are under way then may still end.
-/
namespace ReplicatedStore

/-- What can happen at a node whose member rests once it has halted. -/
inductive HaltingStep (c : Conditions) (v : NodeId) : World → World → Prop
  /-- A section, and no compaction that failed: the section that compacts halts the member then. -/
  | act {w m d} (up : w.sites v = .up m) (running : m.stopped = false) (act : Act c w v m d)
      (whole : ∀ now e, m.takeImage now ≠ .ok (d.member, some e)) : HaltingStep c v w (w.after v d)
  /-- A shutdown on request. What is under way goes on, and may even be answered. -/
  | shutDown {w m} (up : w.sites v = .up m) (running : m.stopped = false) :
      HaltingStep c v w (w.after v { member := { m.shutDown with stopped := false } })
  | start {w d peers config now m} (down : w.sites v = .down d)
      (member : (v :: peers).Perm c.members)
      (run : Member.start ⟨v, peers, config⟩ d now = .ok (.ok m)) :
      HaltingStep c v w (w.after v { member := m })
  | failToStart {w d peers config now e d'} (down : w.sites v = .down d)
      (member : (v :: peers).Perm c.members)
      (run : Member.start ⟨v, peers, config⟩ d now = .ok (.error (e, d'))) :
      HaltingStep c v w (w.resting v d')
  | stop {w m} (up : w.sites v = .up m) : HaltingStep c v w (w.resting v m.disk)
  | hear {w ticket call o} (made : w.calls ticket = some call) (node : call.node = v)
      (waiting : call.proposal.barrier = none) : HaltingStep c v w (w.informed ticket call o)

/-- Any number of steps. -/
def HaltingRun (c : Conditions) : World → World → Prop :=
  Relation.ReflTransGen fun w w' => ∃ v, HaltingStep c v w w'

/-- A run from empty disks leads here. -/
def HaltingReachable (c : Conditions) (w : World) : Prop := HaltingRun c (.initial c) w

/-- No compaction of a member fails whose image can be saved at any time. -/
theorem Member.whole_of_saves {m m' : Member MemoryDisk}
    (hsaves : ∀ now, ∃ d, m.takeImage now = .ok (d, none)) (now : Instant) (e : ServiceError) :
    m.takeImage now ≠ .ok (m', some e) := by
  intro hrefused
  obtain ⟨d, hsaved⟩ := hsaves now
  cases hsaved.symm.trans hrefused

theorem HaltingReachable.tail {c : Conditions} {w w' : World} (h : HaltingReachable c w)
    (hstep : ∃ v, HaltingStep c v w w') : HaltingReachable c w' :=
  Relation.ReflTransGen.tail h hstep

/-- A run goes on with a section, when the member's image can be saved at any time. -/
theorem HaltingReachable.act {c : Conditions} {w : World} (h : HaltingReachable c w) (v : NodeId)
    {m : Member MemoryDisk} {d : Deed} (up : w.sites v = .up m) (running : m.stopped = false)
    (act : Act c w v m d) (hsaves : ∀ now, ∃ m', m.takeImage now = .ok (m', none)) :
    HaltingReachable c (w.after v d) :=
  h.tail ⟨v, .act up running act (Member.whole_of_saves hsaves)⟩

/-- Elections stay in order. -/
theorem Elections.haltingStep {c : Conditions} {P : NodeId → Ballot → Prop} {w w' : World}
    {v : NodeId} (h : Elections c P w) (hstep : HaltingStep c v w w') :
    ∃ P', (∀ u b, P u b → P' u b) ∧ Elections c P' w' := by
  cases hstep with
  | act up _ act _ => exact ⟨_, fun _ _ => .inl, h.act up act⟩
  | @shutDown m up _ =>
    have hs : Member.standing { m.shutDown with stopped := false } = m.standing :=
      (Member.standing_of_quiet (Member.quiet_shutDown m) :)
    exact ⟨_, fun _ _ => .inl, h.heeds up (.of_standing (h.sworn v m up).1 hs) nofun nofun nofun⟩
  | start down member run => exact h.step (.start down member run)
  | failToStart down member run => exact h.step (.failToStart down member run)
  | stop up => exact h.step (.stop up)
  | hear made node waiting => exact h.step (.hear made node waiting)

end ReplicatedStore
