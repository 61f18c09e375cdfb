import ReplicatedStore.Proofs.EnduranceSteps
/-!
# Runs in which writes fail

Every halting run has a chronicle (`HaltingReachable.endures`), whatever writes fail in it. A node
that starts has what its disk yields, and one that stops or fails to start leaves it there.
-/
namespace ReplicatedStore

open History

variable {c : Conditions} {w w' : World} {v : NodeId}

namespace Chronicle

variable {H H' : Chronicle} {P P' : NodeId → Ballot → Prop}

namespace Endures

theorem start (h : H.Endures c P w) {d : MemoryDisk} (down : w.sites v = .down d)
    {peers : List NodeId} {config : Config} {now : Instant} {m : Member MemoryDisk}
    (member : (v :: peers).Perm c.members)
    (run : Member.start ⟨v, peers, config⟩ d now = .ok (.ok m))
    (he : Elections c P' (w.after v { member := m })) (hmono : ∀ u b, P u b → P' u b) :
    H.Endures c P' (w.after v { member := m }) := by
  obtain ⟨f, hstores⟩ := h.down v d down
  obtain ⟨-, -, hrole⟩ := Member.sworn_start member run
  obtain ⟨hfirm, hcommit, hsaved, -, hleaves, hsettings, hvalid, -⟩ :=
    Member.firm_start hstores.yields hstores.readable run
  have hpost : H.Post c.members v m.replica f := .of_follower hrole
  refine h.becomes he hmono (.refl v H) h.sound
    ⟨f, .of_leaves hleaves hstores.grafted hstores.fixed ?_, fun _ =>
      ⟨hfirm, hpost, hsettings ▸ hvalid⟩⟩ nofun nofun rfl
  rw [hfirm.stored, hsaved]
  exact hstores.term

/-- A node is down, and its disk yields what it did. -/
theorem resting (h : H.Endures c P w) {d : MemoryDisk} (he : Elections c P' (w.resting v d))
    (hmono : ∀ u b, P u b → P' u b) {f : History} (hd : H.Stores c.members v d f) :
    H.Endures c P' (w.resting v d) where
  elections := he
  sound := h.sound
  up u m up := h.up u m (World.up_resting up).2
  down u d' down := by
    obtain ⟨rfl, rfl⟩ | ⟨-, down⟩ := World.down_resting down
    · exact ⟨f, hd⟩
    · exact h.down u d' down
  told := h.told
  answered := h.answered
  crowned t R hR := by
    obtain ⟨Q, hQ, hmaj⟩ := h.crowned t R hR
    exact ⟨Q, hQ.mono hmono, hmaj⟩
  fits := h.fits

/-- **One step.** -/
theorem step (h : H.Endures c P w) (hstep : HaltingStep c v w w') :
    ∃ P' H', Endures H' c P' w' := by
  obtain ⟨P', hmono, he⟩ := h.elections.haltingStep hstep
  cases hstep with
  | act up running act whole =>
    obtain ⟨H', h'⟩ := h.act up running act whole he hmono
    exact ⟨P', H', h'⟩
  | @shutDown m up running =>
    obtain ⟨f, hruns⟩ := (h.up v m up).runs running
    obtain ⟨H', h'⟩ := h.still he hmono hruns (Member.quiet_shutDown m).core nofun rfl
    exact ⟨P', H', h'⟩
  | start down member run => exact ⟨P', H, h.start down member run he hmono⟩
  | @failToStart d _ _ _ _ d' down member run =>
    obtain ⟨f, hstores⟩ := h.down v d down
    have hleaves := Member.leaves_start_error hstores.yields hstores.readable run
    have hballot := Member.stored_start_error run
    exact ⟨P', H, h.resting he hmono (.of_leaves hleaves hstores.grafted hstores.fixed
      ((congrArg Ballot.term hballot).trans hstores.term))⟩
  | @stop m up =>
    obtain ⟨f, hstores, -⟩ := h.up v m up
    exact ⟨P', H, h.resting he hmono hstores⟩
  | hear made node waiting =>
    refine ⟨P', H, he, h.sound, h.up, h.down, h.told, h.answered, fun t R hR => ?_, h.fits⟩
    obtain ⟨Q, hQ, hmaj⟩ := h.crowned t R hR
    exact ⟨Q, hQ.mono hmono, hmaj⟩

end Endures

end Chronicle

/-- **Every halting run has a chronicle.** -/
theorem HaltingReachable.endures (h : HaltingReachable c w) :
    ∃ P H, Chronicle.Endures H c P w := by
  induction h with
  | refl => exact ⟨_, _, .initial c⟩
  | tail _ hstep ih =>
    obtain ⟨P, H, h⟩ := ih
    obtain ⟨v, hstep⟩ := hstep
    exact h.step hstep

end ReplicatedStore
