import ReplicatedStore.Proofs.RecordedRuns
/-!
# State machine safety

All members commit and execute one history (`state_machine_safety`). It only grows, every leader
has what was committed in its term or before, and how far a node has come decides its contents:
whether it executed the entries, was sent an image of them or read them back from its disk.
-/
namespace ReplicatedStore

open History

namespace Site

/-- The log, or what was compacted of it, reaches up to a position, and the log holds the entries
of the history there. -/
structure Covers (s : Site) (x : History) (n : Nat) : Prop where
  reached : n ≤ s.lastIndex
  entries : ∀ i, s.base < i → i ≤ n → s.entryAt? i = x[i - 1]?

variable {s s' : Site} {x y : History}

theorem Bears.covers {p : History} (h : s.Bears y) (hy : p <+: y) (hx : p <+: x) :
    s.Covers x p.length := by
  refine ⟨h.lastIndex_eq ▸ hy.length_le, fun i hi hle => ?_⟩
  rw [h.entryAt?_eq hi, ← getElem?_of_isPrefix hy (by omega), getElem?_of_isPrefix hx (by omega)]

namespace Follows

/-- What a site holds of what it has committed is of the history. -/
theorem getElem? (h : s.Follows x) {i : Nat} {e : Entry} (hi : i ≤ s.commit)
    (he : s.entryAt? i = some e) : x[i - 1]? = some e := by
  have hbase : s.base < i := by
    by_contra hle
    rw [entryAt?_of_le (Nat.le_of_not_lt hle)] at he
    cases he
  rw [← h.entries i hbase hi, he]

theorem entry_eq (h : s.Follows x) (h' : s'.Follows y) (hxy : x <+: y) {i : Nat} {e e' : Entry}
    (hi : i ≤ s.commit) (hi' : i ≤ s'.commit) (he : s.entryAt? i = some e)
    (he' : s'.entryAt? i = some e') : e = e' := by
  have hget := getElem?_mono hxy (h.getElem? hi he)
  rw [h'.getElem? hi' he'] at hget
  exact (Option.some.inj hget).symm

theorem machine_eq {m m' : Member MemoryDisk} (h : (up m).Follows x) (h' : (up m').Follows y)
    (hxy : x <+: y) (heq : m.replica.lastApplied = m'.replica.lastApplied) :
    m.machine = m'.machine := by
  obtain ⟨-, hle, hm⟩ := h.applied m rfl
  obtain ⟨-, -, hm'⟩ := h'.applied m' rfl
  have hlen : m.replica.lastApplied ≤ x.length := Nat.le_trans hle h.bounded
  rw [hm, hm', take_of_isPrefix hxy hlen, heq]

end Follows

end Site

/-- What two moments of a run have in common, the second after the first, when `x` and `x'` are
what was committed until then. -/
structure World.Agree (c : Conditions) (w w' : World) (x x' : History) : Prop where
  grows : x <+: x'
  before : ∀ v ∈ c.members, (w.sites v).Follows x
  after : ∀ v ∈ c.members, (w'.sites v).Follows x'
  /-- What a node had committed, every leader of its term or a later one has. The term is that of
  the node: an entry may be older, and leaders elected before it was committed may lack it. -/
  leaders : ∀ u ∈ c.members, ∀ v term, w'.Leads v term → (w.sites u).term ≤ term →
    (w'.sites v).Covers x (w.sites u).commit
  /-- No two nodes hold different entries at a position that both have committed. -/
  entries : ∀ u ∈ c.members, ∀ v ∈ c.members, ∀ i e e', i ≤ (w.sites u).commit →
    i ≤ (w'.sites v).commit → (w.sites u).entryAt? i = some e →
      (w'.sites v).entryAt? i = some e' → e = e'
  /-- Nothing is committed beyond the end of a log. -/
  reached : ∀ v, (w'.sites v).commit ≤ (w'.sites v).lastIndex
  /-- Nodes that have applied equally much have equal contents. -/
  contents : ∀ u v m m', w.sites u = .up m → w'.sites v = .up m' →
    m.replica.lastApplied = m'.replica.lastApplied → m.machine = m'.machine

/-- **State machine safety.** No write fails, and every put that is proposed carries a value. At
any two moments of a run, what is committed and what is executed is of one history. -/
theorem state_machine_safety {c : Conditions} {w w' : World} (hc : c.Reliable) (hv : c.Valued)
    (h : Reachable c w) (h' : Run c w w') : ∃ x x', w.Agree c w' x x' := by
  obtain ⟨P, H, P', H', hrec, hlater, hrec'⟩ := Chronicle.Reachable.recorded hc h h'
  obtain ⟨t, x, hx, -, hall⟩ := hrec.exists_followed hv (t := 0) (.inl rfl)
  obtain ⟨t', x', -, hxx', hall'⟩ := hrec'.exists_followed hv (hlater.fixed t x hx)
  have hmember : ∀ v m, w.sites v = .up m → v ∈ c.members :=
    fun v m up => (hrec.elections.sworn v m up).2
  have hmember' : ∀ v m, w'.sites v = .up m → v ∈ c.members :=
    fun v m up => (hrec'.elections.sworn v m up).2
  refine ⟨x, x', hxx', fun v hv => (hall v hv).2, fun v hv => (hall' v hv).2, ?_, ?_, ?_, ?_⟩
  · intro u hu v term hl hle
    obtain ⟨R, hR, hlog⟩ := hrec'.leads hl
    rw [hrec.term_eq] at hle
    -- the leader has what was fixed up to its term
    have hfixed := hlater.fixed _ _ (hrec.sound.upright u).fixed
    have hp := hrec'.sound.fixed_reign hfixed hle hR
    have hcovers := (hrec'.bears v).covers (hlog ▸ hp) (hall u hu).1
    rwa [List.length_take_of_le (hrec.sound.upright u).bounded, ← hrec.commit_eq] at hcovers
  · intro u hu v hv i e e' hi hi' he he'
    exact (hall u hu).2.entry_eq (hall' v hv).2 hxx' hi hi' he he'
  · intro v
    rw [(hrec'.bears v).lastIndex_eq]
    exact (hrec'.bears v).commit_le
  · intro u v m m' up up' heq
    have hf := (hall u (hmember u m up)).2
    have hf' := (hall' v (hmember' v m' up')).2
    rw [up] at hf
    rw [up'] at hf'
    exact hf.machine_eq hf' hxx' heq

/-- Node 1 of `Duo` has compacted the entry and leads, when node 2 executes it. -/
theorem state_machine_safety_duo : ∃ w w' x x', Duo.conditions.Reliable ∧ Duo.conditions.Valued ∧
    Reachable Duo.conditions w ∧ Run Duo.conditions w w' ∧ (w.sites 1).commit = 1 ∧
    (w.sites 2).commit = 0 ∧ (w'.sites 2).commit = 1 ∧ w'.Leads 1 1 ∧
    w.Agree Duo.conditions w' x x' := by
  obtain ⟨w, w', h, h', hcompacted, hholder, hcompacted', hfollower, -⟩ := Duo.exists_acknowledged
  obtain ⟨x, x', hagree⟩ := state_machine_safety Duo.reliable Duo.valued h h'
  refine ⟨w, w', x, x', Duo.reliable, Duo.valued, h, h', ?_, ?_, ?_, ?_, hagree⟩
  · rw [hcompacted]
    rfl
  · rw [hholder]
    rfl
  · rw [hfollower]
    rfl
  · exact ⟨_, hcompacted', rfl, rfl⟩

end ReplicatedStore
