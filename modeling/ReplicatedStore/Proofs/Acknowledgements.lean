import ReplicatedStore.Proofs.RecordedRuns
/-!
# Acknowledgements

A call that returns a result returns that of its own entry, which is committed for good
(`acknowledgement_soundness`).

The answer travels through a waiter that is filed under a position, and the entry there may have
been replaced. It is given only if the entry that is applied has the term of the waiter; an entry
of that term and position is the one that the leader of the term made for the call
(`Chronicle.Clients.settled`). So the result is known to be right when it is given, and here it is
only read off.
-/
namespace ReplicatedStore

open History

/-- The entry of a call at a node has its place for good in the history that all members follow. -/
structure World.Settles (c : Conditions) (w : World) (ticket : Nat) (v : NodeId) (e : Entry)
    (x : History) : Prop where
  follows : ∀ u ∈ c.members, (w.sites u).Follows x
  positive : 0 < e.index
  placed : ∀ k, x[k]? = some e ↔ k + 1 = e.index
  /-- No log holds the entry at another position. -/
  once : ∀ u i, (w.sites u).entryAt? i = some e → i = e.index
  /-- No other call made the entry. -/
  own : ∀ ticket' call, w.calls ticket' = some call → call.entry = some e → ticket' = ticket
  committed : e.index ≤ (w.sites v).commit
  /-- Whoever has applied so much has applied the entry, and no other in its place: it is in the
  log, or below the base of an image of the same history. -/
  applied : ∀ u m, w.sites u = .up m → e.index ≤ m.replica.lastApplied →
    (m.replica.snapshotIndex < e.index → m.replica.entryAt? e.index = some e) ∧
      (x.take m.replica.lastApplied)[e.index - 1]? = some e ∧
      m.machine = Image.restore (x.take m.replica.lastApplied)

namespace Chronicle

variable {H : Chronicle} {c : Conditions} {P : NodeId → Ballot → Prop} {w : World} {v : NodeId}

/-- What is settled in a world can be read off the chronicle. -/
theorem Records.settles (h : H.Records c P w) {ticket t : Nat} {e : Entry} {x : History}
    {call : ClientCall} (hcall : w.calls ticket = some call) (he : call.entry = some e)
    (hx : H.Fixed c.members t x) (hfollows : ∀ u ∈ c.members, (w.sites u).Follows x)
    (hpos : 0 < e.index) (hget : x[e.index - 1]? = some e) (hcommit : e.index ≤ H.commit v) :
    w.Settles c ticket v e x where
  follows := hfollows
  positive := hpos
  placed k := by
    constructor
    · intro hk
      exact ((h.sound.sane_of_fixed hx).index k e hk).symm
    · intro hk
      rwa [show k = e.index - 1 by omega]
  once u i hi := by
    obtain ⟨hlt, hgeti⟩ := (h.bears u).entryAt? hi
    have hindex := (h.bears u).sane.index _ e hgeti
    omega
  own ticket' call' hcall' he' := h.clients.distinct _ _ call' call e hcall' hcall he' he
  committed := h.commit_eq v ▸ hcommit
  applied u m up hle := by
    have hf := hfollows u (h.elections.sworn u m up).2
    rw [up] at hf
    obtain ⟨-, happlied, hmachine⟩ := hf.applied m rfl
    refine ⟨fun hbase => ?_, ?_, hmachine⟩
    · exact (hf.entries _ hbase (Nat.le_trans hle happlied)).trans hget
    · rw [List.getElem?_take_of_lt (by omega), hget]

end Chronicle

/-- **Acknowledgement soundness.** No write fails, and every put that is proposed carries a value.
When a call returns a result, its entry is committed, has its place in the history of all members
now and later on, and the result is what executing that history up to the entry gives for it. -/
theorem acknowledgement_soundness {c : Conditions} {w : World} (hc : c.Reliable) (hv : c.Valued)
    (h : Reachable c w) {ticket : Nat} {call : ClientCall} {a : Answer}
    (hcall : w.calls ticket = some call) (ha : call.proposal.result? = some (.ok a)) :
    ∃ e x answers contents, call.entry = some e ∧ e.command = call.command ∧
      w.Settles c ticket call.node e x ∧
      Machine.execute .empty (x.take e.index) = .ok (answers, contents) ∧
      answers[e.index - 1]? = some a ∧
      ∀ w', Run c w w' → ∃ x', x <+: x' ∧ w'.Settles c ticket call.node e x' := by
  obtain ⟨P, H, -, -, hrec, -, -⟩ := Chronicle.Reachable.recorded hc h .refl
  have hanswer : call.proposal.answer = some (.ok a) := by
    unfold Proposal.result? at ha
    split at ha
    · cases ha
    · cases ha
    · exact ha
  obtain ⟨e, he, t, p, k, hp, hindex, hlen, hk, hlt, hresult⟩ :=
    hrec.clients.answered ticket call a hcall hanswer
  have hcommand := (hrec.clients.entered ticket call e hcall he).1
  obtain ⟨s, x, hx, hpx, hall⟩ := hrec.exists_followed hv hp
  have hpos : 0 < e.index := by omega
  have hcommit : e.index ≤ H.commit call.node := by omega
  have hget : x[e.index - 1]? = some e := by
    rw [hindex, Nat.add_sub_cancel]
    exact getElem?_mono hpx hk
  have htake : x.take e.index = p := by
    rw [hindex, ← hlen, ← take_of_isPrefix hpx (Nat.le_refl _), List.take_length]
  -- everything up to the entry can be executed
  have hvalued : Valued p := fun e' he' => hv _ (hrec.admits_of_fixed hp he')
  obtain ⟨answers, hexecute, -, hat⟩ := Machine.execute_eq hvalued .empty
  refine ⟨e, x, answers, _, he, hcommand, ?_, htake ▸ hexecute, ?_, fun w' hrun => ?_⟩
  · exact hrec.settles hcall he hx (fun u hu => (hall u hu).2) hpos hget hcommit
  · rw [hindex, Nat.add_sub_cancel, hresult (hvalued.of_isPrefix (List.take_prefix _ _))]
    exact hat k e hk
  · obtain ⟨P', H', hlater, hrec'⟩ := hrec.run hrun
    obtain ⟨s', x', hx', hxx', hall'⟩ := hrec'.exists_followed hv (hlater.fixed s x hx)
    obtain ⟨call', hcall', hsame⟩ := hrun.kept ticket call hcall
    refine ⟨x', hxx', hrec'.settles hcall' (hsame.entry.trans he) hx'
      (fun u hu => (hall' u hu).2) hpos (getElem?_mono hxx' hget) ?_⟩
    exact Nat.le_trans hcommit (hlater.commit _)

/-- The call of `Duo` returns that its entry took effect. -/
theorem acknowledgement_soundness_duo : ∃ w w' e x x' answers contents,
    Duo.conditions.Reliable ∧ Duo.conditions.Valued ∧ Reachable Duo.conditions w ∧
    Run Duo.conditions w w' ∧ w.calls 7 = some (Duo.call.informed (.ok ())) ∧
    (Duo.call.informed (.ok ())).proposal.result? = some (.ok .done) ∧
    e.command = Duo.entry.command ∧ w.Settles Duo.conditions 7 1 e x ∧
    Machine.execute .empty (x.take e.index) = .ok (answers, contents) ∧
    answers[e.index - 1]? = some .done ∧ x <+: x' ∧ w'.Settles Duo.conditions 7 1 e x' := by
  obtain ⟨w, w', h, h', -, -, -, -, hcall⟩ := Duo.exists_acknowledged
  obtain ⟨e, x, answers, contents, -, hcommand, hsettles, hexecute, hanswer, hlater⟩ :=
    acknowledgement_soundness Duo.reliable Duo.valued h hcall (a := .done) rfl
  obtain ⟨x', hxx', hsettles'⟩ := hlater w' h'
  exact ⟨w, w', e, x, x', answers, contents, Duo.reliable, Duo.valued, h, h', hcall, rfl, hcommand,
    hsettles, hexecute, hanswer, hxx', hsettles'⟩

end ReplicatedStore
