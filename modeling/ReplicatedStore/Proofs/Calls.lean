import ReplicatedStore.Proofs.World
/-!
# Calls

What happens to calls around the sections of members. A call keeps its entry, and the first answer
that it is given (`ClientCall.Later`); no step loses a call (`Step.kept`), so no run does.

`Waits` ties the proposals that wait at a member to the calls that made them.
-/
namespace ReplicatedStore

/-- The same call, later on. -/
structure ClientCall.Later (call call' : ClientCall) : Prop where
  node : call'.node = call.node
  command : call'.command = call.command
  entry : call'.entry = call.entry
  answer : ∀ result, call.proposal.answer = some result → call'.proposal.answer = some result

namespace ClientCall.Later

theorem refl (call : ClientCall) : call.Later call := ⟨rfl, rfl, rfl, fun _ h => h⟩

theorem trans {call call' call'' : ClientCall} (h : call.Later call') (h' : call'.Later call'') :
    call.Later call'' :=
  ⟨h'.node.trans h.node, h'.command.trans h.command, h'.entry.trans h.entry,
    fun result hr => h'.answer result (h.answer result hr)⟩

theorem answered (call : ClientCall) (result : Except ServiceError Answer) :
    call.Later (call.answered result) :=
  ⟨rfl, rfl, rfl, fun first hfirst => by simp [ClientCall.answered, hfirst]⟩

theorem informed (call : ClientCall) (o : PeerOutcome) : call.Later (call.informed o) :=
  ⟨rfl, rfl, rfl, fun _ h => h⟩

end ClientCall.Later

/-- No call is lost. -/
def Kept (calls calls' : Nat → Option ClientCall) : Prop :=
  ∀ ticket call, calls ticket = some call → ∃ call', calls' ticket = some call' ∧ call.Later call'

namespace Kept

variable {calls calls' calls'' : Nat → Option ClientCall}

theorem refl (calls : Nat → Option ClientCall) : Kept calls calls :=
  fun _ call h => ⟨call, h, .refl call⟩

theorem trans (h : Kept calls calls') (h' : Kept calls' calls'') : Kept calls calls'' := by
  intro ticket call hcall
  obtain ⟨call', hcall', hl⟩ := h ticket call hcall
  obtain ⟨call'', hcall'', hl'⟩ := h' ticket call' hcall'
  exact ⟨call'', hcall'', hl.trans hl'⟩

theorem update (calls : Nat → Option ClientCall) (ticket : Nat) {f : ClientCall → ClientCall}
    (hf : ∀ call : ClientCall, call.Later (f call)) :
    Kept calls (Function.update calls ticket ((calls ticket).map f)) := by
  intro k call hcall
  by_cases hk : k = ticket
  · subst hk
    refine ⟨f call, ?_, hf call⟩
    rw [Function.update_self, hcall]
    rfl
  · exact ⟨call, (Function.update_of_ne hk ..).trans hcall, .refl call⟩

theorem withCall {ticket : Nat} (fresh : calls ticket = none) (call : ClientCall) :
    Kept calls (World.withCall calls (some (ticket, call))) := by
  intro k call' hcall
  have hne : k ≠ ticket := by
    rintro rfl
    cases fresh.symm.trans hcall
  exact ⟨call', (Function.update_of_ne hne ..).trans hcall, .refl call'⟩

theorem perform (calls : Nat → Option ClientCall) (effect : Effect) :
    Kept calls (World.perform calls effect) := by
  cases effect with
  | settle ticket result => exact update calls ticket fun call => .answered call result
  | _ => exact refl calls

theorem performAll (calls : Nat → Option ClientCall) (effects : List Effect) :
    Kept calls (effects.foldl World.perform calls) := by
  induction effects generalizing calls with
  | nil => exact refl calls
  | cons effect effects ih => exact (perform calls effect).trans (ih _)

end Kept

variable {c : Conditions} {w w' : World} {v : NodeId}

theorem Act.kept {m : Member MemoryDisk} {d : Deed} (h : Act c w v m d) :
    Kept w.calls (World.withCall w.calls d.call) := by
  cases h with
  | propose admitted fresh run => exact .withCall fresh _
  | _ => exact .refl _

theorem World.kept_informed {ticket : Nat} {call : ClientCall} (made : w.calls ticket = some call)
    (o : PeerOutcome) : Kept w.calls (w.informed ticket call o).calls := by
  have h := Kept.update w.calls ticket fun call => ClientCall.Later.informed call o
  rw [made] at h
  exact h

theorem Step.kept (h : Step c v w w') : Kept w.calls w'.calls := by
  cases h with
  | act up act => exact act.kept.trans (.performAll _ _)
  | start down member run => exact .performAll _ _
  | failToStart down member run => exact .refl _
  | stop up => exact .refl _
  | hear made node waiting => exact World.kept_informed made _

theorem Run.kept (h : Run c w w') : Kept w.calls w'.calls := by
  induction h with
  | refl => exact .refl _
  | tail _ hstep ih =>
    obtain ⟨v, hstep⟩ := hstep
    exact ih.trans hstep.kept

/-- A proposal waits at a node for the entry of its call. -/
def Waits (calls : Nat → Option ClientCall) (v : NodeId) (i : Nat) (w : Waiter) : Prop :=
  ∃ call e, calls w.ticket = some call ∧ call.node = v ∧ call.entry = some e ∧ e.index = i ∧
    e.term = w.term

theorem Waits.insert {calls : Nat → Option ClientCall} {pending : Table Nat Waiter}
    (h : ∀ i x, pending.get? i = some x → Waits calls v i x) {index : Nat} {w : Waiter}
    (hw : Waits calls v index w) (i : Nat) (x : Waiter)
    (hi : (pending.insert index w).get? i = some x) : Waits calls v i x := by
  rw [Table.get?_insert] at hi
  split at hi
  · next heq =>
    obtain rfl := Std.LawfulEqOrd.eq_of_compare heq
    cases hi
    exact hw
  · exact h i x hi

theorem Waits.kept {calls calls' : Nat → Option ClientCall} {i : Nat} {x : Waiter}
    (h : Waits calls v i x) (hk : Kept calls calls') : Waits calls' v i x := by
  obtain ⟨call, e, hcall, hnode, he, hrest⟩ := h
  obtain ⟨call', hcall', hl⟩ := hk _ call hcall
  exact ⟨call', e, hcall', hl.node.trans hnode, hl.entry.trans he, hrest⟩

end ReplicatedStore
