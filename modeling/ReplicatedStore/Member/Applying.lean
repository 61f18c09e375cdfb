import ReplicatedStore.Member.Basic
import ReplicatedStore.Replica.Compaction
/-!
# Applying committed entries

Committed entries are applied in order, and the proposals that wait for them are answered. The
commit index is written first, so that a restart applies no more than what was known to be
committed. A log that has grown to the threshold is folded into an image.
-/
namespace ReplicatedStore.Member

variable {δ : Type}

/-- Apply an entry and answer the proposal that waits at its position. Mirrors the loop body of
`apply_committed`. -/
def applyEntry (m : Member δ) (e : Entry) : Member δ × Option ConsensusError :=
  let waiter := m.pending.get? e.index
  let m := { m with pending := m.pending.erase e.index }
  let answer (m : Member δ) (result : Waiter → Except ServiceError Answer) : Member δ :=
    match waiter with
    | none => m
    | some w => m.emit (.settle w.ticket (result w))
  match m.machine.apply e with
  | .ok (a, machine) =>
    (answer { m with machine := machine } fun w =>
      if w.term = e.term then .ok a else .error (.unsettled (.replaced e.index)), none)
  | .error err => (answer m fun _ => .error (.unsettled (.other err.message)), some err)

/-- Apply entries up to the first that cannot be applied. Mirrors the loop of `apply_committed`. -/
def applyAll (m : Member δ) : List Entry → Member δ × Option ConsensusError
  | [] => (m, none)
  | e :: es =>
    match m.applyEntry e with
    | (m, none) => m.applyAll es
    | (m, some err) => (m, some err)

variable [Disk δ]

/-- Fold what is applied into an image and keep only the entries after it. Mirrors
`take_snapshot`. -/
def takeImage (m : Member δ) (now : Instant) : Except Fault (Member δ × Option ServiceError) := do
  let (r, removed) ← m.replica.compact m.replica.lastApplied
  let m := { m with replica := r }
  if removed.isEmpty then return (m, none)
  let previous := m.image.elim [] (·.entries)
  let image : Image := ⟨Image.fold previous removed, r.snapshotIndex, r.snapshotTerm, now⟩
  match m.write (.image image) with
  | (m, some e) => return (m, some (.storage e))
  | (m, none) =>
    match m.write (.replace r.log) with
    | (m, some e) => return (m, some (.storage e))
    | (m, none) => return ({ m with image := some image }, none)

/-- Apply what is committed and not applied yet. Mirrors `apply_committed`. -/
def applyCommitted (m : Member δ) (now : Instant) :
    Except Fault (Member δ × Option ServiceError) :=
  match m.write (.commit m.replica.commitIndex) with
  | (m, some e) => .ok (m, some (.storage e))
  | (m, none) =>
    let (r, entries) := m.replica.takeCommitted
    let m := { m with replica := r }
    if entries.isEmpty then .ok (m, none)
    else
      match m.applyAll entries with
      | (m, some e) => .ok (m, some (.consensus e))
      | (m, none) =>
        if m.replica.config.shouldSnapshot m.replica.log.length then m.takeImage now
        else .ok (m, none)

/-- Apply what is committed; a member that cannot stops. Mirrors `apply_or_halt`. -/
def applyOrHalt (m : Member δ) (now : Instant) : Except Fault (Member δ) := do
  match ← m.applyCommitted now with
  | (m, none) => return m
  | (m, some e) => return m.halt .applyEntries e

end ReplicatedStore.Member
