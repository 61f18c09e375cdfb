import ReplicatedStore.Error
/-!
# The key-value machine

The contents that committed entries are applied to: a table from keys to values, in the order of
the keys' code points. Applying an entry is deterministic and changes nothing when it fails.
-/
namespace ReplicatedStore

/-- The stored keys and their values. Mirrors `MemoryStateMachine`. -/
abbrev Machine := Table String String

/-- What applying an entry answers. Mirrors `ApplyResult`. -/
inductive Answer where
  /-- A put or a delete took effect. -/
  | done
  /-- The value that a get found. -/
  | value (v : Option String)
  deriving DecidableEq, Repr

namespace Machine

/-- Apply an entry. A put without a value is refused. Mirrors `apply_entry`. -/
def apply (m : Machine) (e : Entry) : Except ConsensusError (Answer × Machine) :=
  match e.command.operation with
  | .put =>
    match e.command.value with
    | some v => .ok (.done, m.insert e.command.key v)
    | none => .error (.corruptEntry e.index s!"PUT {e.command.key} carries no value")
  | .get => .ok (.value (m.get? e.command.key), m)
  | .delete => .ok (.done, m.erase e.command.key)

end Machine

end ReplicatedStore
