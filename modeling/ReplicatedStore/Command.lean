import ReplicatedStore.Table
/-!
# Commands and entries

A command asks for one operation on one key. An entry is a command at a position of the replicated
log, stamped with the term in which a leader put it there. Position 0 means "no entry".

* `Operation.ofName?_name`: a displayed name is read back, in either case.
-/
namespace ReplicatedStore

/-- A member of the cluster. -/
abbrev NodeId := Nat

/-- What a client can ask for. -/
inductive Operation where
  | put
  | get
  | delete
  deriving DecidableEq, Repr

namespace Operation

/-- The name of an operation, upper case. -/
def name : Operation → String
  | .put => "PUT"
  | .get => "GET"
  | .delete => "DELETE"

/-- The operation with a name, ASCII letters of either case. -/
def ofName? (s : String) : Option Operation :=
  let upper := s.toList.map Char.toUpper
  [put, get, delete].find? fun o => o.name.toList == upper

theorem ofName?_name (o : Operation) : ofName? o.name = some o := by
  cases o <;> decide +kernel

end Operation

/-- A client's request. Only a put needs a value. -/
structure Command where
  operation : Operation
  key : String
  value : Option String
  deriving DecidableEq, Repr

namespace Command

/-- Store a value under a key. -/
def put (key value : String) : Command := ⟨.put, key, some value⟩

/-- Read the value under a key. -/
def get (key : String) : Command := ⟨.get, key, none⟩

/-- Remove a key. -/
def delete (key : String) : Command := ⟨.delete, key, none⟩

end Command

/-- A command at a position of the log. Mirrors `LogEntry`. -/
structure Entry where
  term : Nat
  index : Nat
  command : Command
  deriving DecidableEq, Repr

end ReplicatedStore
