import ReplicatedStore.Error
import ReplicatedStore.Wire.Frame
/-!
# Replies as constructors

The text of a reply as a constructor applied to its arguments, in which an unexpected reply is
quoted.
-/
namespace ReplicatedStore

/-- A record as a constructor with named arguments. -/
def shapeRecord (name : String) (fields : List (String × String)) : String :=
  name ++ " \x7b " ++ ", ".intercalate (fields.map fun f => f.1 ++ ": " ++ f.2) ++ " \x7d"

/-- A list of texts in brackets. -/
def shapeList (items : List String) : String := "[" ++ ", ".intercalate items ++ "]"

/-- The constructor of an operation. -/
def Operation.shape : Operation → String
  | .put => "Put"
  | .get => "Get"
  | .delete => "Delete"

/-- A command as a constructor. -/
def Command.shape (c : Command) : String :=
  shapeRecord "Command" [("operation", c.operation.shape), ("key", Quoted.quote c.key),
    ("value", shapeOption Quoted.quote c.value)]

/-- An entry as a constructor. -/
def Entry.shape (e : Entry) : String :=
  shapeRecord "LogEntry" [("term", Decimal.write e.term), ("index", Decimal.write e.index),
    ("command", e.command.shape)]

/-- A truth value. -/
def shapeBool (b : Bool) : String := if b then "true" else "false"

/-- A message as a constructor. -/
def Message.shape (m : Message) : String :=
  let n := Decimal.write
  shapeRecord m.kind (match m with
    | .voteRequest q => [("term", n q.term), ("candidate_id", n q.candidate),
        ("last_log_index", n q.lastIndex), ("last_log_term", n q.lastTerm)]
    | .voteReply t granted => [("term", n t), ("vote_granted", shapeBool granted)]
    | .appendRequest q => [("term", n q.term), ("leader_id", n q.leader),
        ("prev_log_index", n q.prevIndex), ("prev_log_term", n q.prevTerm),
        ("entries", shapeList (q.entries.map Entry.shape)), ("leader_commit", n q.leaderCommit)]
    | .appendReply t success => [("term", n t), ("success", shapeBool success)]
    | .installRequest q => [("term", n q.term), ("leader_id", n q.leader),
        ("last_included_index", n q.lastIndex), ("last_included_term", n q.lastTerm),
        ("entries", shapeList (q.entries.map Entry.shape))]
    | .installReply t => [("term", n t)])

/-- An answer as a constructor. -/
def Answer.shape : Answer → String
  | .done => "Ok"
  | .value v => s!"Value({shapeOption Quoted.quote v})"

/-- A status as a constructor. -/
def Status.shape (s : Status) : String :=
  let n := Decimal.write
  shapeRecord "NodeStatus" [("node_id", n s.id), ("role", s.role.name), ("current_term", n s.term),
    ("voted_for", shapeOption n s.vote), ("current_leader", shapeOption n s.leader),
    ("log_size", n s.logSize), ("commit_index", n s.commitIndex), ("last_applied", n s.lastApplied)]

/-- A reply as a constructor. -/
def FrameReply.shape : FrameReply → String
  | .raft m => s!"Raft({m.shape})"
  | .applied a => s!"Applied({a.shape})"
  | .notLeader h a => shapeRecord "NotLeader" [("leader_hint", shapeOption Decimal.write h),
      ("leader_addr", shapeOption Quoted.quote a)]
  | .failed r => s!"Failed({Quoted.quote r})"
  | .status s => s!"Status({s.shape})"

end ReplicatedStore
