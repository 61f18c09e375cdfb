import ReplicatedStore.CommandLine.Invocation
import ReplicatedStore.Wire.Shape
/-!
# Runs of the program

What a run prints and how it ends. How a request gets to its address is left open: a client decides
only whom it asks, and what it makes of the reply. It follows one redirect from a node that does
not lead to the one it names.
-/
namespace ReplicatedStore

/-- The end of a run. -/
structure RunResult where
  exit : Nat
  stdout : String := ""
  stderr : String := ""
  deriving DecidableEq, Repr

/-- How far a run gets without being a node. -/
inductive RunOutcome where
  | finished (r : RunResult)
  /-- The program is to be this node from here on. -/
  | serving (c : NodeConfig)
  deriving DecidableEq, Repr

namespace RunResult

/-- A run that succeeds with a line of output. -/
def line (text : String) : RunResult := ⟨0, text ++ "\n", ""⟩

/-- A run that fails with an error. -/
def failure (shape : String) : RunResult := ⟨1, "", s!"Error: {shape}\n"⟩

end RunResult

namespace CommandLine

/-- The program's name. -/
def programName : String := "kv-node"

/-- The program's version. -/
def programVersion : String := "0.1.0"

/-- What is said about the version of the program or of a command. -/
def versionLine (command : Option String) : String :=
  programName ++ command.elim "" ("-" ++ ·) ++ " " ++ programVersion

/-- How a request gets to an address and what comes back. -/
abbrev Ask (m : Type → Type) := String → Frame → m (Except TransportError FrameReply)

/-- Send a request, and once more to the leader that the reply names. -/
def askLeader {m : Type → Type} [Monad m] (ask : Ask m) (address : String) (f : Frame) :
    m (Except TransportError FrameReply) := do
  match ← ask address f with
  | .ok (.notLeader _ (some leader)) => ask leader f
  | reply => return reply

/-- What a client prints about a reply. -/
def report : FrameReply → RunResult
  | .applied .done => .line "OK"
  | .applied (.value (some v)) => .line v
  | .applied (.value none) => .line "(not found)"
  | .status s => .line ((s.toJson.writeIndented.toString?).getD "")
  | .notLeader h _ =>
    .failure (Quoted.quote s!"not the leader (leader: {shapeOption Decimal.write h})")
  | .failed reason => .failure (Quoted.quote reason)
  | .raft m => .failure (Quoted.quote s!"unexpected {m.kind} reply")

/-- The node that a server is to run. The first flaw of its description decides. -/
def describe (a : ServerArguments) : Except ServiceError NodeConfig := do
  match Peer.listOf a.peers with
  | .error f => throw (.settings f)
  | .ok peers =>
    let c : NodeConfig := {
      id := a.id
      listen := a.listen
      peers := peers
      dataDir := a.dataDir
      rpcTimeout := a.rpcTimeout
      consensus := a.consensus }
    c.validate
    return c

/-- Run the program. -/
def run {m : Type → Type} [Monad m] (ask : Ask m) (args : List String) : m RunOutcome := do
  match Invocation.ofArguments args with
  | .usage => return .finished ⟨2, "", ""⟩
  | .help => return .finished ⟨0, "", ""⟩
  | .version command => return .finished (.line (versionLine command))
  | .server a =>
    match describe a with
    | .error e => return .finished (.failure e.shape)
    | .ok c => return .serving c
  | .client address f =>
    match ← askLeader ask address f with
    | .ok reply => return .finished (report reply)
    | .error e => return .finished (.failure e.shape)

end CommandLine

end ReplicatedStore
