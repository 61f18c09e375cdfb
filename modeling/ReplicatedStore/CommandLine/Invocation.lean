import ReplicatedStore.CommandLine.Options
import ReplicatedStore.Settings.Node
import ReplicatedStore.Wire.Frame
/-!
# Invocations

What the program can be asked to do: run a node, or send one request to a node as a client.
-/
namespace ReplicatedStore

/-- The description of a node as it stands on the command line. The list of peers is read later. -/
structure ServerArguments where
  id : NodeId
  listen : SocketAddress
  peers : String
  dataDir : String
  rpcTimeout : Nat
  consensus : Config
  deriving DecidableEq, Repr

/-- What is asked of the program. -/
inductive Invocation where
  | server (a : ServerArguments)
  /-- Send a request to an address. -/
  | client (address : String) (request : Frame)
  | help
  /-- Tell the version of the program, or of a command of it. -/
  | version (command : Option String)
  /-- The arguments make no sense. -/
  | usage
  deriving DecidableEq, Repr

namespace Invocation

/-- An option whose value is a word. -/
def wordOption (name : String) : OptionSpec :=
  { name := name, accepts := fun v => ((Decimal.read? v).any (· ≤ maxWord)) }

/-- What `server` takes. -/
def serverSpec : CommandSpec where
  name := "server"
  positionals := []
  options := [
    wordOption "node-id",
    { name := "listen", accepts := fun v => (SocketAddress.read? v).isSome },
    { name := "peers" },
    { name := "data-dir", accepts := fun v => !v.isEmpty },
    wordOption "election-timeout-min",
    wordOption "election-timeout-max",
    wordOption "heartbeat-interval",
    wordOption "snapshot-threshold",
    wordOption "rpc-timeout"]

/-- What a client command takes beside its positionals. -/
def clientSpec (name : String) (positionals : List String) : CommandSpec where
  name := name
  positionals := positionals
  options := [{ name := "addr", letter := some 'a' }]

/-- The value of an option that is a word. -/
def word (a : Arguments) (name : String) (default : Nat) : Nat :=
  (Decimal.read? (a.value name "")).getD default

/-- The description of the node that a server is to run. -/
def serverOf (a : Arguments) : ServerArguments :=
  let d : NodeConfig := {}
  { id := word a "node-id" d.id
    listen := (SocketAddress.read? (a.value "listen" "")).getD d.listen
    peers := a.value "peers" ""
    dataDir := a.value "data-dir" d.dataDir
    rpcTimeout := word a "rpc-timeout" d.rpcTimeout
    consensus := {
      electionMin := word a "election-timeout-min" d.consensus.electionMin
      electionMax := word a "election-timeout-max" d.consensus.electionMax
      heartbeat := word a "heartbeat-interval" d.consensus.heartbeat
      snapshotThreshold := word a "snapshot-threshold" d.consensus.snapshotThreshold } }

/-- A client's invocation. -/
def clientOf (a : Arguments) (request : Frame) : Invocation :=
  .client (a.value "addr" ({} : NodeConfig).listen.write) request

/-- The commands, and what their arguments ask for. -/
def commands : List (CommandSpec × (Arguments → Invocation)) := [
  (serverSpec, fun a => .server (serverOf a)),
  (clientSpec "put" ["key", "value"], fun a =>
    match a.positionals with
    | [key, value] => clientOf a (.propose (.put key value))
    | _ => .usage),
  (clientSpec "get" ["key"], fun a =>
    match a.positionals with
    | [key] => clientOf a (.propose (.get key))
    | _ => .usage),
  (clientSpec "delete" ["key"], fun a =>
    match a.positionals with
    | [key] => clientOf a (.propose (.delete key))
    | _ => .usage),
  (clientSpec "status" [], fun a => clientOf a .status)]

/-- What `help` and the names after it ask for. -/
def helpOn (names : List String) : Invocation :=
  match names with
  | [] => .help
  | [name] => if name = "help" || commands.any (·.1.name == name) then .help else .usage
  | _ => .usage

/-- What the program is asked to do. -/
def ofArguments : List String → Invocation
  | [] => .usage
  | first :: rest =>
    if first = "help" then helpOn rest
    else
      match commands.find? (·.1.name == first) with
      | some (spec, invocation) =>
        match Arguments.ofList spec rest with
        | .ok a => invocation a
        | .error .help => .help
        | .error .version => .version (some spec.name)
        | .error .usage => .usage
      | none =>
        match Arguments.find ⟨"", [], []⟩ first with
        | .help => .help
        | .version => .version none
        | _ => .usage

end Invocation

end ReplicatedStore
