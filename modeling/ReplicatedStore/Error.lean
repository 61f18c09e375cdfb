import ReplicatedStore.Command
import ReplicatedStore.Text.Decimal
import ReplicatedStore.Text.Quoted
/-!
# Errors

What can go wrong at each layer, as causes: the consensus state machine, storage, the links between
members, and the service that puts them together. `message` gives the wording of each, `shape` the
error as a constructor applied to its arguments, which is how the command line reports it.
-/
namespace ReplicatedStore

instance decidableEqExcept {ε α : Type} [DecidableEq ε] [DecidableEq α] :
    DecidableEq (Except ε α)
  | .ok a, .ok b => decidable_of_iff (a = b) (by simp)
  | .error a, .error b => decidable_of_iff (a = b) (by simp)
  | .ok _, .error _ => isFalse (by simp)
  | .error _, .ok _ => isFalse (by simp)

/-! ## Consensus -/

/-- A failure of the consensus state machine or of its settings. -/
inductive ConsensusError where
  | invalidConfig (reason : String)
  /-- The log holds an entry that cannot be applied. -/
  | corruptEntry (index : Nat) (reason : String)
  | unknownOperation (name : String)
  deriving DecidableEq, Repr

/-- The wording. -/
def ConsensusError.message : ConsensusError → String
  | .invalidConfig r => s!"invalid raft configuration: {r}"
  | .corruptEntry i r => s!"corrupt log entry at index {Decimal.write i}: {r}"
  | .unknownOperation n => s!"unknown operation: {n}"

/-- The constructor and its arguments. -/
def ConsensusError.shape : ConsensusError → String
  | .invalidConfig r => s!"InvalidConfig({Quoted.quote r})"
  | .corruptEntry i r =>
    "CorruptEntry \x7b index: " ++ Decimal.write i ++ ", reason: " ++ Quoted.quote r ++ " \x7d"
  | .unknownOperation n => s!"UnknownOperation({Quoted.quote n})"

/-! ## Storage -/

/-- The kinds of storage failure that are told apart. -/
inductive IoKind where
  | notFound
  | alreadyExists
  | notADirectory
  | isADirectory
  | invalidData
  | other
  deriving DecidableEq, Repr

/-- The name of a kind. -/
def IoKind.name : IoKind → String
  | .notFound => "NotFound"
  | .alreadyExists => "AlreadyExists"
  | .notADirectory => "NotADirectory"
  | .isADirectory => "IsADirectory"
  | .invalidData => "InvalidData"
  | .other => "Other"

/-- A failed storage operation. -/
structure IoError where
  kind : IoKind
  text : String
  deriving DecidableEq, Repr

namespace IoError

/-- No such file. -/
def notFound : IoError := ⟨.notFound, "No such file or directory (os error 2)"⟩

/-- A file where a directory is needed. -/
def notADirectory : IoError := ⟨.notADirectory, "Not a directory (os error 20)"⟩

/-- A directory where a file is needed. -/
def isADirectory : IoError := ⟨.isADirectory, "Is a directory (os error 21)"⟩

/-- Something is there already. -/
def alreadyExists : IoError := ⟨.alreadyExists, "File exists (os error 17)"⟩

/-- Content that cannot be read back. -/
def invalidData : IoError := ⟨.invalidData, "invalid data"⟩

/-- No room for a write. -/
def diskFull : IoError := ⟨.other, "disk full"⟩

end IoError

/-! ## Links -/

/-- A request that got no answer from a peer. It never harms the sender. -/
inductive TransportError where
  | unknownPeer (peer : NodeId)
  | unreachable (peer : NodeId)
  | timeout (peer : NodeId)
  | io (text : String)
  | codec (text : String)
  | closed
  | unexpectedResponse (text : String)
  deriving DecidableEq, Repr

/-- The wording. -/
def TransportError.message : TransportError → String
  | .unknownPeer p => s!"no address known for node {Decimal.write p}"
  | .unreachable p => s!"node {Decimal.write p} is unreachable"
  | .timeout p => s!"request to node {Decimal.write p} timed out"
  | .io t => s!"io error: {t}"
  | .codec t => s!"codec error: {t}"
  | .closed => "transport closed"
  | .unexpectedResponse t => s!"unexpected response: {t}"

/-- The constructor and its arguments. -/
def TransportError.shape : TransportError → String
  | .unknownPeer p => s!"UnknownPeer({Decimal.write p})"
  | .unreachable p => s!"Unreachable({Decimal.write p})"
  | .timeout p => s!"Timeout({Decimal.write p})"
  | .io t => s!"Io({Quoted.quote t})"
  | .codec t => s!"Codec({Quoted.quote t})"
  | .closed => "Closed"
  | .unexpectedResponse t => s!"UnexpectedResponse({Quoted.quote t})"

/-! ## The service -/

/-- A value that may be missing, as a constructor applied to its argument. -/
def shapeOption {α : Type} (f : α → String) : Option α → String
  | none => "None"
  | some a => s!"Some({f a})"

/-- The steps after which memory can be ahead of storage; a node whose step fails there stops. -/
inductive CriticalStep where
  | persistEntries
  | persistSnapshot
  | persistTerm
  | applyEntries
  deriving DecidableEq, Repr

/-- What a failed step is called. -/
def CriticalStep.failure : CriticalStep → String
  | .persistEntries => "could not persist appended entries"
  | .persistSnapshot => "could not persist installed snapshot"
  | .persistTerm => "could not persist a newer term"
  | .applyEntries => "cannot apply committed entries"

/-- Why a proposal has no answer although its entry is in the log. -/
inductive Unsettled where
  /-- The node stopped being leader; the new leader, if known. -/
  | leadershipLost (leader : Option NodeId)
  /-- The node stopped itself. -/
  | nodeHalted (step : CriticalStep) (cause : String)
  /-- Another leader's entry was committed at the index. -/
  | replaced (index : Nat)
  /-- Too few peers took the entry. -/
  | noMajority (index acks needed : Nat)
  /-- Every peer answered without a decision. -/
  | notReplicated (index : Nat)
  /-- The answer will never come. -/
  | dropped (index : Nat)
  /-- A peer needs a snapshot and there is none. -/
  | noSnapshotFor (peer : NodeId)
  | other (text : String)
  deriving DecidableEq, Repr

/-- The wording. -/
def Unsettled.message : Unsettled → String
  | .leadershipLost l => s!"leadership lost, new leader {shapeOption Decimal.write l}"
  | .nodeHalted step cause => s!"{step.failure}: {cause}"
  | .replaced i => s!"entry {Decimal.write i} was replaced by a later leader"
  | .noMajority i acks needed =>
    s!"entry {Decimal.write i} reached {Decimal.write acks} of the {Decimal.write needed} peers it needs"
  | .notReplicated i => s!"entry {Decimal.write i} was not replicated"
  | .dropped i => s!"proposal {Decimal.write i} was dropped"
  | .noSnapshotFor p => s!"peer {Decimal.write p} needs a snapshot but none exists"
  | .other t => t

/-- Why the description of a node is unusable. -/
inductive SettingsFlaw where
  | noRpcTimeout
  | repeatedId (id : NodeId)
  | ownPeer (id : NodeId)
  | repeatedPeer (id : NodeId)
  /-- A part of a peer list without an equals sign. -/
  | noEquals (part : String)
  /-- A part of a peer list whose id is not a word. -/
  | badId (part : String)
  /-- A part of a peer list whose address has no colon. -/
  | noPort (part : String)
  | other (text : String)
  deriving DecidableEq, Repr

/-- The wording. -/
def SettingsFlaw.message : SettingsFlaw → String
  | .noRpcTimeout => "rpc_timeout_ms must be positive"
  | .repeatedId i => s!"node id {Decimal.write i} appears more than once"
  | .ownPeer i => s!"node {Decimal.write i} lists itself as a peer"
  | .repeatedPeer i => s!"peer {Decimal.write i} is listed twice"
  | .noEquals p => s!"expected id=host:port, got {Quoted.quote p}"
  | .badId p => s!"invalid node id in {Quoted.quote p}"
  | .noPort p => s!"missing port in {Quoted.quote p}"
  | .other t => t

/-- An error that a client or an operator of a node sees. -/
inductive ServiceError where
  /-- The node does not lead; the leader it knows. -/
  | notLeader (hint : Option NodeId)
  | unsettled (u : Unsettled)
  | storage (e : IoError)
  | consensus (e : ConsensusError)
  | transport (e : TransportError)
  | settings (f : SettingsFlaw)
  | shutdown
  deriving DecidableEq, Repr

/-- The wording. -/
def ServiceError.message : ServiceError → String
  | .notLeader h => s!"not the leader, last known leader is {shapeOption Decimal.write h}"
  | .unsettled u => s!"consensus error: {u.message}"
  | .storage e => s!"storage error: {e.text}"
  | .consensus e => s!"raft error: {e.message}"
  | .transport e => s!"transport error: {e.message}"
  | .settings f => s!"invalid configuration: {f.message}"
  | .shutdown => "node is shutting down"

/-- The constructor and its arguments. -/
def ServiceError.shape : ServiceError → String
  | .notLeader h => "NotLeader \x7b leader_hint: " ++ shapeOption Decimal.write h ++ " \x7d"
  | .unsettled u => s!"Consensus({Quoted.quote u.message})"
  | .storage e => s!"Storage({e.text})"
  | .consensus e => s!"Raft({e.shape})"
  | .transport e => s!"Transport({e.shape})"
  | .settings f => s!"Config({Quoted.quote f.message})"
  | .shutdown => "Shutdown"

end ReplicatedStore
