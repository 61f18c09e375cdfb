import ReplicatedStore.Member.Applying
/-!
# Starting

A member starts from its settings and from what its disk holds: the ballot, the image, the log
after it, and the commit index. What is known to be committed is applied at once.
-/
namespace ReplicatedStore

/-- Who a member is, beside what its disk holds. Mirrors `NodeBuilder`. -/
structure MemberSettings where
  id : NodeId
  peers : List NodeId
  config : Config := {}
  deriving DecidableEq, Repr

namespace MemberSettings

/-- The first peer that is the member itself or was listed before. Mirrors the loop over the peers
in `start`. -/
def peerFlaw? (id : NodeId) (seen : List NodeId) : List NodeId → Option SettingsFlaw
  | [] => none
  | p :: ps =>
    if p = id then some (.ownPeer p)
    else if p ∈ seen then some (.repeatedPeer p)
    else peerFlaw? id (p :: seen) ps

/-- What makes the settings unusable, if anything does. Mirrors the checks of `start`. -/
def validate (s : MemberSettings) : Except ServiceError Unit :=
  match s.config.flaw? with
  | some f => .error (.consensus (.invalidConfig f.message))
  | none =>
    match peerFlaw? s.id [] s.peers with
    | some f => .error (.settings f)
    | none => .ok ()

end MemberSettings

namespace Member

variable {δ : Type} [Disk δ]

/-- A member that has read nothing yet. -/
def blank (s : MemberSettings) (disk : δ) : Member δ :=
  let r := Replica.create s.id (s.peers ++ [s.id]) s.config
  { replica := r, disk := disk, machine := .empty, image := none, pending := .empty,
    beating := false, catchingUp := [], saved := ⟨0, none⟩, stopped := false,
    published := r.status, outbox := [] }

/-- Take over a stored ballot. -/
def recoverBallot (m : Member δ) (b : Ballot) : Member δ :=
  { m with replica := m.replica.withBallot b, saved := b }

/-- Take over a stored image. -/
def recoverImage (m : Member δ) : Option Image → Member δ
  | none => m
  | some i =>
    { m with
      replica := m.replica.restoreBase i.lastIndex i.lastTerm
      machine := Image.restore i.entries
      image := some i }

/-- Take over a stored log and commit index. -/
def recoverLog (m : Member δ) (log : List Entry) (commit : Nat) : Except Fault (Member δ) := do
  let (r, _) ← m.replica.loadLog 0 log
  return { m with replica := r.restoreCommit commit }

/-- Take over what the disk holds, without applying anything. Mirrors `recover` up to
`apply_committed`. -/
def load (m : Member δ) : Except Fault (Except IoError (Member δ)) :=
  let stored : Except IoError (Ballot × Option Image × List Entry × Nat) := do
    return (← Disk.readBallot m.disk, ← Disk.readImage m.disk, ← Disk.readLog m.disk,
      ← Disk.readCommit m.disk)
  match stored with
  | .error e => .ok (.error e)
  | .ok (ballot, image, log, commit) => do
    return .ok (← ((m.recoverBallot ballot).recoverImage image).recoverLog log commit)

/-- Start a member on a disk. A start that fails gives the disk back, which may have been written
to. Mirrors `start` and `recover`. -/
def start (s : MemberSettings) (disk : δ) (now : Instant) :
    Except Fault (Except (ServiceError × δ) (Member δ)) := do
  match s.validate with
  | .error e => return .error (e, disk)
  | .ok () =>
    match ← (blank s disk).load with
    | .error e => return .error (.storage e, disk)
    | .ok m =>
      match ← m.applyCommitted now with
      | (m, some e) => return .error (e, m.disk)
      | (m, none) => return .ok { m with published := m.replica.status }

end Member

end ReplicatedStore
