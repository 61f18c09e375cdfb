import ReplicatedStore.Wire.Shape
/-!
# Links

A link carries requests to one peer over a connection that is kept between exchanges. One exchange
has the link at a time, and the others wait. While it has the link, the connection is its own: an
exchange that fails or is abandoned takes the connection with it, so that a reply that is still to
come reaches nobody.

The peer answers the requests on a connection in their order. `Link.step` is one event; an event
that cannot happen has no next state.
-/
namespace ReplicatedStore

/-- A caller's request. -/
structure Call where
  caller : Nat
  frame : Frame
  deriving DecidableEq, Repr

/-- A connection. -/
structure Connection where
  /-- Requests that the peer has not answered, oldest first. -/
  unanswered : List Call := []
  /-- Answers on their way back, each with the request it answers; for bytes that are no reply,
  what the decoder says of them. -/
  answers : List (Call × Except String FrameReply) := []
  /-- The peer hung up. -/
  ended : Bool := false
  deriving DecidableEq, Repr

/-- How far an exchange is. -/
inductive Phase where
  | connecting
  | writing (c : Connection)
  | reading (c : Connection)
  deriving DecidableEq, Repr

/-- A link to one peer. Mirrors one slot of `TcpTransport`. -/
structure Link where
  peer : NodeId
  /-- The connection that no exchange has. -/
  idle : Option Connection := none
  /-- The exchange that has the link. -/
  active : Option (Call × Phase) := none
  /-- Calls that wait for the link. -/
  waiting : List Call := []
  closed : Bool := false
  /-- What callers were given. -/
  results : List (Call × Except TransportError FrameReply) := []

/-- What can happen to a link. -/
inductive LinkEvent where
  /-- A caller comes with a request. -/
  | call (c : Call)
  /-- The caller that has waited longest gets the link. -/
  | take
  | connected
  | refused
  | written
  | writeFailed (text : String)
  /-- The peer answers the oldest request on the active connection. -/
  | answered (reply : Except String FrameReply)
  /-- The peer hangs up. -/
  | hungUp
  /-- The active exchange reads what has come. -/
  | read
  | readFailed (text : String)
  /-- A caller stops waiting. -/
  | abandon (caller : Nat)
  | close
  /-- The connection of a closed link is dropped. -/
  | dropIdle
  deriving DecidableEq, Repr

namespace Link

/-- Give a caller its result. -/
def answer (l : Link) (c : Call) (r : Except TransportError FrameReply) : Link :=
  { l with results := l.results ++ [(c, r)] }

/-- End the active exchange; its connection is gone. -/
def fail (l : Link) (c : Call) (e : TransportError) : Link :=
  answer { l with active := none } c (.error e)

/-- The link after an event. Mirrors the awaits of `exchange`. -/
def step (l : Link) : LinkEvent → Option Link
  | .call c =>
    some (if l.closed then l.answer c (.error .closed) else { l with waiting := l.waiting ++ [c] })
  | .take =>
    match l.active, l.waiting with
    | none, c :: cs =>
      some { l with
        idle := none
        active := some (c, match l.idle with
          | some k => .writing k
          | none => .connecting)
        waiting := cs }
    | _, _ => none
  | .connected =>
    match l.active with
    | some (c, .connecting) => some { l with active := some (c, .writing {}) }
    | _ => none
  | .refused =>
    match l.active with
    | some (c, .connecting) => some (l.fail c (.unreachable l.peer))
    | _ => none
  | .written =>
    match l.active with
    | some (c, .writing k) =>
      some { l with active := some (c, .reading { k with unanswered := k.unanswered ++ [c] }) }
    | _ => none
  | .writeFailed text =>
    match l.active with
    | some (c, .writing _) => some (l.fail c (.io text))
    | _ => none
  | .answered reply =>
    match l.active with
    | some (c, .reading ⟨q :: qs, answers, false⟩) =>
      some { l with active := some (c, .reading ⟨qs, answers ++ [(q, reply)], false⟩) }
    | _ => none
  | .hungUp =>
    match l.active with
    | some (c, .writing k) => some { l with active := some (c, .writing { k with ended := true }) }
    | some (c, .reading k) => some { l with active := some (c, .reading { k with ended := true }) }
    | _ => some { l with idle := l.idle.map fun k => { k with ended := true } }
  | .read =>
    match l.active with
    | some (c, .reading k) =>
      match k.answers with
      | (_, .ok reply) :: rest =>
        some (answer { l with active := none, idle := some { k with answers := rest } } c
          (.ok reply))
      | (_, .error text) :: _ => some (l.fail c (.codec text))
      | [] => if k.ended then some (l.fail c (.unreachable l.peer)) else none
    | _ => none
  | .readFailed text =>
    match l.active with
    | some (c, .reading _) => some (l.fail c (.io text))
    | _ => none
  | .abandon caller =>
    some { l with
      active := l.active.filter fun a => a.1.caller ≠ caller
      waiting := l.waiting.filter fun c => c.caller ≠ caller }
  | .close => some { l with closed := true }
  | .dropIdle => if l.closed && l.active.isNone then some { l with idle := none } else none

/-- The link after a sequence of events. -/
def run (l : Link) : List LinkEvent → Option Link
  | [] => some l
  | e :: es => (l.step e).bind (run · es)

/-- The message that a reply carries. A peer that could not answer says why, and any other reply is
quoted. Mirrors the match of `send`. -/
def messageOf : FrameReply → Except TransportError Message
  | .raft m => .ok m
  | .failed reason => .error (.unexpectedResponse reason)
  | other => .error (.unexpectedResponse other.shape)

end Link

end ReplicatedStore
