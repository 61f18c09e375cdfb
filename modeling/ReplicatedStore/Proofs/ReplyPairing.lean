import Mathlib.Data.List.Induction
import Mathlib.Data.List.Nodup
import ReplicatedStore.Cluster.Service
import ReplicatedStore.Link.Exchange
/-!
# Every reply goes to its own request

Frames carry no number, so on one connection only the order tells which request a reply answers,
and a connection is used for one exchange after another. A link keeps them apart by who holds the
connection. An exchange takes it out of the link, puts it back when it has read its reply, and drops
it in every other case. So a connection that is free has nothing on its way, and one in use has the
one request of its exchange or the answer to it (`Link.Orderly`). Every event keeps that
(`Orderly.step`): calls may overlap, stop waiting, fail at any point or get bytes that are no
reply.

From it follows that a message which `send` returns is what the peer answered to that very request,
while it was the only one on the connection (`replies_reach_their_callers`). That the peer answers
the frames of a connection one by one, in their order, is `answerStream_frames`.
-/
namespace ReplicatedStore

/-- The call that comes with an event. -/
def LinkEvent.call? : LinkEvent → Option Call
  | .call c => some c
  | _ => none

/-- Nothing is on its way on a connection. -/
structure Connection.Clear (k : Connection) : Prop where
  unanswered : k.unanswered = []
  answers : k.answers = []

namespace Phase

/-- The connection of an exchange carries its own request, or the answer to that, at most. -/
def Own (c : Call) : Phase → Prop
  | .connecting => True
  | .writing k => k.Clear
  | .reading k =>
    k.unanswered = [c] ∧ k.answers = [] ∨ k.unanswered = [] ∧ ∃ o, k.answers = [(c, o)]

/-- The request that the peer still has to answer. -/
def due (c : Call) : Phase → List Call
  | .connecting | .writing _ => [c]
  | .reading k => k.unanswered

/-- The reply that is on its way. -/
def owed : Phase → List (Call × FrameReply)
  | .reading k => k.answers.filterMap fun (c, o) => o.toOption.map (c, ·)
  | _ => []

end Phase

namespace Link

/-- The reply that the peer sends with an event, and the request that it answers. -/
def reply? (l : Link) : LinkEvent → Option (Call × FrameReply)
  | .answered (.ok reply) =>
    match l.active with
    | some (_, .reading ⟨q :: _, _, false⟩) => some (q, reply)
    | _ => none
  | _ => none

/-- The replies that the peer sends in the course of some events, oldest first. -/
def replies (l : Link) : List LinkEvent → List (Call × FrameReply)
  | [] => []
  | e :: es =>
    (l.reply? e).toList ++
      match l.step e with
      | some l => replies l es
      | none => []

/-- What the callers that sent messages were given. -/
def sends (l : Link) : List (Call × Except TransportError Message) :=
  l.results.map fun (c, r) => (c, r.bind messageOf)

/-- The replies that callers were given. -/
def given (l : Link) : List (Call × FrameReply) :=
  l.results.filterMap fun (c, r) => r.toOption.map (c, ·)

/-- The reply that the exchange which has the link is about to read. -/
def owed (l : Link) : List (Call × FrameReply) :=
  match l.active with
  | some (_, p) => p.owed
  | none => []

/-- The calls that the peer has not answered, in the order in which it will come to them. -/
def ahead (l : Link) : List Call :=
  (match l.active with
    | some (c, p) => p.due c
    | none => []) ++ l.waiting

theorem run_concat (l : Link) (es : List LinkEvent) (e : LinkEvent) :
    l.run (es ++ [e]) = (l.run es).bind (·.step e) := by
  induction es generalizing l with
  | nil => cases h : l.step e <;> simp [run, h]
  | cons e' es ih => cases h : l.step e' <;> simp [run, h, ih]

theorem replies_concat {l l' : Link} {es : List LinkEvent} (h : l.run es = some l')
    (e : LinkEvent) : l.replies (es ++ [e]) = l.replies es ++ (l'.reply? e).toList := by
  induction es generalizing l with
  | nil =>
    obtain rfl : l = l' := Option.some.inj h
    cases hs : l.step e <;> simp [replies, hs]
  | cons e' es ih =>
    cases hs : l.step e' with
    | none => simp [run, hs] at h
    | some l₁ =>
      rw [run, hs, Option.bind_some] at h
      simp [replies, hs, ih h]

/-! ## What an exchange holds -/

@[simp] theorem given_answer_ok (l : Link) (c : Call) (reply : FrameReply) :
    (l.answer c (.ok reply)).given = l.given ++ [(c, reply)] := by
  simp [given, answer, Except.toOption]

@[simp] theorem given_answer_error (l : Link) (c : Call) (e : TransportError) :
    (l.answer c (.error e)).given = l.given := by
  simp [given, answer, Except.toOption]

/-- A link holds nothing that could reach the wrong caller: `calls` have come, and the peer has
sent the replies `told`. -/
structure Orderly (l : Link) (calls : List Call) (told : List (Call × FrameReply)) : Prop where
  /-- A free connection has nothing on its way. -/
  idle : ∀ k, l.idle = some k → k.Clear
  /-- A connection in use has the one request of its exchange or the answer to it. -/
  own : ∀ c p, l.active = some (c, p) → p.Own c
  /-- Callers are given the replies of the peer, each once and in its order. -/
  given : (l.given ++ l.owed).Sublist told
  /-- The peer answers the calls in the order in which they came, each once. -/
  asked : (told.map Prod.fst ++ l.ahead).Sublist calls

theorem orderly_new (peer : NodeId) : Orderly { peer := peer } [] [] :=
  ⟨by simp, by simp, by simp [Link.given, owed], by simp [ahead]⟩

namespace Orderly

variable {l l' : Link} {calls : List Call} {told : List (Call × FrameReply)}

/-- Nothing happens but that a reply is no longer due, or not given any more. -/
theorem drop (h : l.Orderly calls told) (hidle : ∀ k, l'.idle = some k → k.Clear)
    (hown : ∀ c p, l'.active = some (c, p) → p.Own c)
    (hgiven : (l'.given ++ l'.owed).Sublist (l.given ++ l.owed))
    (hahead : l'.ahead.Sublist l.ahead) : l'.Orderly calls told :=
  ⟨hidle, hown, hgiven.trans h.given, ((List.Sublist.refl _).append hahead).trans h.asked⟩

/-- An exchange that ends without a reply takes its connection with it. -/
theorem fail (h : l.Orderly calls told) (c : Call) (e : TransportError) :
    (l.fail c e).Orderly calls told := by
  refine h.drop h.idle (by simp [Link.fail, answer]) ?_ ?_
  · rw [Link.fail, given_answer_error]
    simp [owed, answer, Link.given]
  · simp [Link.fail, answer, ahead]

/-- The exchange that has the link goes on to another phase. -/
theorem advance (h : l.Orderly calls told) {c : Call} {p p' : Phase}
    (active : l.active = some (c, p)) (hown : p'.Own c) (howed : p'.owed = p.owed)
    (hdue : p'.due c = p.due c) : { l with active := some (c, p') }.Orderly calls told := by
  refine h.drop h.idle (fun _ _ ha => ?_) ?_ ?_
  · cases ha
    exact hown
  · simp [owed, active, howed, Link.given]
  · simp [ahead, active, hdue]

/-- A caller comes. -/
theorem call (h : l.Orderly calls told) (c : Call) :
    (if l.closed then l.answer c (.error .closed)
      else { l with waiting := l.waiting ++ [c] }).Orderly (calls ++ [c]) told := by
  split
  · refine ⟨h.idle, h.own, ?_, h.asked.trans (List.sublist_append_left _ _)⟩
    rw [given_answer_error]
    exact h.given
  · refine ⟨h.idle, h.own, h.given, ?_⟩
    have hmore := h.asked.append (List.Sublist.refl [c])
    simpa only [ahead, List.append_assoc] using hmore

/-- The caller that has waited longest gets the link and the connection, if there is one. -/
theorem take (h : l.Orderly calls told) {c : Call} {cs : List Call} (active : l.active = none)
    (waiting : l.waiting = c :: cs) :
    { l with
      idle := none
      active := some (c, match l.idle with
        | some k => .writing k
        | none => .connecting)
      waiting := cs }.Orderly calls told := by
  refine h.drop (by simp) (fun _ _ ha => ?_) ?_ ?_
  · cases ha
    cases hi : l.idle with
    | none => trivial
    | some k => exact h.idle k hi
  · cases hi : l.idle <;> simp [owed, active, Link.given, Phase.owed]
  · cases hi : l.idle <;> simp [ahead, active, waiting, Phase.due]

/-- The request goes out, on a connection with nothing on its way. -/
theorem written (h : l.Orderly calls told) {c : Call} {k : Connection}
    (active : l.active = some (c, .writing k)) :
    { l with active := some (c, .reading { k with unanswered := k.unanswered ++ [c] }) }.Orderly
      calls told := by
  have hk : k.Clear := h.own _ _ active
  refine h.advance active (.inl ⟨?_, hk.answers⟩) ?_ ?_
  · simp [hk.unanswered]
  · simp [Phase.owed, hk.answers]
  · simp [Phase.due, hk.unanswered]

/-- The peer answers: the request that it answers is that of the exchange. -/
theorem answered (h : l.Orderly calls told) {c q : Call} {qs : List Call}
    {answers : List (Call × Except String FrameReply)} {ended : Bool}
    (active : l.active = some (c, .reading ⟨q :: qs, answers, ended⟩))
    (reply : Except String FrameReply) :
    { l with active := some (c, .reading ⟨qs, answers ++ [(q, reply)], ended⟩) }.Orderly calls
      (told ++ (reply.toOption.map (q, ·)).toList) := by
  obtain ⟨hq, rfl⟩ | ⟨hq, -⟩ := h.own _ _ active <;> cases hq
  have hgiven := h.given
  have hasked := h.asked
  simp only [owed, ahead, active, Phase.owed, Phase.due, List.filterMap_nil, List.append_nil]
    at hgiven hasked
  refine ⟨h.idle, fun _ _ ha => ?_, ?_, ?_⟩
  · cases ha
    exact .inr ⟨rfl, reply, rfl⟩
  · cases reply with
    | error _ => simpa [owed, Phase.owed, Link.given, Except.toOption] using hgiven
    | ok r =>
      simpa [owed, Phase.owed, Link.given, Except.toOption]
        using hgiven.append (List.Sublist.refl [(c, r)])
  · refine .trans ?_ hasked
    cases reply <;> simp [ahead, Phase.due, Except.toOption]

/-- The peer hangs up; what is on its way stays. -/
theorem hungUp (h : l.Orderly calls told) (hs : l.step .hungUp = some l') :
    l'.Orderly calls told := by
  rw [Link.step] at hs
  split at hs <;> cases hs
  · next active =>
    have hk : Connection.Clear _ := h.own _ _ active
    exact h.advance active ⟨hk.unanswered, hk.answers⟩ rfl rfl
  · next k active =>
    have hk : (Phase.reading k).Own _ := h.own _ _ active
    exact h.advance active hk rfl rfl
  · refine h.drop (fun k hk => ?_) h.own (.refl _) (.refl _)
    obtain ⟨k, hi, rfl⟩ := Option.map_eq_some_iff.1 hk
    exact ⟨(h.idle k hi).unanswered, (h.idle k hi).answers⟩

/-- The exchange reads its reply, and leaves a connection with nothing on its way. -/
theorem read (h : l.Orderly calls told) {c q : Call} {k : Connection} {reply : FrameReply}
    {rest : List (Call × Except String FrameReply)} (active : l.active = some (c, .reading k))
    (answers : k.answers = (q, .ok reply) :: rest) :
    (answer { l with active := none, idle := some { k with answers := rest } } c
      (.ok reply)).Orderly calls told := by
  obtain ⟨-, hno⟩ | ⟨hun, o, hone⟩ := h.own _ _ active
  · simp [hno] at answers
  · obtain ⟨⟨rfl, rfl⟩, rfl⟩ : (c = q ∧ o = .ok reply) ∧ [] = rest := by
      simpa using hone.symm.trans answers
    refine h.drop (fun k' hk' => ?_) (by simp [answer]) ?_ ?_
    · cases hk'
      exact ⟨hun, rfl⟩
    · rw [given_answer_ok]
      simp [owed, active, Phase.owed, answers, answer, Link.given, Except.toOption]
    · simp [ahead, answer]

/-- A caller stops waiting; its exchange, if it has the link, takes the connection with it. -/
theorem abandon (h : l.Orderly calls told) (caller : Nat) :
    { l with
      active := l.active.filter fun a => a.1.caller ≠ caller
      waiting := l.waiting.filter fun c => c.caller ≠ caller }.Orderly calls told := by
  have hwaiting := List.filter_sublist (l := l.waiting) (p := fun c => c.caller ≠ caller)
  cases ha : l.active.filter fun a => a.1.caller ≠ caller with
  | none =>
    refine h.drop h.idle (by simp) ?_ ?_
    · simp [owed, Link.given]
    · exact hwaiting.trans (List.sublist_append_right _ _)
  | some a =>
    have hactive := (Option.filter_eq_some_iff.1 ha).1
    refine h.drop h.idle (fun c p hp => h.own c p (hactive.trans hp)) ?_ ?_
    · simp [owed, hactive, Link.given]
    · simpa only [ahead, hactive] using (List.Sublist.refl _).append hwaiting

/-- An event with which nobody calls and the peer sends nothing. -/
theorem quiet (h : l.Orderly calls told) {e : LinkEvent} (hs : l.step e = some l')
    (hcall : e.call? = none) (hanswered : ∀ reply, e ≠ .answered reply) :
    l'.Orderly calls told := by
  cases e with
  | call c => simp [LinkEvent.call?] at hcall
  | answered reply => exact absurd rfl (hanswered reply)
  | hungUp => exact h.hungUp hs
  | abandon caller =>
    cases hs
    exact h.abandon caller
  | close =>
    cases hs
    exact h.drop h.idle h.own (.refl _) (.refl _)
  | take =>
    rw [Link.step] at hs
    split at hs <;> cases hs
    exact h.take ‹_› ‹_›
  | connected =>
    rw [Link.step] at hs
    split at hs <;> cases hs
    next active => exact h.advance active ⟨rfl, rfl⟩ rfl rfl
  | written =>
    rw [Link.step] at hs
    split at hs <;> cases hs
    exact h.written ‹_›
  | refused | writeFailed _ | readFailed _ =>
    rw [Link.step] at hs
    split at hs <;> cases hs
    exact h.fail _ _
  | read =>
    rw [Link.step] at hs
    split at hs
    · next active =>
      split at hs
      · next answers =>
        cases hs
        exact h.read active answers
      · cases hs
        exact h.fail _ _
      · split at hs <;> cases hs
        exact h.fail _ _
    · cases hs
  | dropIdle =>
    rw [Link.step] at hs
    split at hs <;> cases hs
    exact h.drop (by simp) h.own (.refl _) (.refl _)

/-- A request that the peer answers is the only one on the connection. -/
theorem active_of_reply (h : l.Orderly calls told) {c : Call} {o : Except String FrameReply}
    {reply : FrameReply} (hreply : l.reply? (.answered o) = some (c, reply)) :
    c ∈ l.ahead ∧ l.active = some (c, .reading { unanswered := [c] }) := by
  cases o with
  | error _ => cases hreply
  | ok r =>
    rw [reply?] at hreply
    split at hreply <;> cases hreply
    next active =>
      obtain ⟨hq, rfl⟩ | ⟨hq, -⟩ := h.own _ _ active <;> cases hq
      exact ⟨by simp [ahead, active, Phase.due], active⟩

/-- **One event.** -/
theorem step (h : l.Orderly calls told) {e : LinkEvent} (hs : l.step e = some l') :
    l'.Orderly (calls ++ e.call?.toList) (told ++ (l.reply? e).toList) := by
  cases e with
  | call c =>
    cases hs
    simpa [LinkEvent.call?, reply?] using h.call c
  | answered reply =>
    rw [Link.step] at hs
    split at hs <;> cases hs
    next active =>
      have ha := h.answered active reply
      cases reply <;> simpa [LinkEvent.call?, reply?, active, Except.toOption] using ha
  | _ => simpa [LinkEvent.call?, reply?] using h.quiet hs rfl (by simp)

/-- **Any sequence of events.** -/
theorem run {peer : NodeId} {es : List LinkEvent} (hrun : Link.run { peer := peer } es = some l) :
    l.Orderly (es.filterMap LinkEvent.call?) (Link.replies { peer := peer } es) := by
  induction es using List.reverseRecOn generalizing l with
  | nil =>
    cases hrun
    exact orderly_new peer
  | append_singleton es e ih =>
    rw [run_concat] at hrun
    obtain ⟨l₀, hes, hs⟩ := Option.bind_eq_some_iff.1 hrun
    rw [replies_concat hes, List.filterMap_append]
    have := (ih hes).step hs
    cases he : e.call? <;> simpa [he] using this

end Orderly

/-- What the peer sends, it sends to a request that was on its way when it did. -/
theorem mem_replies {l : Link} {es : List LinkEvent} {c : Call} {reply : FrameReply}
    (h : (c, reply) ∈ l.replies es) :
    ∃ before after l₀, es = before ++ .answered (.ok reply) :: after ∧
      l.run before = some l₀ ∧ l₀.reply? (.answered (.ok reply)) = some (c, reply) := by
  induction es generalizing l with
  | nil => simp [replies] at h
  | cons e es ih =>
    rw [replies, List.mem_append, Option.mem_toList] at h
    rcases h with h | h
    · have he : e = .answered (.ok reply) := by
        unfold reply? at h
        split at h
        · split at h <;> cases h
          rfl
        · cases h
      subst he
      exact ⟨[], es, l, rfl, rfl, h⟩
    · cases hs : l.step e with
      | none => simp [hs] at h
      | some l₁ =>
        rw [hs] at h
        obtain ⟨before, after, l₀, rfl, hrun, hreply⟩ := ih h
        exact ⟨e :: before, after, l₀, rfl, by simp [run, hs, hrun], hreply⟩

/-- What `send` returns as a message is a reply that the caller was given. -/
theorem given_of_sends {l : Link} {c : Call} {m : Message} (h : (c, .ok m) ∈ l.sends) :
    (c, .raft m) ∈ l.given := by
  obtain ⟨⟨c', r⟩, hmem, heq⟩ := List.mem_map.1 h
  obtain ⟨rfl, hr⟩ := Prod.mk.inj heq
  refine List.mem_filterMap.2 ⟨_, hmem, ?_⟩
  rcases r with e | reply
  · cases hr
  · cases reply <;> cases hr
    rfl

end Link

/-- **Every message that `send` returns is the peer's reply to that request.** The peer sent it
when this request was the only one on the connection and had no other answer on its way. If no two
sends are alike, the peer sent that caller no other reply. -/
theorem replies_reach_their_callers {peer : NodeId} {es : List LinkEvent} {l : Link}
    (run : Link.run { peer := peer } es = some l) {c : Call} {m : Message}
    (sent : (c, .ok m) ∈ l.sends) :
    (∃ before after l₀, es = before ++ .answered (.ok (.raft m)) :: after ∧ .call c ∈ before ∧
      Link.run { peer := peer } before = some l₀ ∧
      l₀.active = some (c, .reading { unanswered := [c] })) ∧
    ((es.filterMap LinkEvent.call?).Nodup →
      ∀ reply, (c, reply) ∈ Link.replies { peer := peer } es → reply = .raft m) := by
  have h := Link.Orderly.run run
  have told : (c, .raft m) ∈ Link.replies { peer := peer } es :=
    h.given.subset (List.mem_append_left _ (Link.given_of_sends sent))
  refine ⟨?_, fun distinct reply hreply => ?_⟩
  · obtain ⟨before, after, l₀, hes, hbefore, hreply⟩ := Link.mem_replies told
    have h₀ := Link.Orderly.run hbefore
    obtain ⟨due, active⟩ := h₀.active_of_reply hreply
    have came := h₀.asked.subset (List.mem_append_right _ due)
    obtain ⟨e, he, hcall⟩ := List.mem_filterMap.1 came
    cases e <;> cases hcall
    exact ⟨before, after, l₀, hes, he, hbefore, active⟩
  · have once : ((Link.replies { peer := peer } es).map Prod.fst).Nodup :=
      ((List.sublist_append_left _ _).trans h.asked).nodup distinct
    exact congrArg Prod.snd (List.inj_on_of_nodup_map once hreply told rfl)

/-! ### A caller that stops waiting, bytes that are no reply, and a connection that is used again -/

namespace Hasty

/-- A request for a vote in a term. -/
def call (term : Nat) : Call := ⟨term, .raft (.voteRequest ⟨term, 1, 0, 0⟩)⟩

def reply (term : Nat) (granted : Bool) : Message := .voteReply term granted

/-- The first caller stops waiting with its request on the way; the second gets bytes that are no
reply; the third and the fourth share a connection. -/
def events : List LinkEvent :=
  [.call (call 1), .take, .connected, .call (call 2), .written, .abandon 1, .call (call 3),
    .take, .connected, .written, .answered (.error "EOF while parsing a value"), .read, .take,
    .connected, .call (call 4), .written, .answered (.ok (.raft (reply 3 false))), .read, .take,
    .written, .answered (.ok (.raft (reply 4 true))), .hungUp, .read]

/-- What the callers are given. -/
def results : List (Call × Except TransportError FrameReply) :=
  [(call 2, .error (.codec "EOF while parsing a value")), (call 3, .ok (.raft (reply 3 false))),
    (call 4, .ok (.raft (reply 4 true)))]

end Hasty

theorem replies_reach_their_callers_hasty :
    ∃ l, Link.run { peer := 2 } Hasty.events = some l ∧ l.results = Hasty.results ∧
      (Hasty.events.filterMap LinkEvent.call?).Nodup ∧
      ∀ reply, (Hasty.call 4, reply) ∈ Link.replies { peer := 2 } Hasty.events →
        reply = .raft (Hasty.reply 4 true) := by
  have distinct : (Hasty.events.filterMap LinkEvent.call?).Nodup := by decide
  have run : Link.run { peer := 2 } Hasty.events = some
      { peer := 2, idle := some { ended := true }, results := Hasty.results } := rfl
  have sent : (Hasty.call 4, .ok (Hasty.reply 4 true)) ∈ Link.sends
      { peer := 2, idle := some { ended := true }, results := Hasty.results } :=
    .tail _ (.tail _ (.head _))
  exact ⟨_, run, rfl, distinct, (replies_reach_their_callers run sent).2 distinct⟩

/-! ## The peer's side -/

namespace Cluster

/-- Answer some frames, one after the other. -/
def answerFrames (id : NodeId) (addresses : Table NodeId String) :
    List Frame → Cluster → Except Fault (Cluster × List FrameReply)
  | [], c => .ok (c, [])
  | f :: fs, c => do
    let (c, reply) ← c.answerFrame id addresses f
    let (c, replies) ← answerFrames id addresses fs c
    return (c, reply :: replies)

/-- Every frame has one answer. -/
theorem length_answerFrames {id : NodeId} {addresses : Table NodeId String} {fs : List Frame}
    {c c' : Cluster} {replies : List FrameReply}
    (h : answerFrames id addresses fs c = .ok (c', replies)) : replies.length = fs.length := by
  induction fs generalizing c replies with
  | nil =>
    cases h
    rfl
  | cons f fs ih =>
    obtain ⟨⟨c₁, reply⟩, -, h⟩ := bind_eq_ok.1 h
    obtain ⟨⟨c₂, rest⟩, hrest, h⟩ := bind_eq_ok.1 h
    cases h
    simp [ih hrest]

theorem front_frame {content : Bytes} (short : content.length ≤ Framing.maxLength)
    (rest : Bytes) :
    Framing.front (Framing.writeLength content.length ++ content ++ rest) =
      .frame content rest := by
  simp [Framing.front, List.append_assoc, Framing.readLength?_writeLength short,
    Nat.not_lt.2 short]

/-- **A connection's frames are answered one by one, in their order**, and what comes after them
is answered after them. -/
theorem answerStream_frames (id : NodeId) (addresses : Table NodeId String) (fuel : Nat)
    (rest : Bytes) {contents : List Bytes} {fs : List Frame}
    (decoded : contents.map (Json.decode? Frame.ofJson?) = fs.map some)
    (short : ∀ b ∈ contents, b.length ≤ Framing.maxLength) (c : Cluster) :
    answerStream id addresses (contents.length + fuel)
        (contents.flatMap (fun b => Framing.writeLength b.length ++ b) ++ rest) c = (do
      let (c, replies) ← answerFrames id addresses fs c
      let (c, later, open?) ← answerStream id addresses fuel rest c
      return (c, replies ++ later, open?)) := by
  induction contents generalizing fs c with
  | nil =>
    obtain rfl : fs = [] := by simpa using decoded.symm
    simp only [List.length_nil, Nat.zero_add, List.flatMap_nil, List.nil_append]
    exact (bind_pure _).symm
  | cons b contents ih =>
    obtain ⟨f, fs, rfl⟩ : ∃ f fs', fs = f :: fs' := by
      cases fs <;> simp at decoded ⊢
    simp only [List.map_cons, List.cons.injEq] at decoded
    rw [List.length_cons, Nat.add_right_comm, answerStream, List.flatMap_cons, List.append_assoc,
      front_frame (short b (by simp))]
    simp only [decoded.1, answerFrames, ih decoded.2 fun b hb => short b (by simp [hb]),
      bind_assoc, pure_bind, List.cons_append]

end Cluster

end ReplicatedStore
