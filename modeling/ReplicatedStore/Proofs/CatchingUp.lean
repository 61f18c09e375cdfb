import ReplicatedStore.Proofs.Leading
import ReplicatedStore.Proofs.Merging
import ReplicatedStore.Proofs.Sections
/-!
# Bringing a peer up

A leader that brings a peer up knows nothing of its log. It offers what comes after a guess; a
refusal moves the guess back by one, and a guess inside what the leader has compacted is answered
by an image, which moves it forward again. `Member.exchange` is one round of this, and
`Exchanges` is all of them.

The measure is the guess. A refusal lowers it, and it is refused only above 1; an image is sent at
most once, because the window that comes after it is anchored (`Replica.Trails.exchange_image`,
`Replica.Trails.exchange_entries`). So the rounds end (`catches_up`).
-/
namespace ReplicatedStore

namespace Replica

variable {l f r : Replica}

/-! ## The standing of the two -/

/-- A leader and a member that is to be brought up: both logs are numbered, they match, and what the
member has committed has the leader's terms. -/
structure Trails (f l : Replica) : Prop where
  leads : l.role = .leader
  /-- The leader is listed once, and its log leaves room for another position. -/
  listed : l.members.count l.id ≤ 1
  room : l.lastIndex < maxWord
  term : f.term ≤ l.term
  base : f.snapshotIndex ≤ f.commitIndex
  committed : f.commitIndex ≤ f.lastIndex
  numbers : l.Numbered
  numbered : f.Numbered
  matching : l.Matches f
  agreed : ∀ i, i ≤ f.commitIndex → l.snapshotIndex ≤ i → f.snapshotIndex ≤ i →
    f.termAt i = l.termAt i

theorem Trails.of_sameLog {f' : Replica} (h : f.Trails l) (hs : SameLog f f')
    (ht : f'.term ≤ l.term) : f'.Trails l where
  leads := h.leads
  listed := h.listed
  room := h.room
  term := ht
  base := by rw [hs.base, hs.commit]; exact h.base
  committed := by rw [hs.commit, hs.lastIndex_eq]; exact h.committed
  numbers := h.numbers
  numbered := h.numbered.of_sameLog hs
  matching := h.matching.mono (fun _ _ he => he) fun i _ he => hs.entryAt?_eq i ▸ he
  agreed i hi hl hf := by
    rw [hs.commit] at hi
    rw [hs.base] at hf
    rw [hs.termAt_eq]
    exact h.agreed i hi hl hf

/-- A leader with other books and another commit index. -/
def booked (l : Replica) (next matched : Table NodeId Nat) (commit : Nat) : Replica :=
  { l with next := next, matched := matched, commitIndex := commit }

/-- The leader's books say nothing about the logs. -/
theorem Trails.booked (h : f.Trails l) (next matched : Table NodeId Nat) (commit : Nat) :
    f.Trails (l.booked next matched commit) :=
  ⟨h.leads, h.listed, h.room, h.term, h.base, h.committed, h.numbers, h.numbered, h.matching,
    h.agreed⟩

/-! ## The leader's books -/

/-- The place of the quorum is among the members if the leader is listed once. -/
theorem exists_holding (h : r.members.count r.id ≤ 1) :
    ∃ i, r.holdings[r.quorum - 1]? = some i := by
  have hcount : r.members.length = r.peers.length + r.members.count r.id := by
    rw [List.length_eq_countP_add_countP (fun u => decide (u ≠ r.id)), peers,
      List.countP_eq_length_filter, List.count]
    congr 2
    funext u
    by_cases hu : u = r.id <;> simp [hu]
  have hlen : r.holdings.length = r.peers.length + 1 := by
    rw [r.holdings_perm.length_eq, List.length_map, List.length_append, List.length_singleton]
  exact ⟨_, List.getElem?_eq_getElem (by rw [hlen, quorum]; omega)⟩

theorem exists_advanceCommit (h : r.members.count r.id ≤ 1) :
    ∃ commit advanced, r.advanceCommit = .ok ({ r with commitIndex := commit }, advanced) := by
  obtain ⟨i, hi⟩ := exists_holding h
  unfold advanceCommit
  split
  · exact ⟨_, _, rfl⟩
  · rw [hi]
    simp only
    split
    · exact ⟨_, _, rfl⟩
    · exact ⟨_, _, rfl⟩

/-- A peer that takes what it is sent is known to hold it. -/
theorem recordAppend_taken (hl : l.role = .leader) (hlisted : l.members.count l.id ≤ 1)
    (peer : NodeId) {through : Nat} (hroom : through < maxWord)
    (hmatched : (l.matched.get? peer).getD 0 ≤ through) :
    ∃ commit advanced, l.recordAppend l.term true peer through =
      .ok (l.booked (l.next.insert peer (through + 1)) (l.matched.insert peer through) commit,
        advanced) := by
  have hleads : l.leads = true := decide_eq_true hl
  obtain ⟨commit, advanced, h⟩ := exists_advanceCommit (r := { l with
    next := l.next.insert peer (through + 1), matched := l.matched.insert peer through }) hlisted
  refine ⟨commit, advanced, ?_⟩
  rw [recordAppend, if_neg (Nat.lt_irrefl _), if_neg (by simp [hleads]), if_pos rfl,
    Nat.max_eq_right hmatched]
  exact bind_eq_ok.2 ⟨_, Word.add_eq_ok_iff.2 ⟨hroom, rfl⟩, h⟩

/-- A peer that refuses what it is sent is offered what comes one position earlier. -/
theorem recordAppend_refused (hl : l.role = .leader) {peer : NodeId} {next through : Nat}
    (hnext : l.next.get? peer = some (next + 1)) (hpos : 1 ≤ next) :
    l.recordAppend l.term false peer through =
      .ok (l.booked (l.next.insert peer next) l.matched l.commitIndex, false) := by
  have hleads : l.leads = true := decide_eq_true hl
  rw [recordAppend, if_neg (Nat.lt_irrefl _), if_neg (by simp [hleads]), if_neg (by simp), hnext,
    Option.getD_some]
  simp only [Nat.add_sub_cancel]
  rw [if_pos (by omega)]
  rfl

/-! ## What the member makes of a request -/

/-- The leader's window from a position on. -/
def tail (l : Replica) (next : Nat) : AppendRequest :=
  l.window next (l.log.drop (next - l.snapshotIndex - 1))

theorem appendRequest_eq {peer : NodeId} {next : Nat} (hl : l.role = .leader)
    (hnext : l.next.get? peer = some next) (hlt : l.snapshotIndex < next)
    (hroom : l.snapshotIndex < maxWord) :
    l.needsImage peer = false ∧ l.appendRequest? peer = .ok (some (l.tail next)) := by
  have hneeds : l.needsImage peer = false := (needsImage_eq_false_iff hnext).2 fun _ => hlt
  have hsend : l.sendable? peer = some next := sendable?_eq_some_iff.2 ⟨hl, hneeds, hnext⟩
  exact ⟨hneeds, appendRequest?_eq_some_iff.2 ⟨next, hsend, hroom, rfl⟩⟩

/-- What the leader offers it holds. -/
theorem Numbered.carries_tail (hl : l.Numbered) {next : Nat} (hlt : l.snapshotIndex < next)
    (hle : next ≤ l.lastIndex + 1) : Carries (l.tail next) l := by
  have hlast := hl.lastIndex_eq
  refine ⟨rfl, fun k e he => ?_, ?_⟩
  · simp only [tail, window, List.getElem?_drop] at he ⊢
    rw [entryAt?_of_lt (by omega), ← he]
    congr 1
    omega
  · simp only [tail, window, List.length_drop]
    omega

/-- What an image covers gives way; what comes after it stays if the log agrees there. -/
theorem Trails.rebases (h : f.Trails l) (hbase : f.commitIndex < l.snapshotIndex) :
    ∃ f', f.rebase l.snapshotIndex l.snapshotTerm = .ok f' ∧ f'.term = f.term ∧
      f'.snapshotIndex = l.snapshotIndex ∧ f'.Trails l := by
  obtain ⟨f', hrebase, hf'⟩ := exists_rebased h.numbered
    (Nat.le_trans h.base (Nat.le_of_lt hbase)) l.snapshotTerm
  obtain ⟨log, rfl⟩ := hf'.shape
  refine ⟨_, hrebase, rfl, rfl, h.leads, h.listed, h.room, h.term, Nat.le_refl _, ?_, h.numbers,
    hf'.numbered, h.matching.mono (fun _ _ he => he) hf'.held, fun i hi hli _ => ?_⟩
  · rw [hf'.numbered.lastIndex_eq]
    exact Nat.le_add_right _ _
  · -- the base is the only position that both know and the image has committed
    obtain rfl : i = l.snapshotIndex := Nat.le_antisymm hi hli
    have hpos : 0 < l.snapshotIndex := Nat.lt_of_le_of_lt (Nat.zero_le _) hbase
    rw [termAt_base hpos]
    exact termAt_base (r := { f with
      log := log, snapshotIndex := l.snapshotIndex, snapshotTerm := l.snapshotTerm,
      commitIndex := l.snapshotIndex, lastApplied := l.snapshotIndex }) hpos

/-- An image of the leader is taken, or is committed already; either way the log is anchored where
the image ends. -/
theorem Trails.takesImage (h : f.Trails l) :
    ∃ f' o, f.takeImage l.term l.id l.snapshotIndex l.snapshotTerm = .ok (f', o) ∧
      f'.term = l.term ∧ f'.Trails l ∧
      f'.anchors l.snapshotIndex (l.termAt l.snapshotIndex) = true := by
  have hs := sameLog_accept f l.term l.id
  have hterm := (accept_spec h.term l.id).2
  have haccepted := h.of_sameLog hs (Nat.le_of_eq hterm)
  rw [takeImage, if_neg (Nat.not_lt.2 h.term)]
  simp only
  split
  · next hle =>
    refine ⟨_, _, rfl, hterm, haccepted, ?_⟩
    -- a committed position is covered, or has the leader's term
    have hcommitted := haccepted.committed
    rcases Nat.lt_or_ge (f.accept l.term l.id).snapshotIndex l.snapshotIndex with hlt | hge
    · simp only [anchors, Bool.or_eq_true, Bool.and_eq_true, decide_eq_true_eq]
      exact .inr ⟨by omega, haccepted.agreed _ hle (Nat.le_refl _) (Nat.le_of_lt hlt)⟩
    · simp only [anchors, hge, decide_true, Bool.true_or]
  · next hgt =>
    obtain ⟨f', hrebase, hterm', hbase, htrails⟩ := haccepted.rebases (Nat.lt_of_not_le hgt)
    rw [hrebase]
    refine ⟨f', ⟨true, true⟩, rfl, hterm'.trans hterm, htrails, ?_⟩
    simp only [anchors, hbase, Nat.le_refl, decide_true, Bool.true_or]

/-! ## One request and its answer -/

/-- What a member makes of a request, and its answer. -/
def answer (f : Replica) : Message → Except Fault (Replica × Message)
  | .appendRequest q => do
    let (f, o) ← f.takeEntries q
    return (f, .appendReply f.term o.success)
  | .installRequest q => do
    let (f, _) ← f.takeImage q.term q.leader q.lastIndex q.lastTerm
    return (f, .installReply f.term)
  | other => .ok (f, other)

/-- What a leader makes of the answer to a request that went up to a position. -/
def recordAnswer (l : Replica) (peer : NodeId) (through : Nat) : Message → Except Fault Replica
  | .appendReply term success => do return (← l.recordAppend term success peer through).1
  | .installReply term => do return (← l.recordInstall term peer through).1
  | _ => .ok l

end Replica

variable {δ : Type}

namespace Member

/-- One exchange of a leader with a peer: what is left to send is sent, the peer takes it, and the
leader records the answer. Nothing once there is nothing left. -/
def exchange (m : Member δ) (f : Replica) (peer : NodeId) (target : Nat) :
    Except Fault (Except ServiceError (Option (Member δ × Replica))) := do
  match ← m.nextRequest peer target with
  | .error e => return .error e
  | .ok none => return .ok none
  | .ok (some request) =>
    let through ← sentThrough request
    let (f, reply) ← f.answer request
    let l ← m.replica.recordAnswer peer through reply
    return .ok (some ({ m with replica := l }, f))

variable {m : Member δ} {f f' l' : Replica} {peer : NodeId} {target through : Nat}
  {request reply : Message}

theorem exchange_none (hfetch : m.nextRequest peer target = .ok (.ok none)) :
    m.exchange f peer target = .ok (.ok none) := by
  rw [exchange, hfetch]
  rfl

theorem exchange_some (hfetch : m.nextRequest peer target = .ok (.ok (some request)))
    (hthrough : sentThrough request = .ok through) (hanswer : f.answer request = .ok (f', reply))
    (hrecord : m.replica.recordAnswer peer through reply = .ok l') :
    m.exchange f peer target = .ok (.ok (some ({ m with replica := l' }, f'))) := by
  rw [exchange, hfetch]
  exact bind_eq_ok.2 ⟨_, rfl, bind_eq_ok.2 ⟨_, hthrough, bind_eq_ok.2 ⟨_, hanswer,
    bind_eq_ok.2 ⟨_, hrecord, rfl⟩⟩⟩⟩

/-- The leader's image is the one that its base belongs to. -/
def Illustrated (m : Member δ) : Prop :=
  0 < m.replica.snapshotIndex → ∃ i, m.image = some i ∧
    i.lastIndex = m.replica.snapshotIndex ∧ i.lastTerm = m.replica.snapshotTerm

end Member

/-- So many exchanges, and then nothing is left to send. -/
inductive Exchanges (peer : NodeId) (target : Nat) :
    Nat → Member δ × Replica → Member δ × Replica → Prop where
  | done {m : Member δ} {f : Replica} (run : m.exchange f peer target = .ok (.ok none)) :
    Exchanges peer target 0 (m, f) (m, f)
  | step {m : Member δ} {f : Replica} {n : Nat} {s s' : Member δ × Replica}
    (run : m.exchange f peer target = .ok (.ok (some s))) (rest : Exchanges peer target n s s') :
    Exchanges peer target (n + 1) (m, f) s'

namespace Replica.Trails

variable {m : Member δ} {f : Replica} {peer : NodeId} {next : Nat}

/-- Nothing is left to send to a peer that is known to hold all. -/
theorem done (h : f.Trails m.replica) (f' : Replica) {target : Nat}
    (hmatched : target ≤ (m.replica.matched.get? peer).getD 0) :
    Exchanges peer target 0 (m, f') (m, f') := by
  have hleads : m.replica.leads = true := decide_eq_true h.leads
  refine .done (Member.exchange_none ?_)
  rw [Member.nextRequest, if_neg (by simp [hleads]), if_pos hmatched]

/-- A window is refused, or all of the log is taken. -/
theorem exchange_entries (h : f.Trails m.replica)
    (hmatched : (m.replica.matched.get? peer).getD 0 < m.replica.lastIndex)
    (hnext : m.replica.next.get? peer = some (next + 1)) (hlt : m.replica.snapshotIndex ≤ next)
    (hle : next ≤ m.replica.lastIndex) :
    (1 ≤ next ∧ f.anchors next (m.replica.termAt next) = false ∧
      m.exchange f peer m.replica.lastIndex = .ok (.ok (some
        ({ m with replica := (m.replica.booked (m.replica.next.insert peer next) m.replica.matched
            m.replica.commitIndex) }, f.accept m.replica.term m.replica.id)))) ∨
      ∃ f' next' matched' commit', Merges m.replica f' m.replica.lastIndex ∧
        matched'.get? peer = some m.replica.lastIndex ∧
        m.exchange f peer m.replica.lastIndex = .ok (.ok (some
          ({ m with replica := m.replica.booked next' matched' commit' }, f'))) := by
  have hleads : m.replica.leads = true := decide_eq_true h.leads
  have hlast := h.numbers.lastIndex_eq
  have hroom := h.room
  obtain ⟨hneeds, hrequest⟩ := appendRequest_eq h.leads hnext (Nat.lt_succ_of_le hlt) (by omega)
  have hfetch : m.nextRequest peer m.replica.lastIndex =
      .ok (.ok (some (.appendRequest (m.replica.tail (next + 1))))) := by
    rw [Member.nextRequest, if_neg (by simp [hleads]), if_neg (Nat.not_le.2 hmatched),
      Member.requestFor, hneeds, if_neg Bool.false_ne_true, hrequest]
    rfl
  have hthrough : Member.sentThrough (.appendRequest (m.replica.tail (next + 1))) =
      .ok m.replica.lastIndex := by
    refine Word.add_eq_ok_iff.2 ?_
    simp only [tail, window, List.length_drop]
    omega
  cases ha : f.anchors next (m.replica.termAt next) with
  | false =>
    -- an anchor at 0 is never missing
    have hpos : 1 ≤ next := Nat.pos_of_ne_zero fun h0 => by simp [anchors, h0] at ha
    have hterm := (accept_spec h.term m.replica.id).2
    have hanswer : f.answer (.appendRequest (m.replica.tail (next + 1))) =
        .ok (f.accept m.replica.term m.replica.id, .appendReply m.replica.term false) := by
      refine bind_eq_ok.2 ⟨_, takeEntries_refused (q := m.replica.tail (next + 1)) h.term ha, ?_⟩
      exact congrArg (fun t => Except.ok (_, Message.appendReply t false)) hterm
    exact .inl ⟨hpos, rfl, Member.exchange_some hfetch hthrough hanswer
      (bind_eq_ok.2 ⟨(_, false), recordAppend_refused h.leads hnext hpos, rfl⟩)⟩
  | true =>
    obtain ⟨f', o, htake, hsuccess, htaken⟩ := takeEntries_taken h.numbers (Nat.le_of_lt hroom)
      h.numbered h.matching h.term
      (h.numbers.carries_tail (Nat.lt_succ_of_le hlt) (Nat.succ_le_succ hle)) ha
    obtain ⟨commit, advanced, hrecord⟩ := recordAppend_taken h.leads h.listed peer h.room
      (Nat.le_of_lt hmatched)
    refine .inr ⟨f', m.replica.next.insert peer (m.replica.lastIndex + 1),
      m.replica.matched.insert peer m.replica.lastIndex, commit, htaken.merges,
      Table.get?_insert_self _ _ _, Member.exchange_some hfetch hthrough
        (bind_eq_ok.2 ⟨_, htake, rfl⟩) (bind_eq_ok.2 ⟨(_, advanced), ?_, rfl⟩)⟩
    rw [htaken.term, hsuccess]
    exact hrecord

/-- An image anchors the peer's log at the leader's base, where the next window starts. -/
theorem exchange_image (h : f.Trails m.replica) (himage : m.Illustrated)
    (hmatched : (m.replica.matched.get? peer).getD 0 = 0)
    (hlast : 0 < m.replica.lastIndex) (hnext : m.replica.next.get? peer = some next)
    (hpos : 0 < m.replica.snapshotIndex) (hle : next ≤ m.replica.snapshotIndex) :
    ∃ f' next' matched' commit', f'.Trails m.replica ∧
      f'.anchors m.replica.snapshotIndex (m.replica.termAt m.replica.snapshotIndex) = true ∧
      next'.get? peer = some (m.replica.snapshotIndex + 1) ∧
      matched'.get? peer = some m.replica.snapshotIndex ∧
      m.exchange f peer m.replica.lastIndex = .ok (.ok (some
        ({ m with replica := m.replica.booked next' matched' commit' }, f'))) := by
  have hleads : m.replica.leads = true := decide_eq_true h.leads
  have hend := h.numbers.lastIndex_eq
  have hroom := h.room
  obtain ⟨i, hi, hindex, hiterm⟩ := himage hpos
  have hneeds : m.replica.needsImage peer = true := by
    simp only [needsImage, hnext, Option.any_some, hpos, decide_true, hle, Bool.and_self]
  have hfetch : m.nextRequest peer m.replica.lastIndex = .ok (.ok (some (.installRequest
      ⟨m.replica.term, m.replica.id, m.replica.snapshotIndex, m.replica.snapshotTerm,
        i.entries⟩))) := by
    rw [Member.nextRequest, if_neg (by simp [hleads]), if_neg (by omega), Member.requestFor,
      if_pos hneeds, hi]
    simp only [installRequest?, hleads, if_true, hindex, hiterm]
    rfl
  obtain ⟨f', o, htake, hterm, htrails, hanchors⟩ := h.takesImage
  obtain ⟨commit, advanced, hrecord⟩ := recordAppend_taken h.leads h.listed peer
    (show m.replica.snapshotIndex < maxWord by omega) (by omega)
  refine ⟨f', m.replica.next.insert peer (m.replica.snapshotIndex + 1),
    m.replica.matched.insert peer m.replica.snapshotIndex, commit, htrails, hanchors,
    Table.get?_insert_self _ _ _, Table.get?_insert_self _ _ _, Member.exchange_some hfetch rfl
      (bind_eq_ok.2 ⟨_, htake, rfl⟩) (bind_eq_ok.2 ⟨(_, advanced), ?_, rfl⟩)⟩
  rw [hterm]
  exact hrecord

end Replica.Trails

/-! ## All exchanges -/

/-- A peer that has been brought up: it is known to hold the leader's log, and does; of the leader
only the books have changed. -/
structure BroughtUp (m : Member δ) (peer : NodeId) (m' : Member δ) (f' : Replica) : Prop where
  books : ∃ next matched commit, m' = { m with replica := m.replica.booked next matched commit }
  matched : (m'.replica.matched.get? peer).getD 0 = m.replica.lastIndex
  reach : m.replica.lastIndex ≤ f'.lastIndex
  agrees : m.replica.AgreesTo f' m.replica.lastIndex

section

variable {m m' : Member δ} {f f' : Replica} {peer : NodeId}

theorem BroughtUp.of_booked {next matched : Table NodeId Nat} {commit : Nat}
    (h : BroughtUp { m with replica := m.replica.booked next matched commit } peer m' f') :
    BroughtUp m peer m' f' := by
  obtain ⟨next', matched', commit', rfl⟩ := h.books
  exact ⟨⟨next', matched', commit', rfl⟩, h.matched, h.reach, h.agrees⟩

/-- A window that is taken ends the exchanges. -/
theorem Replica.Trails.exchanges_taken (h : f.Trails m.replica) (hf : Merges m.replica f'
    m.replica.lastIndex) {next matched : Table NodeId Nat} {commit : Nat}
    (hmatched : matched.get? peer = some m.replica.lastIndex)
    (run : m.exchange f peer m.replica.lastIndex = .ok (.ok (some
      ({ m with replica := m.replica.booked next matched commit }, f')))) :
    ∃ m', Exchanges peer m.replica.lastIndex 1 (m, f) (m', f') ∧ BroughtUp m peer m' f' := by
  have hheld : ((m.replica.booked next matched commit).matched.get? peer).getD 0 =
      m.replica.lastIndex := by
    rw [Replica.booked, hmatched]
    rfl
  exact ⟨_, .step run ((h.booked next matched commit).done f' (Nat.le_of_eq hheld.symm)),
    ⟨next, matched, commit, rfl⟩, hheld, hf.reach, hf.agrees⟩

/-- An image and the window after it bring a peer up. -/
theorem Replica.Trails.exchanges_image (h : f.Trails m.replica) (himage : m.Illustrated)
    (hmatched : (m.replica.matched.get? peer).getD 0 = 0) (hlast : 0 < m.replica.lastIndex)
    {next : Nat} (hnext : m.replica.next.get? peer = some next)
    (hpos : 0 < m.replica.snapshotIndex) (hle : next ≤ m.replica.snapshotIndex) :
    ∃ n m' f', n ≤ 2 ∧ Exchanges peer m.replica.lastIndex n (m, f) (m', f') ∧
      BroughtUp m peer m' f' := by
  obtain ⟨f₁, next₁, matched₁, commit₁, h₁, hanchors, hnext₁, hmatched₁, run₁⟩ :=
    h.exchange_image himage hmatched hlast hnext hpos hle
  have hbase : m.replica.snapshotIndex ≤ m.replica.lastIndex := by
    rw [h.numbers.lastIndex_eq]
    exact Nat.le_add_right _ _
  have hheld : ((m.replica.booked next₁ matched₁ commit₁).matched.get? peer).getD 0 =
      m.replica.snapshotIndex := by
    rw [Replica.booked, hmatched₁]
    rfl
  rcases Nat.eq_or_lt_of_le hbase with heq | hlt
  · -- the leader's log is empty
    have hdone := (h₁.booked next₁ matched₁ commit₁).done
      (m := { m with replica := m.replica.booked next₁ matched₁ commit₁ }) f₁
      (Nat.le_of_eq (heq.symm.trans hheld.symm))
    refine ⟨1, _, f₁, by omega, .step run₁ hdone,
      ⟨next₁, matched₁, commit₁, rfl⟩, by rw [hheld, heq], ?_, fun i hi hli => by omega⟩
    exact heq ▸ (Replica.Merges.of_anchors h₁.numbers h₁.numbered h₁.matching hbase hanchors).reach
  · rcases (h₁.booked next₁ matched₁ commit₁).exchange_entries
      (m := { m with replica := m.replica.booked next₁ matched₁ commit₁ })
      (Nat.lt_of_le_of_lt (Nat.le_of_eq hheld) hlt) hnext₁ (Nat.le_refl _) hbase with
      ⟨-, hnot, -⟩ | ⟨f₂, next₂, matched₂, commit₂, hmerges, hmatched₂, run₂⟩
    · cases hanchors.symm.trans hnot
    · obtain ⟨m', hrest, hup⟩ := (h₁.booked next₁ matched₁ commit₁).exchanges_taken
        (m := { m with replica := m.replica.booked next₁ matched₁ commit₁ }) hmerges hmatched₂ run₂
      exact ⟨2, m', f₂, Nat.le_refl _, .step run₁ hrest, hup.of_booked⟩

/-- **Bringing a peer up ends.** Of a leader and a peer whose logs match, where the leader has the
terms of all that the peer has committed: whatever the leader takes the peer's next position to be,
it sends at most one request more than that, and then it knows that the peer holds its whole log.
The logs agree wherever neither is compacted. -/
theorem catches_up (h : f.Trails m.replica) (himage : m.Illustrated)
    (hmatched : (m.replica.matched.get? peer).getD 0 = 0) {next : Nat}
    (hnext : m.replica.next.get? peer = some next) (hfirst : 1 ≤ next)
    (hlast : next ≤ m.replica.lastIndex + 1) :
    ∃ n m' f', n ≤ next + 1 ∧ Exchanges peer m.replica.lastIndex n (m, f) (m', f') ∧
      BroughtUp m peer m' f' := by
  obtain ⟨k, rfl⟩ : ∃ k, next = k + 1 := ⟨next - 1, by omega⟩
  rcases Nat.eq_zero_or_pos m.replica.lastIndex with h0 | hpos
  · exact ⟨0, m, f, Nat.zero_le _, h.done f (by omega), ⟨_, _, _, rfl⟩, by rw [hmatched, h0],
      by omega, fun i hi hli => absurd hli (by omega)⟩
  -- a refusal lowers the guess
  induction k using Nat.strongRecOn generalizing m f with
  | ind k ih =>
    rcases Nat.lt_or_ge k m.replica.snapshotIndex with hcompacted | hheld
    · obtain ⟨n, m', f', hn, hrun, hup⟩ :=
        h.exchanges_image himage hmatched hpos hnext (by omega) hcompacted
      exact ⟨n, m', f', by omega, hrun, hup⟩
    · rcases h.exchange_entries (by omega) hnext hheld (by omega) with
        ⟨hk, -, run⟩ | ⟨f', next', matched', commit', hmerges, hmatched', run⟩
      · obtain ⟨k, rfl⟩ : ∃ k', k = k' + 1 := ⟨k - 1, by omega⟩
        have hterm := (Replica.accept_spec h.term m.replica.id).2
        have hnext₁ : (m.replica.next.insert peer (k + 1)).get? peer = some (k + 1) :=
          Table.get?_insert_self _ _ _
        generalize m.replica.next.insert peer (k + 1) = next₁ at run hnext₁
        have h₁ : (f.accept m.replica.term m.replica.id).Trails ({ m with
            replica := m.replica.booked next₁ m.replica.matched m.replica.commitIndex } :
              Member δ).replica :=
          (h.of_sameLog (Replica.sameLog_accept _ _ _) (Nat.le_of_eq hterm)).booked _ _ _
        obtain ⟨n, m', f', hn, hrest, hup⟩ := ih k (Nat.lt_succ_self k) h₁ himage hmatched hnext₁
          (by omega) (Nat.le_of_succ_le hlast) hpos
        exact ⟨n + 1, m', f', by omega, .step run hrest, hup.of_booked⟩
      · obtain ⟨m', hrun, hup⟩ := h.exchanges_taken hmerges hmatched' run
        exact ⟨1, m', f', by omega, hrun, hup⟩

/-! A leader of term 2 has compacted two positions and holds a third. The peer has three entries of
term 1, of which one is committed. The leader guesses that the peer holds all. -/

namespace Strayed

def put (term index : Nat) : Entry := ⟨term, index, ⟨.put, "k", some "v"⟩⟩

def blank (v : NodeId) : Replica := .create v [1, 2] {}

def leading : Replica :=
  { blank 1 with
    role := .leader
    term := 2
    log := [put 2 3]
    snapshotIndex := 2
    snapshotTerm := 2
    commitIndex := 2
    lastApplied := 2
    next := .ofList [(2, 4)]
    matched := .ofList [(2, 0)] }

def leader : Member MemoryDisk where
  replica := leading
  disk := {}
  machine := .ofList [("k", "v")]
  image := some ⟨[put 2 2], 2, 2, .ofMillis 0⟩
  pending := .empty
  beating := true
  catchingUp := []
  saved := leading.ballot
  stopped := false
  published := leading.status
  outbox := []

def follower : Replica :=
  { blank 2 with term := 1, log := [put 1 1, put 1 2, put 1 3], commitIndex := 1, lastApplied := 1 }

theorem trails : follower.Trails leader.replica where
  leads := rfl
  listed := by decide
  room := by decide
  term := by decide
  base := by decide
  committed := by decide
  numbers k e he := by
    rcases k with _ | k
    · cases he
      rfl
    · cases he
  numbered k e he := by
    rcases k with _ | _ | _ | k
    iterate 3 cases he; rfl
    cases he
  matching i e e' he he' hterm := by
    -- the leader holds one entry, and the peer another one there
    have hlt : 2 < i := Replica.lt_of_entryAt? he
    obtain ⟨k, rfl⟩ : ∃ k, i = k + 3 := ⟨i - 3, by omega⟩
    rcases k with _ | k
    · cases he
      cases he'
      cases hterm
    · cases he
  agreed i hi hl _ := absurd (Nat.le_trans hl hi) (by decide)

end Strayed

theorem catches_up_strayed : Strayed.follower.Trails Strayed.leader.replica ∧
    Strayed.leader.Illustrated ∧
    (Strayed.leader.replica.matched.get? 2).getD 0 = 0 ∧
    Strayed.leader.replica.next.get? 2 = some 4 ∧
    ∃ n m' f', n ≤ 5 ∧
      Exchanges 2 3 n (Strayed.leader, Strayed.follower) (m', f') ∧
      BroughtUp Strayed.leader 2 m' f' :=
  have himage : Strayed.leader.Illustrated := fun _ => ⟨_, rfl, rfl, rfl⟩
  ⟨Strayed.trails, himage, rfl, rfl,
    catches_up Strayed.trails himage rfl rfl (by decide) (by decide)⟩

end

end ReplicatedStore
