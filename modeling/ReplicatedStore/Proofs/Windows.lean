import ReplicatedStore.Proofs.CatchingUp
import ReplicatedStore.Proofs.EnduringRuns
import ReplicatedStore.Proofs.Sources
/-!
# Windows of a leader's log

An append request shows a peer what comes after a position of the leader's log, and a heartbeat
shows it that position alone. Both are looked up by position: for a position that is not known the
term is 0, and entries from below the base are those from the base on. So a request that is off by
one is no failure, and looks like any other.

`Replica.TrueWindow` says what a request has to show, and speaks of the entries by the positions
they carry, not by their place in the list. A leader whose log is in line sends nothing else, as
long as it keeps a position of its log for the peer, or the one after it (`requests_true_to_log`).

In runs of a cluster it does keep such positions (`Replica.Tracks`), and no term is 0, whatever
writes fail. So every append request that was ever sent was a true window of its sender's log, and
shows term 0 before the first position only (`World.Drawn`, `HaltingReachable.drawn`).
-/
namespace ReplicatedStore

/-- Entries in line are at one position after another. -/
theorem Lined.map_index {base : Nat} {es : List Entry} (h : Lined base es) :
    es.map (·.index) = List.range' (base + 1) es.length := by
  induction es generalizing base with
  | nil => rfl
  | cons e es ih =>
    obtain ⟨he, hes⟩ := h.tail
    rw [List.map_cons, he, ih hes, List.length_cons, List.range'_succ]

namespace Replica

variable {r : Replica} {peer : NodeId} {next through i t : Nat} {e : Entry} {es : List Entry}
  {q : AppendRequest}

/-! ## Terms of positions -/

/-- The term of a position: 0 before the first one, that of the image where the image ends, and that
of the entry where the log holds one. -/
inductive Dates (r : Replica) : Nat → Nat → Prop
  | start : Dates r 0 0
  | base : 0 < r.snapshotIndex → Dates r r.snapshotIndex r.snapshotTerm
  | entry {e : Entry} : e ∈ r.log → Dates r e.index e.term

/-- Neither the image nor an entry is of term 0. -/
structure Termed (r : Replica) : Prop where
  base : 0 < r.snapshotIndex → 0 < r.snapshotTerm
  log : ∀ e ∈ r.log, 0 < e.term

theorem mem_of_entryAt? (h : r.entryAt? i = some e) : e ∈ r.log := by
  rw [entryAt?_of_lt (lt_of_entryAt? h)] at h
  exact List.mem_of_getElem? h

namespace Numbered

theorem entryAt?_of_mem (h : r.Numbered) (he : e ∈ r.log) : r.entryAt? e.index = some e := by
  obtain ⟨k, hk⟩ := List.getElem?_of_mem he
  have hindex := h k e hk
  rw [entryAt?_of_lt (by omega), ← hk]
  congr 1
  omega

/-- From the base to the end of the log the lookup finds the term of a position, and there is no
other. -/
theorem dates_iff (h : r.Numbered) (hbase : r.snapshotIndex ≤ i) (hlast : i ≤ r.lastIndex) :
    r.Dates i t ↔ t = r.termAt i := by
  constructor
  · intro hdates
    cases hdates with
    | start => rfl
    | base hpos => exact (termAt_base hpos).symm
    | entry he => exact (termAt_of_entryAt? (h.entryAt?_of_mem he)).symm
  · rintro rfl
    rcases Nat.eq_zero_or_pos i with rfl | hpos
    · exact .start
    rcases Nat.eq_or_lt_of_le hbase with rfl | hlt
    · rw [termAt_base hpos]
      exact .base hpos
    · obtain ⟨e, he⟩ := h.exists_entryAt? hlt hlast
      rw [termAt_of_entryAt? he, ← h.index_entryAt? he]
      exact .entry (mem_of_entryAt? he)

/-- If no term is 0, term 0 is that before the first position. -/
theorem eq_zero_iff_of_dates (h : r.Numbered) (ht : r.Termed) (hdates : r.Dates i t) :
    t = 0 ↔ i = 0 := by
  cases hdates with
  | start => exact iff_of_true rfl rfl
  | base hpos =>
    have hterm := ht.base hpos
    omega
  | entry he =>
    have hterm := ht.log _ he
    have hlt := lt_of_entryAt? (h.entryAt?_of_mem he)
    omega

end Numbered

/-! ## Windows -/

/-- The request is the leader's own and shows its log from a position on, up to another one: it
names the position before, with the term of that position, and carries the entry of each position
in between, in order. -/
structure TrueWindow (r : Replica) (next through : Nat) (q : AppendRequest) : Prop where
  term : q.term = r.term
  leader : q.leader = r.id
  commit : q.leaderCommit = r.commitIndex
  prev : q.prevIndex + 1 = next
  dated : ∀ t, r.Dates q.prevIndex t ↔ t = q.prevTerm
  /-- Term 0 stands for no term only before the first position. -/
  zero : r.Termed → (q.prevTerm = 0 ↔ q.prevIndex = 0)
  held : ∀ e ∈ q.entries, e ∈ r.log
  positions : q.entries.map (·.index) = List.range' next (through + 1 - next)
  fits : q.prevIndex + q.entries.length = through
  inside : through ≤ r.lastIndex

/-- Entries that the log holds from a position on make a true window. -/
theorem Numbered.trueWindow (h : r.Numbered) (hlt : r.snapshotIndex < next)
    (hle : next ≤ r.lastIndex + 1) (hes : es <+: r.log.drop (next - r.snapshotIndex - 1))
    (hthrough : through + 1 = next + es.length) : r.TrueWindow next through (r.window next es) := by
  have hlast := h.lastIndex_eq
  have hlen := hes.length_le
  rw [List.length_drop] at hlen
  have hdates : ∀ t, r.Dates (next - 1) t ↔ t = r.termAt (next - 1) :=
    fun t => h.dates_iff (by omega) (by omega)
  have hlined : Lined (next - 1) es := by
    have hdrop := (Lined.drop h (next - r.snapshotIndex - 1)).of_isPrefix hes
    rwa [show r.snapshotIndex + (next - r.snapshotIndex - 1) = next - 1 by omega] at hdrop
  have hprev : next - 1 + 1 = next := by omega
  refine ⟨rfl, rfl, rfl, hprev, hdates, fun ht => ?_, fun e he => ?_, ?_, ?_, by omega⟩
  · exact h.eq_zero_iff_of_dates ht ((hdates _).2 rfl)
  · exact List.mem_of_mem_drop (hes.subset he)
  · exact hlined.map_index.trans (by rw [hprev, show through + 1 - next = es.length by omega])
  · simp only [window]
    omega

/-- What the leader counts a peer to hold that accepts the window is where the window ends. -/
theorem TrueWindow.sentThrough (h : r.TrueWindow next through q) (hword : through ≤ maxWord) :
    Member.sentThrough (.appendRequest q) = .ok through :=
  Word.add_eq_ok_iff.2 ⟨h.fits ▸ hword, h.fits⟩

/-- The two windows that there are from a position on: all that comes, and nothing. -/
theorem Numbered.trueWindow_tail (h : r.Numbered) (hlt : r.snapshotIndex < next)
    (hle : next ≤ r.lastIndex + 1) : r.TrueWindow next r.lastIndex (r.tail next) := by
  have hlast := h.lastIndex_eq
  refine h.trueWindow hlt hle List.prefix_rfl ?_
  rw [List.length_drop]
  omega

theorem Numbered.trueWindow_nil (h : r.Numbered) (hlt : r.snapshotIndex < next)
    (hle : next ≤ r.lastIndex + 1) : r.TrueWindow next (next - 1) (r.window next []) :=
  h.trueWindow hlt hle List.nil_prefix (by simp only [List.length_nil]; omega)

/-! ## Requests -/

/-- A peer that needs the image is sent no entries, and no heartbeat either. -/
theorem sendable?_of_needsImage (h : r.needsImage peer = true) : r.sendable? peer = none := by
  rw [sendable?, h, Bool.or_true, if_pos rfl]

theorem heartbeat_eq (leads : r.role = .leader) (cursor : r.next.get? peer = some next)
    (hneeds : r.needsImage peer = false) : r.heartbeat? peer = some (r.window next []) := by
  have hsend : r.sendable? peer = some next := sendable?_eq_some_iff.2 ⟨leads, hneeds, cursor⟩
  rw [heartbeat?, hsend, Option.map_some]

/-- **Requests are true windows.** Take a leader whose log is in line after its base, and a peer
that it is to send a position of the log next, or the one after it. The peer needs the image just if
there is one and it covers that position, and is sent nothing else then. If not, an append request
shows it the log from there to its end, and a heartbeat is the same window without entries; neither
covers a position that the log does not have. -/
theorem requests_true_to_log (leads : r.role = .leader) (h : r.Numbered)
    (cursor : r.next.get? peer = some next) (first : 1 ≤ next) (last : next ≤ r.lastIndex + 1)
    (word : next ≤ maxWord) (words : r.lastIndex ≤ maxWord) :
    (r.needsImage peer = true ↔ 0 < r.snapshotIndex ∧ next ≤ r.snapshotIndex) ∧
      (r.needsImage peer = true → r.appendRequest? peer = .ok none ∧ r.heartbeat? peer = none) ∧
      (r.needsImage peer = false → ∃ q beat, r.appendRequest? peer = .ok (some q) ∧
        r.heartbeat? peer = some beat ∧ r.TrueWindow next r.lastIndex q ∧
        r.TrueWindow next (next - 1) beat ∧ beat.entries = [] ∧
        Member.sentThrough (.appendRequest q) = .ok r.lastIndex ∧
        Member.sentThrough (.appendRequest beat) = .ok (next - 1)) := by
  refine ⟨needsImage_iff cursor, fun hneeds => ?_, fun hneeds => ?_⟩
  · have hnone := sendable?_of_needsImage hneeds
    exact ⟨by rw [appendRequest?, hnone], by rw [heartbeat?, hnone, Option.map_none]⟩
  · have hlt : r.snapshotIndex < next := by
      have hpast := (needsImage_eq_false_iff cursor).1 hneeds
      omega
    have htail := h.trueWindow_tail hlt last
    have hnil := h.trueWindow_nil hlt last
    exact ⟨r.tail next, r.window next [],
      (appendRequest_eq leads cursor hlt (Nat.lt_of_lt_of_le hlt word)).2,
      heartbeat_eq leads cursor hneeds, htail, hnil, rfl, htail.sentThrough words,
      hnil.sentThrough (Nat.le_trans hnil.inside words)⟩

/-- A leader in term 3 that has compacted two positions. It is to send the one after its base to
member 2, and one of those that it compacted to member 3. -/
def compacted : Replica :=
  { create 1 [1, 2, 3] {} with
    role := .leader
    term := 3
    log := [⟨2, 3, .put "a" "x"⟩, ⟨3, 4, .put "b" "y"⟩, ⟨3, 5, .delete "a"⟩]
    snapshotIndex := 2
    snapshotTerm := 1
    commitIndex := 4
    lastApplied := 4
    next := .ofList [(2, 3), (3, 2)]
    matched := .ofList [(2, 0), (3, 0)] }

/-- Member 2 is shown all of the log, and where the image ends. Member 3 is shown nothing. -/
theorem requests_true_to_log_compacted :
    compacted.role = .leader ∧ compacted.Numbered ∧ compacted.next.get? 2 = some 3 ∧
      compacted.next.get? 3 = some 2 ∧ 3 ≤ compacted.lastIndex + 1 ∧
      compacted.lastIndex ≤ maxWord ∧
      (∃ q beat, compacted.appendRequest? 2 = .ok (some q) ∧ compacted.heartbeat? 2 = some beat ∧
        q.prevIndex = 2 ∧ q.prevTerm = 1 ∧ q.entries.map (·.index) = [3, 4, 5] ∧
        Member.sentThrough (.appendRequest q) = .ok 5 ∧
        beat.prevIndex = 2 ∧ beat.prevTerm = 1 ∧ beat.entries = [] ∧
        Member.sentThrough (.appendRequest beat) = .ok 2) ∧
      compacted.needsImage 3 = true ∧ compacted.appendRequest? 3 = .ok none ∧
      compacted.heartbeat? 3 = none := by
  have hnumbered : compacted.Numbered := by
    rintro (_ | _ | _ | k) e he <;> cases he <;> rfl
  have hlast : 3 ≤ compacted.lastIndex + 1 := by decide
  have hwords : compacted.lastIndex ≤ maxWord := by decide
  have hbase : compacted.Dates 2 1 := .base (by decide)
  have hcursor₂ : compacted.next.get? 2 = some 3 := rfl
  have hcursor₃ : compacted.next.get? 3 = some 2 := rfl
  obtain ⟨hneeds₂, -, hshown⟩ :=
    requests_true_to_log rfl hnumbered hcursor₂ (by decide) hlast (by decide) hwords
  obtain ⟨hneeds₃, hnone, -⟩ :=
    requests_true_to_log rfl hnumbered hcursor₃ (by decide) (by decide) (by decide) hwords
  have hfree : compacted.needsImage 2 = false :=
    Bool.eq_false_iff.2 fun hneeds => absurd (hneeds₂.1 hneeds).2 (by decide)
  have hbehind : compacted.needsImage 3 = true := hneeds₃.2 (by decide)
  obtain ⟨q, beat, hq, hbeat, hwindow, hempty, hnil, hthrough, hthrough'⟩ := hshown hfree
  have hprev : q.prevIndex = 2 := Nat.succ.inj hwindow.prev
  have hprev' : beat.prevIndex = 2 := Nat.succ.inj hempty.prev
  refine ⟨rfl, hnumbered, hcursor₂, hcursor₃, hlast, hwords, ⟨q, beat, hq, hbeat, hprev, ?_,
    hwindow.positions, hthrough, hprev', ?_, hnil, hthrough'⟩, hbehind, hnone hbehind⟩
  · exact ((hwindow.dated 1).1 (hprev ▸ hbase)).symm
  · exact ((hempty.dated 1).1 (hprev' ▸ hbase)).symm

/-! ## Leaders in a run -/

/-- What a leader sends to a peer: a true window from the peer's next position on, up to the end of
the log or with nothing in it, and what the leader counts it to cover. -/
def ShowsTo (r : Replica) (peer : NodeId) (q : AppendRequest) : Prop :=
  ∃ next through, r.next.get? peer = some next ∧ r.TrueWindow next through q ∧
    (through = r.lastIndex ∨ q.entries = []) ∧
    Member.sentThrough (.appendRequest q) = .ok through

variable {x : History} {acked : NodeId → Nat → Prop}

theorem Spans.numbered (h : r.Spans x) : r.Numbered := by
  intro k e he
  rw [h.log, List.getElem?_drop] at he
  exact h.sane.index _ e he

/-- No entry of a history is of term 0. -/
theorem Spans.termed (h : r.Spans x) : r.Termed where
  base hpos := by
    obtain ⟨e, he, hterm⟩ := History.exists_getElem? hpos h.base
    rw [h.term, hterm]
    exact h.sane.term e (List.mem_of_getElem? he)
  log e he := by
    rw [h.log] at he
    exact h.sane.term e (List.mem_of_mem_drop he)

theorem TrueWindow.showsTo (h : r.TrueWindow next through q)
    (hs : r.sendable? peer = some next) (hwhole : through = r.lastIndex ∨ q.entries = [])
    (hword : r.lastIndex ≤ maxWord) : r.ShowsTo peer q := by
  obtain ⟨-, -, hnext⟩ := sendable?_eq_some_iff.1 hs
  exact ⟨next, through, hnext, h, hwhole, h.sentThrough (Nat.le_trans h.inside hword)⟩

namespace Tracks

theorem showsTo_appendRequest (h : Tracks r x.length acked) (hx : r.Spans x)
    (hword : x.length ≤ maxWord) (hq : r.appendRequest? peer = .ok (some q)) :
    r.ShowsTo peer q := by
  rw [← hx.lastIndex_eq] at h hword
  obtain ⟨next, hs, -, rfl⟩ := appendRequest?_eq_some_iff.1 hq
  obtain ⟨hlt, hle⟩ := h.sendable hs
  exact (hx.numbered.trueWindow_tail hlt hle).showsTo hs (.inl rfl) hword

theorem showsTo_heartbeat (h : Tracks r x.length acked) (hx : r.Spans x)
    (hword : x.length ≤ maxWord) (hq : r.heartbeat? peer = some q) : r.ShowsTo peer q := by
  rw [← hx.lastIndex_eq] at h hword
  obtain ⟨next, hs, rfl⟩ := Option.map_eq_some_iff.1 hq
  obtain ⟨hlt, hle⟩ := h.sendable hs
  exact (hx.numbered.trueWindow_nil hlt hle).showsTo hs (.inr rfl) hword

end Tracks

end Replica

/-! ## Runs -/

variable {c : Conditions} {w w' : World} {v u : NodeId} {m : Member MemoryDisk} {d : Deed}
  {req : Request} {q : AppendRequest}

/-- On the way to a world, a leader sent the request to this peer as a true window of the log that
it had, and with term 0 before the first position only. -/
def World.Drawn (c : Conditions) (w : World) (req : Request) (q : AppendRequest) : Prop :=
  ∃ w₁ m, HaltingReachable c w₁ ∧ HaltingRun c w₁ w ∧ w₁.sites req.sender = .up m ∧
    m.replica.role = .leader ∧ m.replica.ShowsTo req.receiver q ∧
    (q.prevTerm = 0 ↔ q.prevIndex = 0)

theorem World.Drawn.tail (h : w.Drawn c req q) (hstep : HaltingStep c u w w') :
    w'.Drawn c req q := by
  obtain ⟨w₁, m, h₁, hrun, hsent⟩ := h
  exact ⟨w₁, m, h₁, hrun.tail ⟨u, hstep⟩, hsent⟩

/-- A leader in a run knows the terms of its log, and what it sends to a peer shows the log. -/
theorem HaltingReachable.showsTo (h : HaltingReachable c w) (up : w.sites v = .up m)
    (running : m.stopped = false) (leads : m.replica.role = .leader) {peer : NodeId}
    (hq : m.replica.appendRequest? peer = .ok (some q) ∨ m.replica.heartbeat? peer = some q) :
    m.replica.ShowsTo peer q ∧ (q.prevTerm = 0 ↔ q.prevIndex = 0) := by
  obtain ⟨P, H, hendures⟩ := h.endures
  obtain ⟨f, hruns⟩ := (hendures.up v m up).runs running
  obtain ⟨rfl, R, -, -, -, htracks⟩ := hruns.post.leads leads
  have hspans := hruns.firm.spans
  have hword := hendures.length_le (hendures.sound.upright v).rooted
  have hshows : m.replica.ShowsTo peer q := by
    rcases hq with hq | hq
    · exact htracks.showsTo_appendRequest hspans hword hq
    · exact htracks.showsTo_heartbeat hspans hword hq
  obtain ⟨next, through, -, hwindow, -⟩ := id hshows
  exact ⟨hshows, hwindow.zero hspans.termed⟩

/-- **One section** sends true windows of the log that it finds. -/
theorem Act.drawn (h : HaltingReachable c w) (up : w.sites v = .up m) (running : m.stopped = false)
    (act : Act c w v m d) (sent : req ∈ d.requests) (body : req.body = .appendRequest q) :
    w.Drawn c req q := by
  cases act with
  | @timeout m' request run =>
    cases request with
    | none => cases sent
    | some request =>
      obtain ⟨p, -, rfl⟩ := List.mem_map.1 sent
      cases body
  | fetch known run =>
    obtain rfl := List.mem_singleton.1 sent
    rcases Member.nextRequest_cases run with ⟨q', rfl, hq⟩ | ⟨i, q', rfl, -⟩
    · cases body
      have hleads := Replica.role_of_appendRequest hq
      exact ⟨w, m, h, .refl, up, hleads, h.showsTo up running hleads (.inl hq)⟩
    · cases body
  | beat run =>
    obtain ⟨rfl, rfl⟩ := Prod.mk.inj run
    obtain ⟨b, hb, rfl⟩ := List.mem_map.1 sent
    cases body
    obtain ⟨-, hq⟩ := Member.of_mem_heartbeats hb
    have hleads := Replica.role_of_heartbeat hq
    exact ⟨w, m, h, .refl, up, hleads, h.showsTo up running hleads (.inr hq)⟩
  | _ => cases sent

/-- **A run.** Whatever writes fail in it, every append request that was ever sent in a run from
empty disks was a true window of its sender's log, and shows term 0 before the first position
only. -/
theorem HaltingReachable.drawn (h : HaltingReachable c w) (sent : req ∈ w.requests)
    (body : req.body = .appendRequest q) : w.Drawn c req q := by
  induction h with
  | refl => cases sent
  | tail hw hstep ih =>
    obtain ⟨u, hstep⟩ := hstep
    cases id hstep with
    | act up running act whole =>
      rcases List.mem_append.1 sent with sent | sent
      · exact (ih sent).tail hstep
      · exact (act.drawn hw up running sent body).tail hstep
    | shutDown | start =>
      rcases List.mem_append.1 sent with sent | sent
      · exact (ih sent).tail hstep
      · cases sent
    | failToStart | stop | hear => exact (ih sent).tail hstep

end ReplicatedStore
