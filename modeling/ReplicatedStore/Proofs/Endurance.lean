import ReplicatedStore.Proofs.FalteringRestarts
import ReplicatedStore.Proofs.HaltingRuns
import ReplicatedStore.Proofs.Posts
/-!
# Chronicles of runs with failing writes

When a chronicle is true of a world in which writes fail (`Chronicle.Endures`). The chronicle notes
what nodes have stored: `H.term v` is the term on the disk of `v`, which may be behind the one in
memory, and `H.log v` is the history that `v` votes with. Its commit indices are not used; what is
committed is said to be fixed where it is spoken of.

An image may be on a disk without the log after it. Such a disk yields a history that nobody has:
what the image stands for, and above it what was there before (`Grafted`). The node goes on voting
with what it had before, and this does no harm: all of the grafted history below the image is
committed, and the entries above it match no leader's log. It ends when a leader's entries or a
later image reach beyond the first.
-/
namespace ReplicatedStore

open History

namespace Chronicle

variable {H H' : Chronicle} {members : List NodeId} {a v : NodeId} {x f y : History}
  {base commit t k : Nat} {r r' : Replica} {m m' : Member MemoryDisk} {d : MemoryDisk}

/-! ## Grafted histories -/

/-- The history `f` is `x`, or it has above an image what `x` has there, and no more than the image
is committed of it. -/
def Grafted (x f : History) (base commit : Nat) : Prop :=
  f = x ∨ (base < x.length ∧ f.drop base = x.drop base ∧ commit = base)

/-- Nothing is between two bounds that coincide. -/
theorem Grafted.squeeze (h : Grafted x f base commit) {b n : Nat} (hb : base ≤ b) (hbn : b ≤ n)
    (hn : n ≤ commit) : Grafted x f b n := by
  rcases h with rfl | ⟨hlt, hdrop, rfl⟩
  · exact .inl rfl
  · obtain rfl : b = commit := Nat.le_antisymm (Nat.le_trans hbn hn) hb
    exact .inr ⟨hlt, hdrop, Nat.le_antisymm hn hbn⟩

theorem Grafted.length_eq (h : Grafted x f base commit) : f.length = x.length := by
  rcases h with rfl | ⟨hlt, hdrop, -⟩
  · rfl
  · have hlen := congrArg List.length hdrop
    rw [List.length_drop, List.length_drop] at hlen
    omega

/-- Above the image the entries are the same. -/
theorem Grafted.getElem?_eq (h : Grafted x f base commit) (hk : base ≤ k) : f[k]? = x[k]? := by
  rcases h with rfl | ⟨-, hdrop, -⟩
  · rfl
  · have hget := congrArg (fun l => l[k - base]?) hdrop
    simpa only [List.getElem?_drop, Nat.add_sub_cancel' hk] using hget

theorem Grafted.lastTerm_eq (h : Grafted x f base commit) : f.lastTerm = x.lastTerm := by
  have hlen := h.length_eq
  rcases id h with rfl | ⟨hlt, -⟩
  · rfl
  · have hget := h.getElem?_eq (k := x.length - 1) (by omega)
    simp only [History.lastTerm, History.termAt, hlen, hget]

theorem Grafted.behind (h : Grafted x f base commit) (hb : Behind f y) : Behind x y := by
  unfold Behind at hb ⊢
  rwa [← h.lastTerm_eq, ← h.length_eq]

/-- If the image stands for what was there before, nothing is grafted. -/
theorem Grafted.eq_of_isPrefix (h : Grafted x f base commit) (hp : f.take base <+: x) : f = x := by
  have hlen := h.length_eq
  rcases h with rfl | ⟨hlt, hdrop, -⟩
  · rfl
  · have htake := take_of_isPrefix hp (i := base) (by rw [List.length_take]; omega)
    rw [List.take_take, Nat.min_self] at htake
    rw [← List.take_append_drop base f, htake, hdrop, List.take_append_drop]

/-- What is above the image matches a leader's log only if nothing is grafted. -/
theorem Grafted.eq_of_getElem? (h : Grafted x f base commit) (hx : H.Rooted x) (hy : H.Rooted y)
    (hp : f.take base <+: y) (hk : base ≤ k) {e e' : Entry} (he : f[k]? = some e)
    (he' : y[k]? = some e') (ht : e.term = e'.term) : f = x := by
  have hlt := (List.getElem?_eq_some_iff.1 he).1
  have htake := hx.take_eq hy (h.getElem?_eq hk ▸ he) he' ht
  refine h.eq_of_isPrefix ?_
  have hp' : f.take base <+: y.take (k + 1) := prefix_take hp (by rw [List.length_take]; omega)
  exact hp'.trans (htake ▸ List.take_prefix _ _)

/-- A grafted history matches the log of a leader that has what is below the image. -/
theorem Grafted.matching (h : Grafted x f base commit) (hx : H.Rooted x) (hy : H.Rooted y)
    (hp : f.take base <+: y) : Replica.Matching f y := by
  intro k hkf hky ht
  rcases Nat.lt_or_ge k base with hlt | hge
  · have hlen : k + 1 ≤ (f.take base).length := by
      rw [List.length_take]
      omega
    rw [← take_of_isPrefix hp hlen, List.take_take, Nat.min_eq_left hlt]
  · have he := List.getElem?_eq_getElem hkf
    have he' := List.getElem?_eq_getElem hky
    rw [termAt_of_getElem? he, termAt_of_getElem? he'] at ht
    obtain rfl := h.eq_of_getElem? hx hy hp hge he he' ht
    exact hx.take_eq hy he he' ht

/-- Adopting a leader's prefix: it reaches beyond the image and nothing is grafted any more, or it
is below the image and nothing changes. -/
theorem Grafted.adopt (h : Grafted x f base commit) (hx : H.Rooted x) (hy : H.Rooted y)
    (hp : f.take base <+: y) (hb : base ≤ f.length) (hk : k ≤ y.length) :
    adopt x (y.take k) = adopt f (y.take k) ∨
      (k ≤ base ∧ y.take k = f.take k ∧ adopt f (y.take k) = f) := by
  have hlenb : (f.take base).length = base := List.length_take_of_le hb
  by_cases hfx : f = x
  · exact .inl (by rw [hfx])
  rcases Nat.lt_or_ge base k with hlt | hge
  · refine .inl ?_
    have hpk : f.take base <+: y.take k := prefix_take hp (by omega)
    have hnx : ¬ y.take k <+: x := fun hpx => hfx (h.eq_of_isPrefix (hpk.trans hpx))
    have hnf : ¬ y.take k <+: f := by
      intro hpf
      have hlen : (y.take k).length = k := List.length_take_of_le hk
      obtain ⟨e, he, -⟩ := exists_getElem? (x := y) (i := k) (by omega) hk
      have hf : f[k - 1]? = some e := by
        refine getElem?_mono hpf ?_
        rw [List.getElem?_take_of_lt (by omega), he]
      exact hfx (h.eq_of_getElem? hx hy hp (by omega) hf he rfl)
    rw [History.adopt, if_neg hnx, History.adopt, if_neg hnf]
  · have htake : y.take k = f.take k := by
      rw [← take_of_isPrefix hp (by omega), List.take_take, Nat.min_eq_left hge]
    refine .inr ⟨hge, htake, ?_⟩
    rw [htake, History.adopt, if_pos (List.take_prefix _ _)]

/-! ## Nodes -/

/-- The disk of a node yields a history that the node may have, and all that counts as committed of
it is. -/
structure Stores (H : Chronicle) (members : List NodeId) (v : NodeId) (d : MemoryDisk)
    (f : History) : Prop where
  yields : d.contents.Yields f
  grafted : Grafted (H.log v) f d.contents.base d.contents.reach
  fixed : H.Fixed members (H.term v) (f.take d.contents.reach)
  term : d.contents.ballot.term = H.term v
  readable : d.unreadable = false

/-- A node that is up. Of one that halted only the disk counts. -/
def Serves (H : Chronicle) (members : List NodeId) (v : NodeId) (m : Member MemoryDisk) : Prop :=
  ∃ f, H.Stores members v m.disk f ∧ (m.stopped = false →
    m.Firm f ∧ H.Post members v m.replica f ∧ m.replica.settings.validate = .ok ())

theorem Stores.of_leaves {low high : Nat} (h : d.Leaves f low high)
    (hg : Grafted (H.log v) f low high) (hf : H.Fixed members (H.term v) (f.take high))
    (ht : d.contents.ballot.term = H.term v) : H.Stores members v d f where
  yields := h.yields
  grafted := hg.squeeze h.low (Nat.le_max_left _ _) h.high
  fixed := hf.of_isPrefix (take_prefix_take h.high)
  term := ht
  readable := h.readable

/-- **The end of a section.** -/
theorem Serves.of_finishes (h : Member.Finishes r m' f)
    (hg : Grafted (H.log v) f r.snapshotIndex r.commitIndex)
    (hf : H.Fixed members (H.term v) (f.take r.commitIndex)) (ht : m'.saved.term = H.term v)
    (hvalid : r.settings.validate = .ok ()) (hpost : m'.stopped = false → H.Post members v r f) :
    H.Serves members v m' := by
  refine ⟨f, .of_leaves h.leaves hg hf ?_, fun hrun => ?_⟩
  · rw [h.stored]
    exact ht
  · obtain ⟨-, hfirm, hsame⟩ := h.runs hrun
    exact ⟨hfirm, (hpost hrun).of_sameButLog hsame, hsame.settings ▸ hvalid⟩

/-- What a node that runs has at the end of a section. -/
structure Runs (H : Chronicle) (members : List NodeId) (v : NodeId) (m : Member MemoryDisk)
    (f : History) : Prop where
  firm : m.Firm f
  post : H.Post members v m.replica f
  valid : m.replica.settings.validate = .ok ()
  grafted : Grafted (H.log v) f m.replica.snapshotIndex m.replica.commitIndex
  fixed : H.Fixed members (H.term v) (f.take m.replica.commitIndex)
  term : m.saved.term = H.term v

theorem Serves.runs (h : H.Serves members v m) (hrun : m.stopped = false) :
    ∃ f, H.Runs members v m f := by
  obtain ⟨f, hstores, hruns⟩ := h
  obtain ⟨hfirm, hpost, hvalid⟩ := hruns hrun
  have hreach := hfirm.reach_eq
  refine ⟨f, hfirm, hpost, hvalid, ?_, ?_, ?_⟩
  · rw [← hfirm.base_eq, ← hreach]
    exact hstores.grafted
  · rw [← hreach]
    exact hstores.fixed
  · rw [← hfirm.stored]
    exact hstores.term

theorem Runs.serves (h : H.Runs members v m f) : H.Serves members v m := by
  refine ⟨f, .of_leaves h.firm.leaves h.grafted h.fixed ?_, fun _ => ⟨h.firm, h.post, h.valid⟩⟩
  rw [h.firm.stored]
  exact h.term

/-- A section that changes nothing but the bookkeeping. -/
theorem Runs.of_core (h : H.Runs members v m f) (hc : m'.core = m.core) :
    H.Runs members v m' f := by
  obtain ⟨hr, -, -, -, hs⟩ := Member.core_eq_iff.1 hc
  refine ⟨h.firm.of_core hc, ?_, ?_, ?_, ?_, ?_⟩
  · rw [hr]; exact h.post
  · rw [hr]; exact h.valid
  · rw [hr]; exact h.grafted
  · rw [hr]; exact h.fixed
  · rw [hs]; exact h.term

/-- A section that stores nothing new of the history or the ballot. -/
theorem Runs.of_firm (h : H.Runs members v m f) (hfirm : m'.Firm f)
    (hset : m'.replica.settings = m.replica.settings)
    (hbase : m.replica.snapshotIndex ≤ m'.replica.snapshotIndex)
    (hcommit : m'.replica.commitIndex = m.replica.commitIndex) (hsaved : m'.saved = m.saved)
    (hpost : H.Post members v m'.replica f) : H.Runs members v m' f where
  firm := hfirm
  post := hpost
  valid := hset ▸ h.valid
  grafted := h.grafted.squeeze hbase (Nat.le_trans hfirm.applied hfirm.committed)
    (Nat.le_of_eq hcommit)
  fixed := hcommit ▸ h.fixed
  term := (congrArg Ballot.term hsaved).trans h.term

/-- A section that changes no entry. The chronicle notes the term that is stored then. -/
theorem Runs.raise (h : H.Runs members v m f) (hbehind : H.term v ≤ m.replica.term)
    (hr : Replica.SameLog m.replica r) (hle : m.replica.term ≤ r.term)
    (hfin : Member.Finishes r m' f) (hsaved : m'.saved = m.saved ∨ m'.saved = r.ballot)
    (hpost : (H.raise v r.term).Post members v r f) :
    (H.raise v m'.saved.term).Serves members v m' := by
  have hx := extends_raise H v m'.saved.term
  have ht : H.term v ≤ m'.saved.term := by
    rcases hsaved with hsaved | hsaved <;> rw [hsaved]
    · exact Nat.le_of_eq h.term.symm
    · exact Nat.le_trans hbehind hle
  refine .of_finishes hfin ?_ ?_ ?_ (hr.settings ▸ h.valid) fun hrun => ?_
  · rw [hr.base, hr.commit]
    exact h.grafted
  · rw [hr.commit]
    exact (h.fixed.mono (hx.term v)).extend hx
  · rw [term_raise, Nat.max_eq_right ht]
  · rw [(hfin.runs hrun).1]
    exact hpost

theorem Serves.of_gist (h : H.Serves members v m) (hg : m'.gist = m.gist) :
    H.Serves members v m' := by
  obtain ⟨hc, hstop⟩ := Member.gist_eq_iff.1 hg
  obtain ⟨hr, hd, -⟩ := Member.core_eq_iff.1 hc
  obtain ⟨f, hstores, hruns⟩ := h
  refine ⟨f, hd ▸ hstores, fun hrun => ?_⟩
  obtain ⟨hfirm, hpost, hvalid⟩ := hruns (hstop ▸ hrun)
  exact ⟨hfirm.of_core hc, hr ▸ hpost, hr ▸ hvalid⟩

/-! ## Nodes that did nothing -/

theorem Stores.extend (h : H.Stores members v d f) (hx : Extends a H H') (hv : v ≠ a) :
    H'.Stores members v d f := by
  obtain ⟨hlog, hterm, -⟩ := hx.others v hv
  exact ⟨h.yields, hlog ▸ h.grafted, hterm ▸ h.fixed.extend hx, h.term.trans hterm.symm, h.readable⟩

theorem Serves.extend (h : H.Serves members v m) (hs : H.Sound members) (hx : Extends a H H')
    (hv : v ≠ a) : H'.Serves members v m := by
  obtain ⟨f, hstores, hruns⟩ := h
  exact ⟨f, hstores.extend hx hv, fun hrun =>
    (hruns hrun).imp_right fun hpost => hpost.imp_left fun hpost => hpost.extend hs hx hv⟩

/-! ## Worlds -/

/-- The chronicle is true of a world in which writes fail. -/
structure Endures (H : Chronicle) (c : Conditions) (P : NodeId → Ballot → Prop) (w : World) :
    Prop where
  elections : Elections c P w
  sound : H.Sound c.members
  up : ∀ v m, w.sites v = .up m → H.Serves c.members v m
  down : ∀ v d, w.sites v = .down d → ∃ f, H.Stores c.members v d f
  told : ∀ r ∈ w.requests, H.Told c.members r.sender r.body ∧ r.body.term ≤ H.term r.sender
  answered : ∀ r reply, (r, reply) ∈ w.replies →
    H.Answered (H.Backs c.members) r reply ∧ reply.term ≤ H.term r.receiver
  crowned : ∀ t R, H.reign t = some R → ∃ Q, Voters c P R.leader t Q ∧ Majority c.members Q
  fits : ∀ t R, H.reign t = some R → R.log.length ≤ maxWord

variable {c : Conditions} {P P' : NodeId → Ballot → Prop} {w : World}

theorem Endures.initial (c : Conditions) :
    Chronicle.initial.Endures c (fun _ b => b = ⟨0, none⟩) (.initial c) where
  elections := .initial c
  sound := .initial _
  up _ _ h := nomatch h
  down v d h := by
    cases h
    exact ⟨[], ⟨.nil, Nat.le_refl _, Nat.le_refl _, rfl, [], nofun, rfl⟩, .inl rfl, .inl rfl, rfl,
      rfl⟩
  told _ h := nomatch h
  answered _ _ h := nomatch h
  crowned _ _ h := nomatch h
  fits _ _ h := nomatch h

/-- **What a section has to show**, also one that failed. -/
theorem Endures.after (h : H.Endures c P w) {d : Deed} (he : Elections c P' (w.after v d))
    (hmono : ∀ u b, P u b → P' u b) (hx : Extends v H H') (hs : H'.Sound c.members)
    (hserves : H'.Serves c.members v d.member)
    (htold : ∀ r ∈ d.requests, H'.Told c.members r.sender r.body ∧
      r.body.term ≤ H'.term r.sender)
    (hanswered : ∀ r reply, (r, reply) ∈ d.replies → H'.Answered (H'.Backs c.members) r reply ∧
      reply.term ≤ H'.term r.receiver)
    (hcrowned : ∀ t R, H'.reign t = some R → H.reign t = none →
      d.member.replica.role = .leader ∧ d.member.replica.term = t)
    (hfits : ∀ t R, H'.reign t = some R → R.log.length ≤ maxWord) :
    H'.Endures c P' (w.after v d) where
  elections := he
  sound := hs
  up u m up := by
    obtain ⟨rfl, rfl⟩ | ⟨hu, up⟩ := World.up_after up
    · obtain ⟨f, hstores, hruns⟩ := hserves
      exact ⟨f, hstores, fun hrun => (hruns hrun).imp_left fun hfirm => hfirm.of_core rfl⟩
    · exact (h.up u m up).extend h.sound hx hu
  down u d' down := by
    obtain ⟨hu, down⟩ := World.down_after down
    obtain ⟨f, hstores⟩ := h.down u d' down
    exact ⟨f, hstores.extend hx hu⟩
  told r hr := by
    rcases List.mem_append.1 hr with hr | hr
    · exact (h.told r hr).imp (·.extend hx) fun hle => Nat.le_trans hle (hx.term _)
    · exact htold r hr
  answered r reply hr := by
    rcases List.mem_append.1 hr with hr | hr
    · obtain ⟨hanswered, hle⟩ := h.answered r reply hr
      exact ⟨(hanswered.extend h.sound hx).mono fun _ _ _ hk => hk.extend hx,
        Nat.le_trans hle (hx.term _)⟩
    · exact hanswered r reply hr
  crowned _ _ hR' := crowned_after he hmono hx h.crowned hcrowned hR'
  fits := hfits

end Chronicle

end ReplicatedStore
