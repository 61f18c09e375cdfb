import ReplicatedStore.Proofs.ChronicleSteps
import ReplicatedStore.Proofs.ElectionSafety
import ReplicatedStore.Proofs.SteadySections
/-!
# Posts and messages in a chronicle

What a chronicle says of a node that stands or leads (`Post`), of requests (`Told`) and of replies
(`Answered`), and how it grows when such a node acts. All of it is the same whether writes fail or
not. Without failing writes the chronicle has the term and the commit index of every node besides
(`ReplicatedStore.Proofs.Records`). With them it has what the disks yield
(`ReplicatedStore.Proofs.Endurance`).

* A node stands: `Sound.candidacy`. It is voted for: `Post.tallied`, `Sound.vouches`. It is elected:
  `Sound.elect`.
* A leader adds an entry: `Office.appends`. It counts an answer: `Office.books`. It commits:
  `Sound.commits`. It sends requests: `Office.told_next`, `Office.told_heartbeats`.
-/
namespace ReplicatedStore

open History

theorem Replica.Shows.mono {q : AppendRequest} {y y' : History} (h : Replica.Shows q y)
    (hy : y <+: y') : Replica.Shows q y' := by
  have hfits := h.fits
  refine ⟨Nat.le_trans hfits hy.length_le, ?_, ?_⟩
  · rw [h.prevTerm]
    exact termAt_of_isPrefix hy (by omega)
  · obtain ⟨t, rfl⟩ := hy
    rw [List.drop_append_of_le_length (by omega), List.take_append_of_le_length, ← h.entries]
    rw [List.length_drop]
    omega

/-- What a member's memory has of a history: the log from the base on, the image below it, and how
much is committed. -/
structure Member.Recalls (m : Member MemoryDisk) (x : History) : Prop where
  spans : m.replica.Spans x
  base : m.replica.snapshotIndex ≤ m.replica.commitIndex
  bounded : m.replica.commitIndex ≤ x.length
  image : Pictures m.image x m.replica.snapshotIndex

namespace Chronicle

variable {H H' H₁ : Chronicle} {members : List NodeId} {a u v : NodeId} {f p : History}
  {t t' k n : Nat} {r r' : Replica} {R : Reign} {m : Member MemoryDisk}

/-! ## Nodes that stand or lead -/

/-- A node backs a leader's prefix: it has acknowledged it, or all of it is fixed. -/
def Backs (H : Chronicle) (members : List NodeId) (u : NodeId) (t k : Nat) : Prop :=
  ∃ R, H.reign t = some R ∧ k ≤ R.log.length ∧
    (H.acked u t k ∨ H.Fixed members t (R.log.take k))

/-- The part of a replica that stands or leads with the history `f`. Its term is the one that the
chronicle has, and it leads with the log of its reign. -/
structure Post (H : Chronicle) (members : List NodeId) (v : NodeId) (r : Replica) (f : History) :
    Prop where
  active : r.role ≠ .follower → r.term = H.term v ∧ 0 < r.term
  leads : r.role = .leader → f = H.log v ∧ ∃ R, H.reign r.term = some R ∧ R.leader = v ∧
    R.log = H.log v ∧ r.Tracks (H.log v).length fun u k => H.Backs members u r.term k
  stands : r.role = .candidate → H.stood v r.term = some (H.log v) ∧
    (∀ R, H.reign r.term = some R → R.leader ≠ v) ∧
    (H.reign r.term = none → ∀ u ∈ r.votes, H.Vouched u r.term (H.log v))

theorem Backs.extend (hx : Extends a H H') (h : H.Backs members u t k) :
    H'.Backs members u t k := by
  obtain ⟨R, hR, hle, hheld⟩ := h
  obtain ⟨R', hR', -, -, hp, -⟩ := hx.reign _ R hR
  refine ⟨R', hR', Nat.le_trans hle hp.length_le, hheld.imp (hx.acked _ _ _) fun hfixed => ?_⟩
  rw [← take_of_isPrefix hp hle]
  exact hfixed.extend hx

/-- What was acknowledged is of a leader's log. -/
theorem Sound.backs_of_acked (hs : H.Sound members) (h : H.acked u t k) :
    H.Backs members u t k := by
  obtain ⟨-, R, hR, hle⟩ := (hs.upright u).acked _ _ h
  exact ⟨R, hR, hle, .inl h⟩

/-- What is fixed is in the log of every later leader. -/
theorem Sound.backs_of_fixed (hs : H.Sound members) (h : H.Fixed members t p) (hle : t ≤ t')
    (hR : H.reign t' = some R) : H.Backs members u t' p.length := by
  have hp := hs.fixed_reign h hle hR
  refine ⟨R, hR, hp.length_le, .inr ?_⟩
  rw [← List.prefix_iff_eq_take.1 hp]
  exact h.mono hle

theorem Post.of_follower (hrole : r.role = .follower) : H.Post members v r f where
  active hne := absurd hrole hne
  leads h := nomatch hrole.symm.trans h
  stands h := nomatch hrole.symm.trans h

/-- Only the log and what is applied differ. -/
theorem Post.of_sameButLog (h : H.Post members v r f) (hr : Replica.SameButLog r r') :
    H.Post members v r' f := by
  obtain ⟨_, _, _, _, rfl⟩ := hr
  exact ⟨h.active, fun hrole => by
    obtain ⟨hf, R, hR, hl, hlog, ht⟩ := h.leads hrole
    exact ⟨hf, R, hR, hl, hlog, ht.next, ht.matched⟩, h.stands⟩

theorem Post.of_vote (h : H.Post members v r f) (vote : Option NodeId) :
    H.Post members v { r with vote := vote } f :=
  ⟨h.active, fun hrole => by
    obtain ⟨hf, R, hR, hl, hlog, ht⟩ := h.leads hrole
    exact ⟨hf, R, hR, hl, hlog, ht.next, ht.matched⟩, h.stands⟩

/-- The term of a replica is noted. Only followers notice. -/
theorem Post.raise (h : H.Post members v r f) : (H.raise v r.term).Post members v r f := by
  by_cases hrole : r.role = .follower
  · exact .of_follower hrole
  · rw [raise_eq (Nat.le_of_eq (h.active hrole).1)]
    exact h

/-- A candidacy of a node that did nothing. -/
theorem candidacy_extend (hs : H.Sound members) (hx : Extends a H H') (hv : v ≠ a)
    {votes : List NodeId} {z : History}
    (h : (∀ R, H.reign t = some R → R.leader ≠ v) ∧
      (H.reign t = none → ∀ u ∈ votes, H.Vouched u t z)) :
    (∀ R, H'.reign t = some R → R.leader ≠ v) ∧
      (H'.reign t = none → ∀ u ∈ votes, H'.Vouched u t z) := by
  obtain ⟨hne, hvotes⟩ := h
  refine ⟨fun R' hR' hl => ?_, fun hnone u hu => ?_⟩
  · rcases hx.crowned _ R' hR' with ⟨R, hR⟩ | hl'
    · obtain ⟨R₂, hR₂, hl₂, -⟩ := hx.reign _ R hR
      obtain rfl : R₂ = R' := Option.some.inj (hR₂.symm.trans hR')
      exact hne R hR (hl₂.symm.trans hl)
    · exact hv (hl.symm.trans hl')
  · refine (hvotes ?_ u hu).extend hs hx
    cases hR : H.reign t with
    | none => rfl
    | some R =>
      obtain ⟨R', hR', -⟩ := hx.reign _ R hR
      cases hnone.symm.trans hR'

/-- The post of a node that did nothing. -/
theorem Post.extend (h : H.Post members v r f) (hs : H.Sound members) (hx : Extends a H H')
    (hv : v ≠ a) : H'.Post members v r f := by
  obtain ⟨hlog, hterm, -, hstood⟩ := hx.others v hv
  refine ⟨fun hrole => ?_, fun hrole => ?_, fun hrole => ?_⟩
  · rw [hterm]
    exact h.active hrole
  · obtain ⟨hf, R, hR, hl, hlogR, ht⟩ := h.leads hrole
    obtain ⟨R', hR', -, -, -, hsame⟩ := hx.reign _ R hR
    obtain rfl := hsame (hl ▸ hv)
    refine ⟨hf.trans hlog.symm, R', hR', hl, hlogR.trans hlog.symm, ?_⟩
    rw [hlog]
    exact ht.mono (Nat.le_refl _) rfl rfl (Nat.le_refl _) fun u k hk => hk.extend hx
  · rw [hlog, hstood]
    exact (h.stands hrole).imp_right (candidacy_extend hs hx hv)

/-! ## Elections -/

/-- A node that stands for the next term has its own vote. -/
theorem Sound.candidacy (hs : H.Sound members) (hrole : r.role = .candidate)
    (ht : r.term = H.term v + 1) (hv : r.votes = [v]) : (H.stand v).Post members v r f := by
  refine ⟨fun _ => ⟨ht.trans (term_stand H v).symm, by omega⟩,
    fun hlead => (nomatch hrole.symm.trans hlead), fun _ => ?_⟩
  rw [ht, hv]
  refine ⟨stood_stand H v, fun R hR heq => ?_, fun _ u hu => ?_⟩
  · have hreached := (hs.lawful _ R hR).reached
    rw [heq] at hreached
    omega
  · rw [List.mem_singleton.1 hu]
    exact hs.vouched_stand

/-- A vote that is given to a candidacy is counted. -/
theorem Post.tallied (h : H.Post members v r f) (hrole : r.role = .candidate) {sender : NodeId}
    {z : History} (hz : H.stood v r.term = some z)
    (hvouched : H.reign r.term = none → H.Vouched sender r.term z) :
    H.Post members v { r with votes := r.tallied sender } f := by
  obtain ⟨hstood, hne, hold⟩ := h.stands hrole
  obtain rfl : H.log v = z := Option.some.inj (hstood.symm.trans hz)
  refine ⟨h.active, fun hlead => (nomatch hrole.symm.trans hlead),
    fun _ => ⟨hstood, hne, fun hnone u hu => ?_⟩⟩
  rcases Elections.mem_tallied hu with hu | rfl
  · exact hold hnone u hu
  · exact hvouched hnone

/-- A node that answers a vote request keeps its post or follows. -/
theorem Post.answerVote (h : H.Post members v r f) {q : VoteRequest} {granted : Bool}
    (hr : r.answerVote q = (r', granted)) :
    H.Post members v r' f ∧ r.term ≤ r'.term ∧ (granted = true →
      r'.term = q.term ∧ r.isUpToDate q.lastIndex q.lastTerm = true) := by
  rcases Replica.answerVote_cases hr with ⟨-, rfl, rfl⟩ | ⟨hge, ⟨vote, rfl⟩, hdate⟩
  · exact ⟨h, Nat.le_refl _, nofun⟩
  · split
    · have hterm := (Replica.term_follow r q.term).trans (Nat.max_eq_right hge)
      exact ⟨.of_follower rfl, Nat.le_trans hge (Nat.le_of_eq hterm.symm),
        fun hgranted => ⟨hterm, hdate hgranted⟩⟩
    · next hlt =>
      exact ⟨h.of_vote vote, Nat.le_refl _,
        fun hgranted => ⟨Nat.le_antisymm hge (Nat.not_lt.1 hlt), hdate hgranted⟩⟩

/-- What is fixed is in the log of whoever is elected. -/
theorem Sound.prefix_of_elected (hs : H.Sound members) (hnone : H.reign (H.term v) = none)
    {votes : List NodeId} (hmaj : Majority members votes)
    (hvotes : ∀ u ∈ votes, H.Vouched u (H.term v) (H.log v))
    (hfixed : H.Fixed members (H.term v) p) : p <+: H.log v :=
  (hs.crown hnone hmaj hvotes).fixed_reign (hfixed.extend (extends_crown hnone votes))
    (Nat.le_refl _) (reign_crown ..)

/-- **A candidate with a majority is elected.** -/
theorem Sound.elect (hs : H.Sound members) (h : H.Post members v r f) (hf : f = H.log v)
    (hrole : r.role = .candidate) (hnone : H.reign r.term = none) (hspans : r.Spans f)
    (hmaj : Majority members r.votes) (hlead : r.lead = .ok r') :
    ∃ H', Extends v H H' ∧ H'.Sound members ∧ H'.Post members v r' f ∧ H'.log v = H.log v ∧
      H'.term v = H.term v ∧ H'.commit v = H.commit v ∧ ∀ t R, H'.reign t = some R →
        H.reign t = some R ∨ r'.role = .leader ∧ r'.term = t ∧ R.log = H.log v := by
  obtain ⟨-, -, hvotes⟩ := h.stands hrole
  obtain ⟨hterm, hpos⟩ := h.active (by rw [hrole]; exact nofun)
  rw [hterm] at hnone hvotes
  obtain ⟨H', hH'⟩ : ∃ H', H' = H.crown v (H.term v) r.votes := ⟨_, rfl⟩
  have htracks : Replica.Tracks r' r.lastIndex fun u k => H'.Backs members u (H.term v) k :=
    Replica.tracks_lead hlead
  rw [hspans.lastIndex_eq, hf] at htracks
  obtain ⟨next, matched, rfl⟩ := Replica.lead_spec hlead
  subst hH'
  refine ⟨_, extends_crown hnone r.votes, hs.crown hnone hmaj (hvotes hnone),
    ⟨fun _ => ⟨hterm, hpos⟩, fun _ => ⟨hf, ?_⟩, nofun⟩, rfl, rfl, rfl, ?_⟩
  · simp only [hterm]
    exact ⟨_, reign_crown .., rfl, rfl, htracks.next, htracks.matched⟩
  · intro t R hR
    by_cases ht : t = H.term v
    · subst ht
      obtain rfl := Option.some.inj ((reign_crown ..).symm.trans hR)
      exact .inr ⟨rfl, hterm, rfl⟩
    · exact .inl ((Function.update_of_ne ht ..).symm.trans hR)

/-! ## Leaders that commit -/

/-- A replica of the node `v`, with the members of the cluster. -/
structure Seated (members : List NodeId) (v : NodeId) (r : Replica) : Prop where
  id : r.id = v
  perm : r.members.Perm members
  distinct : members.Nodup
  known : v ∈ members

theorem Seated.congr (h : Seated members v r) (hid : r'.id = r.id) (hm : r'.members = r.members) :
    Seated members v r' :=
  ⟨hid.trans h.id, hm ▸ h.perm, h.distinct, h.known⟩

/-- What a leader's books say a majority holds, each of a majority holds. -/
theorem Seated.exists_holders (hd : Seated members v r) {x : History} (hspans : r.Spans x) {i : Nat}
    (hi : r.holdings[r.quorum - 1]? = some i) (hlt : r.commitIndex < i)
    {acked : NodeId → Nat → Prop} (htracks : r.Tracks x.length acked) (hself : acked v x.length) :
    ∃ Q, Majority members Q ∧ ∀ u ∈ Q, ∃ k, acked u k ∧ i ≤ k ∧ k ≤ x.length := by
  obtain ⟨Q, hQ, hall⟩ := Replica.majority_holding (hd.id ▸ hd.perm.symm.subset hd.known)
    (hd.perm.symm.nodup hd.distinct) hi
  refine ⟨Q, ⟨hQ.distinct, fun u hu => hd.perm.subset (hQ.known hu),
    hd.perm.length_eq ▸ hQ.large⟩, fun u hu => ?_⟩
  -- each of them acknowledged so much: a commit index would be too low
  obtain ⟨-, hle⟩ := hall u hu
  unfold Replica.holding at hle
  split at hle
  · next heq =>
    rw [hspans.lastIndex_eq] at hle
    rw [heq, hd.id]
    exact ⟨_, hself, hle, Nat.le_refl _⟩
  · cases hm : r.matched.get? u with
    | none =>
      rw [hm, Option.getD_none] at hle
      omega
    | some k =>
      rw [hm, Option.getD_some] at hle
      obtain ⟨hk, hc | hc⟩ := htracks.matched u k hm
      · omega
      · exact ⟨k, hc, hle, hk⟩

/-- An entry of a leader's own term is none that it started with. -/
theorem Lawful.base_lt {i : Nat} (h : H.Lawful members t R) (h0 : 0 < i)
    (hi : i ≤ R.log.length) (ht : R.log.termAt i = t) : R.base.length < i := by
  refine Nat.lt_of_not_le fun hin => ?_
  obtain ⟨e, he, hterm⟩ := exists_getElem? h0 hi
  have hbefore := h.before (i - 1) e he (by omega)
  omega

/-- What a leader's books say a majority holds is fixed. -/
theorem Sound.fixed_of_holding (hs : H.Sound members) (hd : Seated members v r)
    (hspans : r.Spans (H.log v)) (hbase : r.snapshotIndex ≤ r.commitIndex) {i : Nat}
    (hi : r.holdings[r.quorum - 1]? = some i) (hlt : r.commitIndex < i)
    (ht : r.termAt i = H.term v) (hR : H.reign (H.term v) = some R) (hlog : R.log = H.log v)
    (htracks : r.Tracks (H.log v).length fun u k => H.Backs members u (H.term v) k)
    (hself : H.acked v (H.term v) (H.log v).length) :
    i ≤ (H.log v).length ∧ H.Fixed members (H.term v) ((H.log v).take i) := by
  obtain ⟨Q, hmaj, hback⟩ := hd.exists_holders hspans hi hlt htracks (hs.backs_of_acked hself)
  obtain ⟨u, hu, -⟩ := hmaj.meet hmaj
  obtain ⟨k, -, hik, hk⟩ := hback u hu
  have hle : i ≤ (H.log v).length := Nat.le_trans hik hk
  refine ⟨hle, ?_⟩
  by_cases hall : ∀ u ∈ Q, ∃ k, H.acked u (H.term v) k ∧ i ≤ k
  · -- a majority acknowledged the prefix
    have hlen : ((H.log v).take i).length = i := List.length_take_of_le hle
    rw [hspans.termAt_eq (by omega), ← hlog] at ht
    refine .inr ⟨_, _, Nat.le_refl _, ⟨R, hR, hlog ▸ List.take_prefix _ _, ?_, Q, hmaj, ?_⟩,
      List.prefix_rfl⟩
    · rw [hlen]
      exact (hs.lawful _ R hR).base_lt (by omega) (hlog ▸ hle) ht
    · rw [hlen]
      exact hall
  · -- one of them backs it because all of it is fixed
    simp only [not_forall] at hall
    obtain ⟨u, hu, hnot⟩ := hall
    obtain ⟨k, ⟨R', hR', -, hk | hk⟩, hik, -⟩ := hback u hu
    · exact absurd ⟨k, hk, hik⟩ hnot
    · obtain rfl : R = R' := Option.some.inj (hR.symm.trans hR')
      exact hk.of_isPrefix (hlog ▸ take_prefix_take hik)

/-- A leader acknowledges its whole log to itself. -/
theorem Sound.acknowledge (hs : H.Sound members) (hR : H.reign (H.term v) = some R)
    (hlog : R.log = H.log v) :
    ∃ H', Extends v H H' ∧ H'.Sound members ∧ H'.log v = H.log v ∧ H'.term v = H.term v ∧
      H'.commit v = H.commit v ∧ H'.reign = H.reign ∧
      H'.acked v (H.term v) (H.log v).length := by
  have hself : adopt (H.log v) (R.log.take R.log.length) = H.log v := by
    rw [hlog, List.take_length]
    exact if_pos List.prefix_rfl
  refine ⟨H.accept v (H.term v) R R.log.length, extends_accept H v R _,
    hs.accept hR (Nat.le_refl _), ?_, rfl, rfl, rfl, .inr ⟨rfl, rfl, by rw [hlog]⟩⟩
  rw [log_accept, hself]

/-- What a leader's section makes of the chronicle, which grew: the leader keeps its post, and what
it has committed is fixed. -/
structure Governs (H : Chronicle) (members : List NodeId) (v : NodeId) (H' : Chronicle)
    (r : Replica) (f : History) : Prop where
  grows : Extends v H H'
  sound : H'.Sound members
  post : H'.Post members v r f
  term : H'.term v = H.term v
  commit : H'.commit v = H.commit v
  bounded : r.commitIndex ≤ f.length
  fixed : H'.Fixed members (H'.term v) (f.take r.commitIndex)

theorem Governs.of_extends (h : H₁.Governs members v H' r f) (hx : Extends v H H₁)
    (hterm : H₁.term v = H.term v) (hcommit : H₁.commit v = H.commit v) :
    H.Governs members v H' r f where
  grows := hx.trans h.grows
  sound := h.sound
  post := h.post
  term := h.term.trans hterm
  commit := h.commit.trans hcommit
  bounded := h.bounded
  fixed := h.fixed

/-- **A leader commits.** Whatever it commits is fixed from then on. -/
theorem Sound.commits (hs : H.Sound members) (h : H.Post members v r f)
    (hd : Seated members v r) (hspans : r.Spans f) (hbase : r.snapshotIndex ≤ r.commitIndex)
    (hb : r.commitIndex ≤ f.length) (hfixed : H.Fixed members (H.term v) (f.take r.commitIndex))
    {advanced : Bool} (hadv : r.advanceCommit = .ok (r', advanced)) :
    ∃ H', H.Governs members v H' r' f ∧ H'.log v = H.log v ∧ H'.reign = H.reign := by
  rcases Replica.advanceCommit_spec hadv with ⟨rfl, -⟩ | ⟨-, hrole, i, hi, hlt, ht, rfl⟩
  · exact ⟨H, ⟨.refl v H, hs, h, rfl, rfl, hb, hfixed⟩, rfl, rfl⟩
  · obtain ⟨rfl, R, hR, hl, hlog, htracks⟩ := h.leads hrole
    obtain ⟨hterm, hpos⟩ := h.active (by rw [hrole]; exact nofun)
    rw [hterm] at hR htracks ht
    obtain ⟨H₁, hx₁, hs₁, hlog₁, hterm₁, hcommit₁, hreign₁, hself₁⟩ := hs.acknowledge hR hlog
    have htracks₁ : r.Tracks (H.log v).length fun u k => H₁.Backs members u (H.term v) k :=
      htracks.mono (Nat.le_refl _) rfl rfl (Nat.le_refl _) fun u k hk => hk.extend hx₁
    obtain ⟨hle, hfixed₁⟩ := hs₁.fixed_of_holding hd (by rw [hlog₁]; exact hspans) hbase hi hlt
      (by rw [hterm₁]; exact ht) (R := R) (by rw [hterm₁, hreign₁]; exact hR)
      (by rw [hlog₁]; exact hlog) (by rw [hlog₁, hterm₁]; exact htracks₁)
      (by rw [hlog₁, hterm₁]; exact hself₁)
    rw [hlog₁] at hle hfixed₁
    refine ⟨H₁, ⟨hx₁, hs₁, ⟨fun _ => ⟨hterm.trans hterm₁.symm, hpos⟩,
      fun _ => ⟨hlog₁.symm, R, ?_, hl, hlog.trans hlog₁.symm, ?_⟩,
      fun hc => nomatch hrole.symm.trans hc⟩, hterm₁, hcommit₁, hle, hfixed₁⟩, hlog₁, hreign₁⟩
    · simp only [hterm]
      exact (congrFun hreign₁ _).trans hR
    · rw [hlog₁]
      simp only [hterm]
      exact htracks₁.mono (Nat.le_refl _) rfl rfl (Nat.le_of_lt hlt) fun _ _ => id

/-- A leader that writes a peer's answer into its books. -/
theorem Post.answered (h : H.Post members v r f) (hrole : r.role = .leader) {success : Bool}
    {sender : NodeId} {lastSent : Nat}
    (hs : success = true → H.Backs members sender r.term lastSent) :
    H.Post members v (r.answered success sender lastSent) f := by
  obtain ⟨hf, R, hR, hl, hlog, ht⟩ := h.leads hrole
  have ht' := ht.answered fun hsuccess => by
    obtain ⟨R', hR', hle, -⟩ := hs hsuccess
    obtain rfl : R = R' := Option.some.inj (hR.symm.trans hR')
    exact ⟨hlog ▸ hle, .inr (hs hsuccess)⟩
  unfold Replica.answered at ht' ⊢
  cases success <;> exact ⟨h.active, fun _ => ⟨hf, R, hR, hl, hlog, ht'⟩, h.stands⟩

/-! ## Messages -/

/-- What a request says is true: a candidate shows the log it stands with, a leader shows its own
log and what is fixed of it. -/
def Told (H : Chronicle) (members : List NodeId) (sender : NodeId) : Message → Prop
  | .voteRequest q =>
    ∃ z, H.stood sender q.term = some z ∧ q.lastIndex = z.length ∧ q.lastTerm = z.lastTerm
  | .appendRequest q =>
    ∃ R, H.reign q.term = some R ∧ Replica.Shows q R.log ∧ q.leaderCommit ≤ R.log.length ∧
      H.Fixed members q.term (R.log.take q.leaderCommit)
  | .installRequest q =>
    ∃ R, H.reign q.term = some R ∧ q.lastIndex ≤ R.log.length ∧
      q.lastTerm = R.log.termAt q.lastIndex ∧
      q.entries = Image.fold [] (R.log.take q.lastIndex) ∧
      H.Fixed members q.term (R.log.take q.lastIndex)
  | _ => True

/-- What a reply to a request promises is true. `held` is what a node that took entries is said to
have of them. -/
def Answered (H : Chronicle) (held : NodeId → Nat → Nat → Prop) (r : Request) : Message → Prop
  | .voteReply term granted =>
    granted = true → ∃ z, H.stood r.sender term = some z ∧
      (H.reign term = none → H.Vouched r.receiver term z)
  | .appendReply term success =>
    success = true → ∃ q, r.body = .appendRequest q ∧ term = q.term ∧
      held r.receiver term (q.prevIndex + q.entries.length)
  | .installReply _ => ∃ q, r.body = .installRequest q
  | _ => True

theorem Told.extend (hx : Extends a H H') {sender : NodeId} {body : Message}
    (h : H.Told members sender body) : H'.Told members sender body := by
  cases body with
  | voteRequest q =>
    obtain ⟨z, hz, hrest⟩ := h
    exact ⟨z, hx.stood _ _ z hz, hrest⟩
  | appendRequest q =>
    obtain ⟨R, hR, hshows, hle, hfixed⟩ := h
    obtain ⟨R', hR', -, -, hp, -⟩ := hx.reign _ R hR
    refine ⟨R', hR', hshows.mono hp, Nat.le_trans hle hp.length_le, ?_⟩
    rw [← take_of_isPrefix hp hle]
    exact hfixed.extend hx
  | installRequest q =>
    obtain ⟨R, hR, hle, hterm, hentries, hfixed⟩ := h
    obtain ⟨R', hR', -, -, hp, -⟩ := hx.reign _ R hR
    have htake := take_of_isPrefix hp hle
    refine ⟨R', hR', Nat.le_trans hle hp.length_le, ?_, ?_, ?_⟩
    · rw [hterm, termAt_of_isPrefix hp hle]
    · rw [hentries, htake]
    · rw [← htake]
      exact hfixed.extend hx
  | _ => trivial

theorem Answered.mono {held held' : NodeId → Nat → Nat → Prop} {req : Request} {reply : Message}
    (h : H.Answered held req reply) (hheld : ∀ u t k, held u t k → held' u t k) :
    H.Answered held' req reply := by
  cases reply with
  | appendReply term success =>
    intro hsuccess
    obtain ⟨q, hq, ht, hk⟩ := h hsuccess
    exact ⟨q, hq, ht, hheld _ _ _ hk⟩
  | _ => exact h

theorem Answered.extend {held : NodeId → Nat → Nat → Prop} (hs : H.Sound members)
    (hx : Extends a H H') {req : Request} {reply : Message} (h : H.Answered held req reply) :
    H'.Answered held req reply := by
  cases reply with
  | voteReply term granted =>
    intro hgranted
    obtain ⟨z, hz, hv⟩ := h hgranted
    refine ⟨z, hx.stood _ _ z hz, fun hnone => (hv ?_).extend hs hx⟩
    cases hR : H.reign term with
    | none => rfl
    | some R =>
      obtain ⟨R', hR', -⟩ := hx.reign _ R hR
      cases hnone.symm.trans hR'
  | _ => exact h

/-- What an answer was promised to cover, the leader that asked for it may count. Of an image it
need only be known that the leader has what it covers. -/
theorem Answered.backs {req : Request} {reply : Message} {through term : Nat} {success : Bool}
    (h : H.Answered (H.Backs members) req reply)
    (hthrough : Member.sentThrough req.body = .ok through)
    (hkind : reply = .appendReply term success ∨ reply = .installReply term ∧ success = true)
    (himage : ∀ q, req.body = .installRequest q → H.Backs members req.receiver term q.lastIndex)
    (hs : success = true) : H.Backs members req.receiver term through := by
  rcases hkind with rfl | ⟨rfl, -⟩
  · obtain ⟨q, hq, -, hheld⟩ := h hs
    rw [hq] at hthrough
    obtain ⟨-, rfl⟩ := Word.add_eq_ok_iff.1 hthrough
    exact hheld
  · obtain ⟨q, hq⟩ := h
    rw [hq] at hthrough
    cases hthrough
    exact himage q hq

/-- A vote is given to the log that the candidate stands with. -/
theorem Sound.vouches (hs : H.Sound members) (hle : H.term v ≤ t) {req : Request}
    {q : VoteRequest} (here : req.receiver = v) (body : req.body = .voteRequest q)
    (htold : H.Told members req.sender req.body) (ht : t = q.term)
    (hbehind : ∀ z : History, q.lastIndex = z.length → q.lastTerm = z.lastTerm →
      Behind (H.log v) z) :
    ∃ z, (H.raise v t).stood req.sender t = some z ∧
      ((H.raise v t).reign t = none → (H.raise v t).Vouched req.receiver t z) := by
  subst ht
  rw [body] at htold
  obtain ⟨z, hz, hi, hlast⟩ := htold
  refine ⟨z, hz, fun hnone => ?_⟩
  rw [here]
  exact hs.vouched_raise hle hnone (hbehind z hi hlast)

/-! ## Leaders and their messages -/

/-- What a chronicle says of a node that runs with the history `f`. -/
structure Office (H : Chronicle) (members : List NodeId) (v : NodeId) (m : Member MemoryDisk)
    (f : History) : Prop where
  recalls : m.Recalls f
  post : H.Post members v m.replica f
  fixed : H.Fixed members (H.term v) (f.take m.replica.commitIndex)
  seated : Seated members v m.replica

namespace Office

variable (h : H.Office members v m f)

include h

/-- What a leader sends of its log is true. -/
theorem told_append {q : AppendRequest} (hrole : m.replica.role = .leader)
    (hq : ∀ acked, m.replica.Tracks (H.log v).length acked →
      Replica.Shows q (H.log v) ∧ q.term = m.replica.term ∧
        q.leaderCommit = m.replica.commitIndex) :
    H.Told members v (.appendRequest q) ∧ q.term ≤ H.term v := by
  obtain ⟨hf, R, hR, -, hlog, htracks⟩ := h.post.leads hrole
  obtain ⟨hshows, hterm, hcommit⟩ := hq _ htracks
  have hactive := (h.post.active (by rw [hrole]; exact nofun)).1
  refine ⟨⟨R, hterm ▸ hR, hlog ▸ hshows, ?_, ?_⟩, Nat.le_of_eq (hterm.trans hactive)⟩
  · rw [hcommit, hlog, ← hf]
    exact h.recalls.bounded
  · rw [hcommit, hlog, hterm, hactive, ← hf]
    exact h.fixed

/-- An image that a leader ships is committed. -/
theorem told_install {q : InstallRequest} {i : Image} (hi : m.image = some i)
    (hq : m.replica.installRequest? i.entries i.lastIndex i.lastTerm = some q) :
    H.Told members v (.installRequest q) ∧ q.term ≤ H.term v ∧
      q.lastIndex ≤ m.replica.commitIndex := by
  unfold Replica.installRequest? at hq
  split at hq
  · next hleads =>
    cases hq
    have hrole : m.replica.role = .leader := of_decide_eq_true hleads
    obtain ⟨hf, R, hR, -, hlog, -⟩ := h.post.leads hrole
    have hactive := (h.post.active (by rw [hrole]; exact nofun)).1
    have himage := h.recalls.image
    rw [hi] at himage
    obtain ⟨hindex, hlast, hentries⟩ := himage
    have hle : i.lastIndex ≤ m.replica.commitIndex := hindex ▸ h.recalls.base
    refine ⟨⟨R, hR, ?_, ?_, ?_, ?_⟩, Nat.le_of_eq hactive, hle⟩
    · rw [hlog, ← hf]
      exact Nat.le_trans hle h.recalls.bounded
    · simp only [hlog, ← hf, hindex, hlast]
    · simp only [hlog, ← hf, hindex, hentries]
    · simp only [hlog, ← hf, hactive]
      exact h.fixed.of_isPrefix (take_prefix_take hle)
  · cases hq

/-- What a leader sends to bring a peer up is true. -/
theorem told_next {peer : NodeId} {target : Nat} {body : Message}
    (run : m.nextRequest peer target = .ok (.ok (some body))) :
    H.Told members v body ∧ body.term ≤ H.term v ∧
      ∀ q, body = .installRequest q → q.lastIndex ≤ m.replica.commitIndex := by
  rcases Member.nextRequest_cases run with ⟨q, rfl, hq⟩ | ⟨i, q, rfl, hi, hq⟩
  · have hrole := Replica.role_of_appendRequest hq
    have hf := (h.post.leads hrole).1
    obtain ⟨htold, hle⟩ := h.told_append hrole fun _ ht =>
      ht.appendRequest (hf ▸ h.recalls.spans) hq
    exact ⟨htold, hle, nofun⟩
  · obtain ⟨htold, hle, hcommit⟩ := h.told_install hi hq
    exact ⟨htold, hle, fun q' heq => by cases heq; exact hcommit⟩

/-- What a leader's heartbeats say is true. -/
theorem told_heartbeats {req : Request}
    (hreq : req ∈ m.heartbeats.2.map fun b => (⟨v, b.1, .appendRequest b.2⟩ : Request)) :
    H.Told members req.sender req.body ∧ req.body.term ≤ H.term req.sender ∧
      ∀ q, req.body ≠ .installRequest q := by
  obtain ⟨⟨p, q⟩, hb, rfl⟩ := List.mem_map.1 hreq
  have hq := (Member.of_mem_heartbeats hb).2
  have hrole := Replica.role_of_heartbeat hq
  have hf := (h.post.leads hrole).1
  obtain ⟨htold, hle⟩ := h.told_append hrole fun _ ht => ht.heartbeat (hf ▸ h.recalls.spans) hq
  exact ⟨htold, hle, nofun⟩

/-- **A leader counts an answer**, and may commit. -/
theorem books (hs : H.Sound members) (hrole : m.replica.role = .leader) {sender : NodeId}
    {through : Nat} {success advanced : Bool}
    (hbacks : success = true → H.Backs members sender m.replica.term through)
    (hcases : (success = true ∧
        (m.replica.answered success sender through).advanceCommit = .ok (r, advanced)) ∨
      (success = false ∧ r = m.replica.answered success sender through ∧ advanced = false)) :
    ∃ H', H.Governs members v H' r f ∧ H'.log v = H.log v ∧ H'.reign = H.reign ∧
      m.replica.Advances r ∧ (advanced = false → r.commitIndex = m.replica.commitIndex) ∧
      r.stance = m.replica.stance := by
  have hpost := h.post.answered hrole hbacks
  have hsame := Replica.sameLog_answered m.replica success sender through
  have hstance := Replica.stance_answered m.replica success sender through
  have hbounded := h.recalls.bounded
  have hfixed := h.fixed
  rw [← hsame.commit] at hbounded hfixed
  rcases hcases with ⟨-, hadv⟩ | ⟨-, rfl, rfl⟩
  · have hbase := h.recalls.base
    rw [← hsame.base, ← hsame.commit] at hbase
    obtain ⟨H', hgoverns, hlog, hreign⟩ := hs.commits hpost
      (h.seated.congr hsame.id hsame.members) (h.recalls.spans.of_sameLog hsame) hbase hbounded
      hfixed hadv
    obtain ⟨hadvances, hidle⟩ := Member.advances_advanceCommit hadv
    exact ⟨H', hgoverns, hlog, hreign, hsame.trans_advances hadvances,
      fun hfalse => (hidle hfalse).trans hsame.commit,
      (Replica.stance_advanceCommit hadv).trans hstance⟩
  · exact ⟨H, ⟨.refl v H, hs, hpost, rfl, rfl, hbounded, hfixed⟩, rfl, rfl, hsame.advances,
      fun _ => hsame.commit, hstance⟩

/-- **A leader has a new entry**, which it may commit at once. -/
theorem appends (hs : H.Sound members) (hrole : m.replica.role = .leader) {e : Entry}
    (ht : e.term = m.replica.term) (hi : e.index = f.length + 1) {advanced : Bool}
    (hadv : Replica.advanceCommit { m.replica with log := m.replica.log ++ [e] } =
      .ok (r, advanced)) :
    ∃ H', H.Governs members v H' r (f ++ [e]) ∧ H'.log v = f ++ [e] ∧
      ∀ t R, H'.reign t = some R → ∃ R₀, H.reign t = some R₀ ∧
        (R = R₀ ∨ R₀.log = f ∧ R.log = f ++ [e]) := by
  obtain ⟨rfl, R, hR, hlead, hlog, htracks⟩ := h.post.leads hrole
  obtain ⟨hterm, hpos⟩ := h.post.active (by rw [hrole]; exact nofun)
  have hsane : Sane (H.log v ++ [e]) := h.recalls.spans.sane.concat hi (ht ▸ hpos)
  have hlen : (H.log v).length ≤ (H.log v ++ [e]).length := by
    rw [List.length_append]
    exact Nat.le_add_right _ _
  rw [hterm] at hR ht
  have hx := extends_append hR hlead e
  have hs' := hs.append hR hlead hlog ht hsane
  have hlog' : (H.append v (H.term v) R e).log v = H.log v ++ [e] := log_append ..
  have hpost : (H.append v (H.term v) R e).Post members v
      { m.replica with log := m.replica.log ++ [e] } (H.log v ++ [e]) := by
    refine ⟨fun _ => ⟨hterm, hpos⟩, fun _ => ⟨hlog'.symm, { R with log := R.log ++ [e] }, ?_, hlead,
      ?_, ?_⟩, fun hc => nomatch hrole.symm.trans hc⟩
    · simp only [hterm]
      exact reign_append ..
    · rw [hlog', ← hlog]
    · rw [hlog']
      exact htracks.mono hlen rfl rfl (Nat.le_refl _) fun _ _ hk => hk.extend hx
  have hfixed : (H.append v (H.term v) R e).Fixed members (H.term v)
      ((H.log v ++ [e]).take m.replica.commitIndex) := by
    rw [List.take_append_of_le_length h.recalls.bounded]
    exact h.fixed.extend hx
  obtain ⟨H', hgoverns, hlog'', hreign⟩ := hs'.commits hpost (h.seated.congr rfl rfl)
    (h.recalls.spans.concat hsane) h.recalls.base (Nat.le_trans h.recalls.bounded hlen) hfixed hadv
  refine ⟨H', hgoverns.of_extends hx rfl rfl, hlog''.trans hlog', fun t S hS => ?_⟩
  rw [hreign] at hS
  by_cases ht' : t = H.term v
  · subst ht'
    obtain rfl := Option.some.inj ((reign_append ..).symm.trans hS)
    exact ⟨R, hR, .inr ⟨hlog, by rw [hlog]⟩⟩
  · exact ⟨S, (Function.update_of_ne ht' ..).symm.trans hS, .inl rfl⟩

end Office

/-! ## Worlds -/

variable {c : Conditions} {P P' : NodeId → Ballot → Prop} {w : World} {d : Deed}

theorem seated_of_elections (h : Elections c P w) (up : w.sites v = .up m) :
    Seated c.members v m.replica := by
  obtain ⟨hs, hknown⟩ := h.sworn v m up
  exact ⟨hs.id, hs.members, c.distinct, hknown⟩

/-- Every leader was elected by a majority, also one that was elected just now. -/
theorem crowned_after (he : Elections c P' (w.after v d))
    (hmono : ∀ u b, P u b → P' u b) (hx : Extends v H H')
    (h : ∀ t R, H.reign t = some R → ∃ Q, Voters c P R.leader t Q ∧ Majority c.members Q)
    (hnew : ∀ t R, H'.reign t = some R → H.reign t = none →
      d.member.replica.role = .leader ∧ d.member.replica.term = t) {R' : Reign}
    (hR' : H'.reign t = some R') :
    ∃ Q, Voters c P' R'.leader t Q ∧ Majority c.members Q := by
  cases hR : H.reign t with
  | some R =>
    obtain ⟨R₂, hR₂, hl, -⟩ := hx.reign t R hR
    obtain rfl : R₂ = R' := Option.some.inj (hR₂.symm.trans hR')
    obtain ⟨Q, hQ, hmaj⟩ := h t R hR
    exact ⟨Q, hl ▸ hQ.mono hmono, hmaj⟩
  | none =>
    obtain ⟨hrole, hterm⟩ := hnew t R' hR' hR
    obtain ⟨Q, hQ, hmaj⟩ := he.elected v _ (World.sites_after_self w v d) hrole
    rcases hx.crowned t R' hR' with ⟨R, hR'⟩ | hl
    · cases hR.symm.trans hR'
    · exact ⟨Q, by rw [hl, ← hterm]; exact hQ, hmaj⟩

/-- Nobody has reigned in the term in which a candidate is elected. -/
theorem Post.uncrowned (hpost : H'.Post c.members v r f)
    (h : ∀ t R, H.reign t = some R → ∃ Q, Voters c P R.leader t Q ∧ Majority c.members Q)
    (he : Elections c P' (w.after v d)) (hmono : ∀ u b, P u b → P' u b)
    (hreign : H'.reign = H.reign) (hrole : r.role = .candidate) (hlead : r.lead = .ok r')
    (hbut : Replica.SameButLog r' d.member.replica) : H'.reign r.term = none := by
  cases hR : H'.reign r.term with
  | none => rfl
  | some R =>
    obtain ⟨_, _, rfl⟩ := Replica.lead_spec hlead
    refine absurd ?_ ((hpost.stands hrole).2.1 R hR)
    -- a term has one leader
    obtain ⟨Q, hQ, hmaj⟩ := h _ R (hreign ▸ hR)
    obtain ⟨Q', hQ', hmaj'⟩ := he.elected v _ (World.sites_after_self w v d) hbut.role
    rw [hbut.term] at hQ'
    exact he.majority_unique (hQ.mono hmono) hmaj hQ' hmaj'

end Chronicle

end ReplicatedStore
