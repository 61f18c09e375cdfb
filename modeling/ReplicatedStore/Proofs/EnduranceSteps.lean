import ReplicatedStore.Proofs.Endurance
/-!
# Steps of a world in which writes fail

Every step of a halting run is one of its chronicle (`Chronicle.Endures.step`), whatever write fails
in it. The chronicle follows with the steps of `ReplicatedStore.Proofs.ChronicleSteps` and
`ReplicatedStore.Proofs.Posts`, but notes only what was stored: a term that could not be written is
not raised, a member that halted before its log was written adopts nothing.

Two things differ from runs without failing writes. A node whose history is grafted acknowledges
what is below its image without having it in the chronicle, which is why such entries are said to be
fixed. And a candidate with a grafted history is not elected: a leader has all that is fixed.
-/
namespace ReplicatedStore

open History

namespace Chronicle

variable {H H' : Chronicle} {members : List NodeId} {v : NodeId} {f y : History}
  {base commit t k n : Nat} {r r' : Replica} {R : Reign} {m m' : Member MemoryDisk}

/-! ## Followers -/

/-- A follower adopts a leader's prefix. If its history is grafted and the prefix does not reach
beyond the image, only its term is noted. -/
theorem Sound.adopts (hs : H.Sound members) (ht : H.term v ≤ t) (hR : H.reign t = some R)
    (hk : k ≤ R.log.length) (hg : Grafted (H.log v) f base commit) (hb : base ≤ f.length)
    (hfixed : H.Fixed members (H.term v) (f.take base)) :
    ∃ H', Extends v H H' ∧ H'.Sound members ∧ H'.term v = t ∧ H'.reign = H.reign ∧
      (H'.log v = adopt f (R.log.take k) ∨
        (k ≤ base ∧ H'.log v = H.log v ∧ adopt f (R.log.take k) = f)) ∧
      H'.Backs members v t k := by
  have hterm : (H.raise v t).term v = t := (term_raise H v t).trans (Nat.max_eq_right ht)
  have hx := extends_raise H v t
  have hs' := hs.raise v t
  have hp := hs.fixed_reign hfixed ht hR
  rcases hg.adopt (hs.upright v).rooted (hs.lawful _ R hR).rooted hp hb hk with
    heq | ⟨hle, htake, hkeep⟩
  · have hx' := extends_accept (H.raise v t) v R k
    have hs'' := hs'.accept (a := v) (R := R) (n := k) (by rw [hterm]; exact hR) hk
    rw [hterm] at hx' hs''
    exact ⟨_, hx.trans hx', hs'', hterm, rfl, .inl ((log_accept ..).trans heq),
      hs''.backs_of_acked (.inr ⟨rfl, rfl, rfl⟩)⟩
  · refine ⟨_, hx, hs', hterm, rfl, .inr ⟨hle, rfl, hkeep⟩, R, hR, hk, .inr ?_⟩
    rw [htake]
    exact ((hfixed.of_isPrefix (take_prefix_take hle)).mono ht).extend hx

/-- What is committed after a merge is fixed. -/
theorem Sound.fixed_adopt (hs : H.Sound members) (ht : H.term v ≤ t) (hR : H.reign t = some R)
    (hk : k ≤ R.log.length) (hb : commit ≤ f.length)
    (hfixed : H.Fixed members (H.term v) (f.take commit))
    (hn : n = commit ∨ n ≤ k ∧ H.Fixed members t (R.log.take n)) :
    H.Fixed members t ((adopt f (R.log.take k)).take n) := by
  rcases hn with rfl | ⟨hle, hfixed'⟩
  · have hpre := prefix_adopt_of_common (List.take_prefix k R.log) (List.take_prefix n f)
      (hs.fixed_reign hfixed ht hR)
    have htake := take_of_isPrefix hpre (i := n) (by rw [List.length_take]; omega)
    rw [List.take_take, Nat.min_self] at htake
    rw [← htake]
    exact hfixed.mono ht
  · have hpre := prefix_adopt f (R.log.take k)
    have htake := take_of_isPrefix hpre (i := n) (by rw [List.length_take]; omega)
    rw [List.take_take, Nat.min_eq_left hle] at htake
    rwa [← htake]

/-- The image of a leader's prefix is on the disk, and the log after it is not. -/
theorem Sound.grafts (hs : H.Sound members) (ht : H.term v ≤ t) (hR : H.reign t = some R)
    (hn : n ≤ R.log.length) (hfixed' : H.Fixed members t (R.log.take n))
    (hg : Grafted (H.log v) f base commit) (hb : base ≤ f.length) (hlt : base < n)
    (hfixed : H.Fixed members (H.term v) (f.take base)) :
    ∃ H', Extends v H H' ∧ H'.Sound members ∧ H'.term v = t ∧ H'.reign = H.reign ∧
      Grafted (H'.log v) (graft f (R.log.take n)) n n ∧
      H'.Fixed members t ((graft f (R.log.take n)).take n) := by
  have hlen : (R.log.take n).length = n := List.length_take_of_le hn
  have htake := take_of_isPrefix (prefix_graft f (R.log.take n)) (i := n) (Nat.le_of_eq hlen.symm)
  rw [List.take_take, Nat.min_self] at htake
  rcases Nat.lt_or_ge n f.length with hlt' | hge
  · have hterm : (H.raise v t).term v = t := (term_raise H v t).trans (Nat.max_eq_right ht)
    refine ⟨_, extends_raise H v t, hs.raise v t, hterm, rfl, .inr ⟨?_, ?_, rfl⟩, ?_⟩
    · exact hg.length_eq ▸ hlt'
    · rw [drop_graft f _ (Nat.le_of_eq hlen)]
      refine List.ext_getElem? fun i => ?_
      rw [List.getElem?_drop, List.getElem?_drop]
      exact hg.getElem?_eq (by omega)
    · rw [← htake]
      exact hfixed'.extend (extends_raise H v t)
  · obtain ⟨H', hx, hs', hterm, hreign, hlog, -⟩ := hs.adopts ht hR hn hg hb hfixed
    refine ⟨H', hx, hs', hterm, hreign, .inl ?_, ?_⟩
    · -- all of the old log is below the image
      have hgraft : graft f (R.log.take n) = R.log.take n := by
        rw [graft, hlen, List.drop_eq_nil_of_le hge, List.append_nil]
      rcases hlog with hlog | ⟨hle, -⟩
      · rw [hlog, hgraft]
        rcases adopt_eq_or f (R.log.take n) with ⟨hp, heq⟩ | ⟨-, heq⟩
        · rw [heq]
          exact hp.eq_of_length_le (by omega)
        · exact heq.symm
      · omega
    · rw [← htake]
      exact hfixed'.extend hx

/-- A section in which a node adopts a leader's prefix. -/
theorem Runs.adopts (hruns : H.Runs members v m f) (hs : H.Sound members) (ht : H.term v ≤ t)
    (hR : H.reign t = some R) (hk : k ≤ R.log.length) (hlow : m.replica.commitIndex ≤ n)
    (hn : n = m.replica.commitIndex ∨ n ≤ k ∧ H.Fixed members t (R.log.take n))
    (hr : Replica.SameLog m.replica r) (hrole : r.role = .follower) (hterm : r.term = t)
    (hfin : Member.Finishes { r with commitIndex := n } m' (adopt f (R.log.take k)))
    (hsaved : m'.saved = r.ballot) :
    ∃ H', Extends v H H' ∧ H'.Sound members ∧ H'.Serves members v m' ∧ H'.term v = t ∧
      H'.reign = H.reign ∧ H'.Backs members v t k := by
  have happlied := Nat.le_trans hruns.firm.applied hruns.firm.committed
  obtain ⟨H', hx, hs', ht', hreign, hlog, hbacks⟩ := hs.adopts ht hR hk hruns.grafted
    (Nat.le_trans happlied hruns.firm.bounded)
    (hruns.fixed.of_isPrefix (take_prefix_take happlied))
  have hfixed := hs.fixed_adopt ht hR hk hruns.firm.bounded hruns.fixed hn
  have hgrafted : Grafted (H'.log v) (adopt f (R.log.take k)) r.snapshotIndex n := by
    rw [hr.base]
    rcases hlog with hlog | ⟨hle, hlog, hkeep⟩
    · exact .inl hlog.symm
    · -- the image covers the prefix, so the commit index stays
      rw [hlog, hkeep]
      exact hruns.grafted.squeeze (Nat.le_refl _) (Nat.le_trans happlied hlow) (by omega)
  exact ⟨H', hx, hs', .of_finishes hfin hgrafted (ht' ▸ hfixed.extend hx)
    ((congrArg Ballot.term hsaved).trans (hterm.trans ht'.symm)) (hr.settings ▸ hruns.valid)
    fun _ => .of_follower hrole, ht', hreign, hbacks⟩

/-- A section that ends with the image of a leader's prefix on the disk, and the log of before. -/
theorem Runs.grafts (hruns : H.Runs members v m f) (hs : H.Sound members) (ht : H.term v ≤ t)
    (hR : H.reign t = some R) (hn : n ≤ R.log.length) (hlt : m.replica.commitIndex < n)
    (hfixed : H.Fixed members t (R.log.take n)) (hstop : m'.stopped = true)
    (hterm : m'.disk.contents.ballot.term = t)
    (hleaves : m'.disk.Leaves (graft f (R.log.take n)) n n) :
    ∃ H', Extends v H H' ∧ H'.Sound members ∧ H'.Serves members v m' ∧ H'.reign = H.reign := by
  have happlied := Nat.le_trans hruns.firm.applied hruns.firm.committed
  obtain ⟨H', hx, hs', ht', hreign, hgrafted, hfixed'⟩ := hs.grafts ht hR hn hfixed hruns.grafted
    (Nat.le_trans happlied hruns.firm.bounded) (Nat.lt_of_le_of_lt happlied hlt)
    (hruns.fixed.of_isPrefix (take_prefix_take happlied))
  exact ⟨H', hx, hs', ⟨_, .of_leaves hleaves hgrafted (ht' ▸ hfixed') (hterm.trans ht'.symm),
    fun hrun => nomatch hstop.symm.trans hrun⟩, hreign⟩

/-! ## Sections -/

/-- The reply to a request is all that a section answers. -/
theorem backed_of_answer (req : Request) (reply : Except ServiceError Message)
    (h : ∀ message, reply = .ok message →
      H.Answered (H.Backs members) req message ∧ message.term ≤ H.term req.receiver) :
    ∀ r x, (r, x) ∈ req.answer reply →
      H.Answered (H.Backs members) r x ∧ x.term ≤ H.term r.receiver := by
  intro r x hx
  obtain ⟨heq, hx⟩ := Elections.mem_answer.1 hx
  exact heq ▸ h x hx

namespace Endures

variable {c : Conditions} {P P' : NodeId → Ballot → Prop} {w w' : World} {d : Deed}

/-- What the chronicle says of a node that runs. -/
theorem office (h : H.Endures c P w) (up : w.sites v = .up m) (hruns : H.Runs c.members v m f) :
    H.Office c.members v m f where
  recalls := ⟨hruns.firm.spans, Nat.le_trans hruns.firm.applied hruns.firm.committed,
    hruns.firm.bounded, hruns.firm.image⟩
  post := hruns.post
  fixed := hruns.fixed
  seated := seated_of_elections h.elections up

/-- What is stored is behind what is in memory. -/
theorem behind (h : H.Endures c P w) (up : w.sites v = .up m) (hruns : H.Runs c.members v m f) :
    H.term v ≤ m.replica.term :=
  hruns.term ▸ (h.elections.sworn v m up).1.behind.term_le

/-- A section in which nobody is elected and nothing is proposed. -/
theorem becomes (h : H.Endures c P w) (he : Elections c P' (w.after v d))
    (hmono : ∀ u b, P u b → P' u b) (hx : Extends v H H') (hs : H'.Sound c.members)
    (hserves : H'.Serves c.members v d.member)
    (htold : ∀ r ∈ d.requests, H'.Told c.members r.sender r.body ∧
      r.body.term ≤ H'.term r.sender)
    (hanswered : ∀ r reply, (r, reply) ∈ d.replies → H'.Answered (H'.Backs c.members) r reply ∧
      reply.term ≤ H'.term r.receiver) (hreign : H'.reign = H.reign) :
    H'.Endures c P' (w.after v d) :=
  h.after he hmono hx hs hserves htold hanswered
    (fun _ _ hR hR' => nomatch (hR'.symm.trans (hreign ▸ hR) :)) (hreign ▸ h.fits)

/-- A section that changes nothing but the bookkeeping. -/
theorem still (h : H.Endures c P w) (he : Elections c P' (w.after v d))
    (hmono : ∀ u b, P u b → P' u b) (hruns : H.Runs c.members v m f)
    (hc : d.member.core = m.core)
    (htold : ∀ r ∈ d.requests, H.Told c.members r.sender r.body ∧
      r.body.term ≤ H.term r.sender) (hreplies : d.replies = []) :
    ∃ H' : Chronicle, H'.Endures c P' (w.after v d) := by
  refine ⟨H, h.becomes he hmono (.refl v H) h.sound (hruns.of_core hc).serves htold ?_ rfl⟩
  rw [hreplies]
  exact nofun

/-- A section that changes no entry. The chronicle notes the term, if it was stored. -/
theorem raised (h : H.Endures c P w) (up : w.sites v = .up m) (he : Elections c P' (w.after v d))
    (hmono : ∀ u b, P u b → P' u b) (hruns : H.Runs c.members v m f)
    (hr : Replica.SameLog m.replica r) (hle : m.replica.term ≤ r.term)
    (hfin : Member.Finishes r d.member f)
    (hsaved : d.member.saved = m.saved ∨ d.member.saved = r.ballot)
    (hpost : (H.raise v r.term).Post c.members v r f) (hrequests : d.requests = [])
    (hanswered : ∀ req reply, (req, reply) ∈ d.replies →
      (H.raise v d.member.saved.term).Answered ((H.raise v d.member.saved.term).Backs c.members)
        req reply ∧ reply.term ≤ (H.raise v d.member.saved.term).term req.receiver) :
    ∃ H' : Chronicle, H'.Endures c P' (w.after v d) :=
  ⟨_, h.becomes he hmono (extends_raise ..) (h.sound.raise ..)
    (hruns.raise (h.behind up hruns) hr hle hfin hsaved hpost) (by rw [hrequests]; exact nofun)
    hanswered rfl⟩

/-! ## Elections -/

theorem answerVote (h : H.Endures c P w) (up : w.sites v = .up m)
    (hruns : H.Runs c.members v m f) {req : Request}
    {q : VoteRequest} {reply : Except ServiceError Message} (sent : req ∈ w.requests)
    (here : req.receiver = v) (body : req.body = .voteRequest q)
    (run : m.answerVote q = (m', reply))
    (he : Elections c P' (w.after v { member := m', replies := req.answer reply }))
    (hmono : ∀ u b, P u b → P' u b) :
    ∃ H' : Chronicle,
      H'.Endures c P' (w.after v { member := m', replies := req.answer reply }) := by
  obtain ⟨r, granted, hr, hfirm, rfl, -, hcases⟩ := hruns.firm.answerVote run
  have hsame := Replica.sameLog_answerVote hr
  obtain ⟨hpost, hle, hgrant⟩ := hruns.post.answerVote hr
  rcases hcases with ⟨hsaved, hreply⟩ | ⟨hsaved, e, rfl⟩
  · refine h.raised up he hmono hruns hsame hle
      (hfirm.finishes hsaved (.refl _) (Nat.le_refl _)) (.inr hsaved) hpost.raise rfl
      (backed_of_answer req reply fun message hm => ?_)
    cases hreply.symm.trans hm
    have hterm : m'.saved.term = m'.replica.term := congrArg Ballot.term hsaved
    refine ⟨fun hgranted => ?_, ?_⟩
    · obtain ⟨hq, hdate⟩ := hgrant hgranted
      rw [hterm]
      exact h.sound.vouches (Nat.le_trans (h.behind up hruns) hle) here body (h.told req sent).1 hq
        fun z hi ht => hruns.grafted.behind (hruns.firm.spans.behind hi ht hdate)
    · rw [here, term_raise, hterm]
      exact Nat.le_max_right _ _
  · have hruns' := hruns.of_firm hfirm hsame.settings (Nat.le_of_eq hsame.base.symm) hsame.commit
      hsaved hpost
    exact ⟨H, h.becomes he hmono (.refl v H) h.sound hruns'.serves nofun nofun rfl⟩

/-- Every history comes from leaders, and what leaders have can be counted. -/
theorem length_le (h : H.Endures c P w) (hf : H.Rooted f) : f.length ≤ maxWord := by
  by_cases h0 : f = []
  · rw [h0]
    exact Nat.zero_le _
  · obtain ⟨e, R, -, -, hR, hp⟩ := hf.exists_reign h0
    exact Nat.le_trans hp.length_le (h.fits _ R hR)

/-- A section of a candidate, which goes on as one or is elected. -/
theorem stands (h : H.Endures c P w) (up : w.sites v = .up m) (he : Elections c P' (w.after v d))
    (hmono : ∀ u b, P u b → P' u b) (hruns : H.Runs c.members v m f) {H₁ : Chronicle}
    (hx : Extends v H H₁) (hs : H₁.Sound c.members) (hreign : H₁.reign = H.reign)
    (hlog : H₁.log v = H.log v) {r₀ : Replica} (hpost : H₁.Post c.members v r₀ f)
    (hrole : r₀.role = .candidate) (hsame : Replica.SameLog m.replica r₀) (hd : r₀.votes.Nodup)
    (hk : r₀.votes ⊆ c.members)
    (hr : r = r₀ ∨ r₀.quorum ≤ r₀.votes.length ∧ r₀.lead = .ok r)
    (hfin : Member.Finishes r d.member f)
    (hsaved : d.member.saved = r.ballot ∨ d.member.saved.term = H₁.term v)
    (htold : ∀ r ∈ d.requests, H₁.Told c.members r.sender r.body ∧
      r.body.term ≤ H₁.term r.sender) (hreplies : d.replies = []) :
    ∃ H' : Chronicle, H'.Endures c P' (w.after v d) := by
  have hanswered : ∀ {H' : Chronicle} r reply, (r, reply) ∈ d.replies →
      H'.Answered (H'.Backs c.members) r reply ∧ reply.term ≤ H'.term r.receiver := by
    intro H' r reply hr
    rw [hreplies] at hr
    cases hr
  have hsame' : Replica.SameLog m.replica r := by
    rcases hr with rfl | ⟨-, hlead⟩
    · exact hsame
    · exact hsame.trans (.lead hlead)
  have hvalid : r.settings.validate = .ok () := hsame'.settings ▸ hruns.valid
  have hgrafted : Grafted (H₁.log v) f r.snapshotIndex r.commitIndex := by
    rw [hlog, hsame'.base, hsame'.commit]
    exact hruns.grafted
  have hfixed : H₁.Fixed c.members (H₁.term v) (f.take r.commitIndex) := by
    rw [hsame'.commit]
    exact (hruns.fixed.extend hx).mono (hx.term v)
  have ht : d.member.saved.term = H₁.term v := by
    refine hsaved.elim (fun hsaved => ?_) id
    rw [hsaved, ← (hpost.active (by rw [hrole]; exact nofun)).1]
    rcases hr with rfl | ⟨-, hlead⟩
    · rfl
    · obtain ⟨_, _, rfl⟩ := Replica.lead_spec hlead
      rfl
  -- a member that halts needs no post
  have hkeep : (d.member.stopped = false → H₁.Post c.members v r f) →
      ∃ H' : Chronicle, H'.Endures c P' (w.after v d) := fun hpost =>
    ⟨H₁, h.becomes he hmono hx hs (.of_finishes hfin hgrafted hfixed ht hvalid hpost) htold
      hanswered hreign⟩
  rcases hr with rfl | ⟨hq, hlead⟩
  · exact hkeep fun _ => hpost
  · cases hstop : d.member.stopped with
    | true => exact hkeep fun hrun => nomatch hstop.symm.trans hrun
    | false =>
      obtain ⟨-, -, hbut⟩ := hfin.runs hstop
      have hnone := hpost.uncrowned h.crowned he hmono hreign hrole hlead hbut
      have hbase : r.snapshotIndex ≤ r.commitIndex := by
        rw [hsame'.base, hsame'.commit]
        exact Nat.le_trans hruns.firm.applied hruns.firm.committed
      have hmaj : Majority c.members r₀.votes :=
        .of_quorum (hsame.members ▸ (h.office up hruns).seated.perm) hd hk hq
      -- what is fixed is in the log that the node is elected with, so nothing of it is grafted
      have hactive := (hpost.active (by rw [hrole]; exact nofun)).1
      have hf : f = H₁.log v := hgrafted.eq_of_isPrefix (hs.prefix_of_elected (hactive ▸ hnone) hmaj
        (hactive ▸ (hpost.stands hrole).2.2 hnone) (hfixed.of_isPrefix (take_prefix_take hbase)))
      obtain ⟨H₂, hx₂, hs₂, hpost₂, hlog₂, hterm₂, -, hcrowned⟩ := hs.elect hpost hf hrole hnone
        (hruns.firm.spans.of_sameLog hsame) hmaj hlead
      refine ⟨H₂, h.after he hmono (hx.trans hx₂) hs₂ (.of_finishes hfin (hlog₂ ▸ hgrafted)
        (hterm₂ ▸ hfixed.extend hx₂) (ht.trans hterm₂.symm) hvalid fun _ => hpost₂)
        (fun r hr => (htold r hr).imp (·.extend hx₂) fun hle => Nat.le_trans hle (hx₂.term _))
        hanswered (fun t R hR hR' => ?_) fun t R hR => ?_⟩
      · rcases hcrowned t R hR with hold | ⟨hrole, ht, -⟩
        · cases hR'.symm.trans (hreign ▸ hold)
        · exact ⟨hbut.role.trans hrole, hbut.term.trans ht⟩
      · rcases hcrowned t R hR with hold | ⟨-, -, hlogR⟩
        · exact h.fits t R (hreign ▸ hold)
        · rw [hlogR, hlog]
          exact h.length_le (h.sound.upright v).rooted

theorem timeout (h : H.Endures c P w) (up : w.sites v = .up m)
    (hruns : H.Runs c.members v m f) {q : Option VoteRequest}
    (run : m.campaign = .ok (m', q))
    (he : Elections c P' (w.after v { member := m', requests := m'.asks q }))
    (hmono : ∀ u b, P u b → P' u b) :
    ∃ H' : Chronicle, H'.Endures c P' (w.after v { member := m', requests := m'.asks q }) := by
  have hle := h.behind up hruns
  have hseated := (h.office up hruns).seated
  obtain ⟨rfl, rfl⟩ | ⟨r, request, hr, hfirm, -, ⟨hsaved, rfl, hq⟩ | ⟨hsaved, hr', rfl⟩⟩ :=
    hruns.firm.campaign run
  · exact h.still he hmono hruns rfl nofun rfl
  · obtain ⟨r₀, hr₀, helected, rfl⟩ := Replica.campaign_cases hr
    have hlead := helected.imp_left And.left
    have hs := h.sound.raise v m.replica.term
    have hterm : (H.raise v m.replica.term).term v = m.replica.term := by
      rw [term_raise, Nat.max_eq_right hle]
    have hvotes : r₀.votes = [v] := by rw [hr₀, hseated.id]
    have hpost : ((H.raise v m.replica.term).stand v).Post c.members v r₀ f :=
      hs.candidacy (by rw [hr₀]) (by rw [hr₀, hterm]) hvotes
    have hstood := stood_stand (H.raise v m.replica.term) v
    have hterm' := term_stand (H.raise v m.replica.term) v
    rw [hterm] at hstood hterm'
    refine h.stands up he hmono hruns ((extends_raise ..).trans (extends_stand hs v)) (hs.stand v)
      rfl rfl hpost (by rw [hr₀]) (by rw [hr₀]; exact ⟨rfl, rfl, rfl, rfl, rfl, rfl, rfl, rfl⟩)
      (by rw [hvotes]; exact List.pairwise_singleton _ _) ?_ hlead
      (hfirm.finishes hsaved (.refl _) (Nat.le_refl _)) (.inl hsaved) (fun req hreq => ?_) rfl
    · rw [hvotes]
      intro u hu
      rw [List.mem_singleton.1 hu]
      exact hseated.known
    · cases q with
      | none => cases hreq
      | some q' =>
        obtain ⟨p, -, rfl⟩ := List.mem_map.1 hreq
        obtain rfl := hq _ rfl
        have hid : m'.replica.id = v := (he.sworn v _ (World.sites_after_self ..)).1.id
        rw [hid]
        refine ⟨⟨H.log v, hstood, ?_, ?_⟩, Nat.le_of_eq hterm'.symm⟩
        · exact hruns.firm.spans.lastIndex_eq.trans hruns.grafted.length_eq
        · exact hruns.firm.spans.lastTerm_eq.trans hruns.grafted.lastTerm_eq
  · -- the vote was not stored, and the node follows
    have hsame := (Replica.sameLog_campaign hr).trans (Replica.sameLog_follow r r.term)
    rw [← hr'] at hsame
    have hruns' := hruns.of_firm hfirm hsame.settings (Nat.le_of_eq hsame.base.symm) hsame.commit
      hsaved (.of_follower (hr' ▸ rfl))
    exact ⟨H, h.becomes he hmono (.refl v H) h.sound hruns'.serves nofun nofun rfl⟩

theorem countVote (h : H.Endures c P w) (up : w.sites v = .up m)
    (hruns : H.Runs c.members v m f) {req : Request} {q : VoteRequest} {term : Nat}
    {granted more : Bool} (replied : (req, .voteReply term granted) ∈ w.replies)
    (here : req.sender = v) (body : req.body = .voteRequest q)
    (run : m.countVote q.term req.receiver term granted = .ok (m', more))
    (he : Elections c P' (w.after v { member := m' })) (hmono : ∀ u b, P u b → P' u b) :
    ∃ H' : Chronicle, H'.Endures c P' (w.after v { member := m' }) := by
  obtain ⟨r, won, hr, hfin, hsaved⟩ := hruns.firm.countVote run
  have hsame := Replica.sameLog_countVote hr
  rcases Replica.countVote_cases hr with ⟨-, rfl⟩ | rfl | ⟨hrole, rfl, rfl, r₀, rfl, helected⟩
  · exact h.raised up he hmono hruns hsame
      (Replica.term_follow m.replica term ▸ Nat.le_max_left _ _) hfin hsaved (.of_follower rfl) rfl
      nofun
  · exact h.raised up he hmono hruns hsame (Nat.le_refl _) hfin hsaved hruns.post.raise rfl nofun
  · obtain ⟨hd, hk⟩ := h.elections.tallied up hrole replied body
    obtain ⟨z, hz, hvouched⟩ := (h.answered req _ replied).1 rfl
    exact h.stands up he hmono hruns (.refl v H) h.sound rfl rfl
      (hruns.post.tallied hrole (here ▸ hz) hvouched) hrole
      ⟨rfl, rfl, rfl, rfl, rfl, rfl, rfl, rfl⟩ hd hk (helected.imp_left And.left) hfin
      (hsaved.symm.imp_right fun hsaved => (congrArg Ballot.term hsaved).trans hruns.term) nofun rfl

/-! ## Leading -/

/-- What an answer covers, the leader that asked for it may count. -/
theorem covered (h : H.Endures c P w) (hruns : H.Runs c.members v m f) {req : Request}
    {reply : Message} {through term : Nat} {success : Bool} (replied : (req, reply) ∈ w.replies)
    (here : req.sender = v) (hthrough : Member.sentThrough req.body = .ok through)
    (hkind : reply = .appendReply term success ∨ reply = .installReply term ∧ success = true)
    (hrole : m.replica.role = .leader) (hterm : term = m.replica.term) (hs : success = true) :
    H.Backs c.members req.receiver m.replica.term through := by
  subst hterm
  refine (h.answered req reply replied).1.backs hthrough hkind (fun q hq => ?_) hs
  -- an image covers what is fixed
  obtain ⟨htold, hle⟩ := h.told req (h.elections.replied req _ replied)
  rw [hq] at htold hle
  obtain ⟨R', -, hlen, -, -, hfixed⟩ := htold
  have hactive := (hruns.post.active (by rw [hrole]; exact nofun)).1
  obtain ⟨-, R, hR, -⟩ := hruns.post.leads hrole
  rw [here, ← hactive] at hle
  have hbacks := h.sound.backs_of_fixed (u := req.receiver) hfixed hle hR
  rwa [List.length_take_of_le hlen] at hbacks

/-- What recording an answer makes of the chronicle. -/
theorem recorded (h : H.Endures c P w) (up : w.sites v = .up m) (hruns : H.Runs c.members v m f)
    {req : Request} {reply : Message} {through : Nat} {now : Instant} {more : Bool}
    (replied : (req, reply) ∈ w.replies) (here : req.sender = v)
    (hthrough : Member.sentThrough req.body = .ok through)
    (run : m.recordReply now req.receiver through reply = .ok (m', more)) :
    ∃ H', Extends v H H' ∧ H'.Sound c.members ∧ H'.Serves c.members v m' ∧
      H'.reign = H.reign := by
  have hbehind := h.behind up hruns
  have hbounded := hruns.firm.bounded
  obtain rfl | ⟨term, success, r, advanced, accepted, hkind, hr, run⟩ :=
    Member.recordReply_cases run
  · exact ⟨H, .refl v H, h.sound, hruns.serves, rfl⟩
  rcases Replica.recordAppend_spec hr with ⟨-, rfl, rfl⟩ | ⟨rfl, rfl⟩ | ⟨hrole, hterm, hcases⟩
  · have hsame := Replica.sameLog_follow m.replica term
    obtain ⟨hfin, hsaved⟩ := hruns.firm.recorded hsame.advances
      (Nat.le_trans (Nat.le_of_eq hsame.commit) hbounded) (fun _ => hsame.commit) run
    exact ⟨_, extends_raise .., h.sound.raise .., hruns.raise hbehind hsame
      (Replica.term_follow m.replica term ▸ Nat.le_max_left _ _) hfin hsaved (.of_follower rfl),
      rfl⟩
  · obtain ⟨hfin, hsaved⟩ := hruns.firm.recorded (Replica.SameLog.refl _).advances hbounded
      (fun _ => rfl) run
    exact ⟨_, extends_raise .., h.sound.raise .., hruns.raise hbehind (.refl _) (Nat.le_refl _) hfin
      hsaved hruns.post.raise, rfl⟩
  · obtain ⟨H', hgoverns, hlog, hreign, hadvances, hidle, hstance⟩ := (h.office up hruns).books
      h.sound hrole (h.covered hruns replied here hthrough hkind hrole hterm) hcases
    obtain ⟨hfin, hsaved⟩ := hruns.firm.recorded hadvances hgoverns.bounded hidle run
    have hactive := (hruns.post.active (by rw [hrole]; exact nofun)).1
    refine ⟨H', hgoverns.grows, hgoverns.sound,
      .of_finishes hfin (.inl ?_) hgoverns.fixed ?_ ?_ fun _ => hgoverns.post, hreign⟩
    · rw [hlog]
      exact (hruns.post.leads hrole).1
    · rw [hgoverns.term]
      rcases hsaved with hsaved | hsaved <;> rw [hsaved]
      · exact hruns.term
      · exact (congrArg Ballot.term (Replica.stance_eq_iff.1 hstance).2.2.2.1).trans hactive
    · exact hadvances.same.settings ▸ hruns.valid

theorem recordReply (h : H.Endures c P w) (up : w.sites v = .up m)
    (hruns : H.Runs c.members v m f) {req : Request} {reply : Message} {through : Nat}
    {now : Instant} {more : Bool} (replied : (req, reply) ∈ w.replies) (here : req.sender = v)
    (hthrough : Member.sentThrough req.body = .ok through)
    (run : m.recordReply now req.receiver through reply = .ok (m', more))
    (he : Elections c P' (w.after v { member := m' })) (hmono : ∀ u b, P u b → P' u b) :
    ∃ H' : Chronicle, H'.Endures c P' (w.after v { member := m' }) := by
  obtain ⟨H', hx, hs, hserves, hreign⟩ := h.recorded up hruns replied here hthrough run
  exact ⟨H', h.becomes he hmono hx hs hserves nofun nofun hreign⟩

theorem recordBeat (h : H.Endures c P w) (up : w.sites v = .up m)
    (hruns : H.Runs c.members v m f) {req : Request} {reply : Message} {through : Nat}
    {now : Instant} (replied : (req, reply) ∈ w.replies) (here : req.sender = v)
    (hthrough : Member.sentThrough req.body = .ok through)
    (run : m.recordBeat now req.receiver through reply = .ok m')
    (he : Elections c P' (w.after v { member := m' })) (hmono : ∀ u b, P u b → P' u b) :
    ∃ H' : Chronicle, H'.Endures c P' (w.after v { member := m' }) := by
  obtain ⟨m₁, more, run, hbegins⟩ := Member.recordBeat_cases run
  obtain ⟨H', hx, hs, hserves, hreign⟩ := h.recorded up hruns replied here hthrough run
  exact ⟨H', h.becomes he hmono hx hs (hserves.of_gist hbegins.gist) nofun nofun hreign⟩

theorem fetch (h : H.Endures c P w) (up : w.sites v = .up m) (hruns : H.Runs c.members v m f)
    {peer : NodeId} {target : Nat} {body : Message}
    (run : m.nextRequest peer target = .ok (.ok (some body)))
    (he : Elections c P' (w.after v { member := m, requests := [⟨v, peer, body⟩] }))
    (hmono : ∀ u b, P u b → P' u b) :
    ∃ H' : Chronicle,
      H'.Endures c P' (w.after v { member := m, requests := [⟨v, peer, body⟩] }) := by
  refine h.still he hmono hruns rfl (fun req hreq => ?_) rfl
  obtain rfl := List.mem_singleton.1 hreq
  obtain ⟨htold, hle, -⟩ := (h.office up hruns).told_next run
  exact ⟨htold, hle⟩

theorem beat (h : H.Endures c P w) (up : w.sites v = .up m) (hruns : H.Runs c.members v m f)
    {beats : List (NodeId × AppendRequest)} (run : m.heartbeats = (m', beats))
    (he : Elections c P' (w.after v
      { member := m', requests := beats.map fun b => ⟨v, b.1, .appendRequest b.2⟩ }))
    (hmono : ∀ u b, P u b → P' u b) :
    ∃ H' : Chronicle, H'.Endures c P' (w.after v
      { member := m', requests := beats.map fun b => ⟨v, b.1, .appendRequest b.2⟩ }) := by
  obtain ⟨rfl, rfl⟩ := Prod.mk.inj run
  refine h.still he hmono hruns (Member.quiet_heartbeats m).core (fun req hreq => ?_) rfl
  obtain ⟨htold, hle, -⟩ := (h.office up hruns).told_heartbeats hreq
  exact ⟨htold, hle⟩

/-! ## Proposals -/

theorem propose (h : H.Endures c P w) (up : w.sites v = .up m) (hruns : H.Runs c.members v m f)
    {command : Command} {ticket : Nat} {now : Instant} {result : Except ServiceError Nat}
    (run : m.propose now command ticket = .ok (m', result)) (hd : d.member = m')
    (hrequests : d.requests = []) (hreplies : d.replies = [])
    (he : Elections c P' (w.after v d)) (hmono : ∀ u b, P u b → P' u b) :
    ∃ H' : Chronicle, H'.Endures c P' (w.after v d) := by
  subst hd
  rcases hruns.firm.propose (fun hrole => (hruns.post.active (by rw [hrole]; exact nofun)).2)
      (fun hrole => ((h.elections.sworn v m up).1.standing (by rw [hrole]; exact nofun)).1.symm)
      (fun hrole r advanced hadv => by
        obtain ⟨_, hgoverns, -⟩ := (h.office up hruns).appends h.sound hrole rfl rfl hadv
        have hle := hgoverns.bounded
        rwa [List.length_append] at hle) run with
    ⟨hfirm, hr, hsaved, -⟩ | ⟨hrole, hword, r, advanced, hadv, hfin, hsaved⟩
  · have hruns' := hruns.of_firm hfirm (by rw [hr]) (Nat.le_of_eq (by rw [hr])) (by rw [hr]) hsaved
      (by rw [hr]; exact hruns.post)
    exact ⟨H, h.becomes he hmono (.refl v H) h.sound hruns'.serves (by rw [hrequests]; exact nofun)
      (by rw [hreplies]; exact nofun) rfl⟩
  · obtain ⟨H', hgoverns, hlog, hreign⟩ :=
      (h.office up hruns).appends h.sound hrole rfl rfl hadv
    have hserves : H'.Serves c.members v d.member :=
      .of_finishes hfin (.inl hlog.symm) hgoverns.fixed
        ((congrArg Ballot.term hsaved).trans (hruns.term.trans hgoverns.term.symm))
        ((Member.advances_advanceCommit hadv).1.same.settings ▸ hruns.valid) fun _ => hgoverns.post
    refine ⟨H', h.after he hmono hgoverns.grows hgoverns.sound hserves
      (by rw [hrequests]; exact nofun) (by rw [hreplies]; exact nofun) (fun t R hR hnone => ?_)
      fun t R hR => ?_⟩
    · obtain ⟨R₀, hR₀, -⟩ := hreign t R hR
      cases hnone.symm.trans hR₀
    · obtain ⟨R₀, hR₀, rfl | ⟨-, heq⟩⟩ := hreign t R hR
      · exact h.fits t R hR₀
      · rw [heq, List.length_append]
        exact hword

/-! ## Following -/

/-- What a node has matches the log of a leader that it hears. -/
theorem matching (h : H.Endures c P w) (up : w.sites v = .up m) (hruns : H.Runs c.members v m f)
    (ht : m.replica.term ≤ t) (hR : H.reign t = some R) : Replica.Matching f R.log := by
  refine hruns.grafted.matching (h.sound.upright v).rooted (h.sound.lawful _ R hR).rooted
    (h.sound.fixed_reign (hruns.fixed.of_isPrefix (take_prefix_take ?_))
      (Nat.le_trans (h.behind up hruns) ht) hR)
  exact Nat.le_trans hruns.firm.applied hruns.firm.committed

/-- A request that changes no entry is answered, and nothing is promised but the term. -/
theorem declines (h : H.Endures c P w) (up : w.sites v = .up m) (hruns : H.Runs c.members v m f)
    {req : Request} {reply : Except ServiceError Message} {answer : Message}
    (here : req.receiver = v)
    (he : Elections c P' (w.after v { member := m', replies := req.answer reply }))
    (hmono : ∀ u b, P u b → P' u b) (hr : Replica.SameLog m.replica r)
    (hle : m.replica.term ≤ r.term) (hpost : (H.raise v r.term).Post c.members v r f)
    (hd : Member.Declines m r m' f reply answer) (hterm : answer.term = r.term)
    (hanswered : ∀ H' : Chronicle, H'.Answered (H'.Backs c.members) req answer) :
    ∃ H' : Chronicle,
      H'.Endures c P' (w.after v { member := m', replies := req.answer reply }) := by
  refine h.raised up he hmono hruns hr hle hd.finishes hd.saved hpost rfl
    (backed_of_answer req reply fun message hm => ?_)
  obtain ⟨hrun, rfl⟩ := hd.answers message hm
  refine ⟨hanswered _, ?_⟩
  rw [here, term_raise, hterm, (hd.finishes.runs hrun).1]
  exact Nat.le_max_right _ _

theorem answerAppend (h : H.Endures c P w) (up : w.sites v = .up m)
    (hruns : H.Runs c.members v m f) {req : Request} {q : AppendRequest} {now : Instant}
    {reply : Except ServiceError Message} (sent : req ∈ w.requests) (here : req.receiver = v)
    (body : req.body = .appendRequest q) (run : m.answerAppend now q = .ok (m', reply))
    (he : Elections c P' (w.after v { member := m', replies := req.answer reply }))
    (hmono : ∀ u b, P u b → P' u b) :
    ∃ H' : Chronicle,
      H'.Endures c P' (w.after v { member := m', replies := req.answer reply }) := by
  obtain ⟨htold, -⟩ := h.told req sent
  rw [body] at htold
  obtain ⟨R, hR, hshows, hle, hfixed⟩ := htold
  have hbehind := h.behind up hruns
  rcases hruns.firm.answerAppend (fun hge => h.matching up hruns hge hR)
      (h.sound.lawful _ R hR).sane hshows (fun hge =>
        h.sound.fixed_reign hruns.fixed (Nat.le_trans hbehind hge) hR) run with
    ⟨hlt, hd⟩ | ⟨hge, hd⟩ | ⟨hge, commit, hlow, hhigh, hfin, hsaved, hreply⟩
  · exact h.declines up hruns here he hmono (.refl _) (Nat.le_refl _) hruns.post.raise hd rfl
      fun _ => nofun
  · obtain ⟨hrole, hterm⟩ := Replica.accept_spec hge q.leader
    exact h.declines up hruns here he hmono (Replica.sameLog_accept ..) (by rw [hterm]; exact hge)
      (.of_follower hrole) hd hterm.symm fun _ => nofun
  · obtain ⟨hrole, hterm⟩ := Replica.accept_spec hge q.leader
    obtain ⟨H', hx, hs, hserves, ht, hreign, hbacks⟩ := hruns.adopts h.sound
      (Nat.le_trans hbehind hge) hR hshows.fits hlow
      (hhigh.imp_right fun hhigh => ⟨by omega, hfixed.of_isPrefix (take_prefix_take (by omega))⟩)
      (Replica.sameLog_accept ..) hrole hterm hfin hsaved
    refine ⟨H', h.becomes he hmono hx hs hserves nofun
      (backed_of_answer req reply fun message hm => ?_) hreign⟩
    obtain ⟨-, rfl⟩ := hreply message hm
    refine ⟨fun _ => ⟨q, body, rfl, here ▸ hbacks⟩, ?_⟩
    rw [here, ht]
    exact Nat.le_refl _

theorem answerInstall (h : H.Endures c P w) (up : w.sites v = .up m)
    (running : m.stopped = false) (hruns : H.Runs c.members v m f) {req : Request}
    {q : InstallRequest} {now : Instant} {reply : Except ServiceError Message}
    (sent : req ∈ w.requests) (here : req.receiver = v) (body : req.body = .installRequest q)
    (run : m.answerInstall now q = .ok (m', reply))
    (he : Elections c P' (w.after v { member := m', replies := req.answer reply }))
    (hmono : ∀ u b, P u b → P' u b) :
    ∃ H' : Chronicle,
      H'.Endures c P' (w.after v { member := m', replies := req.answer reply }) := by
  obtain ⟨htold, -⟩ := h.told req sent
  rw [body] at htold
  obtain ⟨R, hR, hle, hlast, hentries, hfixed⟩ := htold
  have hbehind := h.behind up hruns
  rcases hruns.firm.answerInstall running (fun hge => h.matching up hruns hge hR)
      (h.sound.lawful _ R hR).sane hle hlast hentries run with
    ⟨hlt, hd⟩ | ⟨hge, hd⟩ | ⟨hge, hlt, hsaved, ⟨hstop, ⟨e, rfl⟩, hstored, hleaves⟩ | ⟨hfin, hreply⟩⟩
  · exact h.declines up hruns here he hmono (.refl _) (Nat.le_refl _) hruns.post.raise hd rfl
      fun _ => ⟨q, body⟩
  · obtain ⟨hrole, hterm⟩ := Replica.accept_spec hge q.leader
    exact h.declines up hruns here he hmono (Replica.sameLog_accept ..) (by rw [hterm]; exact hge)
      (.of_follower hrole) hd hterm.symm fun _ => ⟨q, body⟩
  · have hterm := (Replica.accept_spec hge q.leader).2
    obtain ⟨H', hx, hs, hserves, hreign⟩ := hruns.grafts h.sound (Nat.le_trans hbehind hge) hR hle
      hlt hfixed hstop ((congrArg Ballot.term (hstored.trans hsaved)).trans hterm) hleaves
    exact ⟨H', h.becomes he hmono hx hs hserves nofun nofun hreign⟩
  · obtain ⟨hrole, hterm⟩ := Replica.accept_spec hge q.leader
    obtain ⟨H', hx, hs, hserves, ht, hreign, -⟩ := hruns.adopts h.sound
      (Nat.le_trans hbehind hge) hR hle (Nat.le_of_lt hlt) (.inr ⟨Nat.le_refl _, hfixed⟩)
      (Replica.sameLog_accept ..) hrole hterm hfin hsaved
    refine ⟨H', h.becomes he hmono hx hs hserves nofun
      (backed_of_answer req reply fun message hm => ?_) hreign⟩
    obtain ⟨-, rfl⟩ := hreply message hm
    refine ⟨⟨q, body⟩, ?_⟩
    rw [here, ht]
    exact Nat.le_refl _

/-! ## One section -/

theorem act (h : H.Endures c P w) (up : w.sites v = .up m) (running : m.stopped = false)
    (act : Act c w v m d) (whole : ∀ now e, m.takeImage now ≠ .ok (d.member, some e))
    (he : Elections c P' (w.after v d)) (hmono : ∀ u b, P u b → P' u b) :
    ∃ H' : Chronicle, H'.Endures c P' (w.after v d) := by
  obtain ⟨f, hruns⟩ := (h.up v m up).runs running
  cases act with
  | shutDown => exact h.still he hmono hruns (Member.quiet_shutDown m).core nofun rfl
  | timeout run => exact h.timeout up hruns run he hmono
  | answerVote sent here body run => exact h.answerVote up hruns sent here body run he hmono
  | answerAppend sent here body run => exact h.answerAppend up hruns sent here body run he hmono
  | answerInstall sent here body run =>
    exact h.answerInstall up running hruns sent here body run he hmono
  | countVote replied here body run => exact h.countVote up hruns replied here body run he hmono
  | recordReply replied here covered run =>
    exact h.recordReply up hruns replied here covered run he hmono
  | recordBeat replied here covered run =>
    exact h.recordBeat up hruns replied here covered run he hmono
  | propose admitted fresh run => exact h.propose up hruns run rfl rfl rfl he hmono
  | fetch known run => exact h.fetch up hruns run he hmono
  | beat run => exact h.beat up hruns run he hmono
  | @caughtUp peer => exact h.still he hmono hruns (Member.quiet_caughtUp m peer).core nofun rfl
  | @giveUp index => exact h.still he hmono hruns (Member.quiet_dropWaiter m index).core nofun rfl
  | @compact now m' failure run =>
    cases failure with
    | some e => exact absurd run (whole now e)
    | none =>
      obtain ⟨hfirm, hsame, hbase, hspares⟩ := hruns.firm.takeImage run
      have hruns' := hruns.of_firm hfirm hsame.settings hbase hsame.commit hspares.saved
        (hruns.post.of_sameButLog hsame)
      exact ⟨H, h.becomes he hmono (.refl v H) h.sound hruns'.serves nofun nofun rfl⟩

end Endures

end Chronicle

end ReplicatedStore
