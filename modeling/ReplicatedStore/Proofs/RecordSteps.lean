import ReplicatedStore.Proofs.Records
/-!
# Steps of a recorded world

Every step of a world without failing writes is one of its chronicle (`Chronicle.Records.step`). A
section is taken apart into what it makes of the replica; the chronicle follows with the steps of
`ReplicatedStore.Proofs.ChronicleSteps` and `ReplicatedStore.Proofs.Posts`, and the replica keeps
its place in it.

* A vote is answered, or a later term is seen: `raise`. A candidacy: `stand`. A candidate is
  elected: `Sound.elect`.
* A leader adds an entry: `Office.appends`; it counts an answer: `Office.books`. What it commits
  then is noted (`Governs.seat`).
* A follower takes entries or an image: `merge`.
-/
namespace ReplicatedStore

open History

namespace Chronicle

variable {H H' : Chronicle} {members : List NodeId} {v : NodeId} {r r' : Replica}

/-! ## Places -/

/-- Whoever goes on in the same term or a later one, with what is committed as before. -/
theorem Seat.raised (h : H.Seat members v r) (ht : r.term ≤ r'.term)
    (hc : r'.commitIndex = r.commitIndex) (hpost : H.Post members v r' (H.log v)) :
    (H.raise v r'.term).Seat members v r' :=
  ⟨by rw [term_raise, ← h.term, Nat.max_eq_right ht], hc.trans h.commit, hpost.raise⟩

/-- The chronicle notes what a leader has committed. -/
theorem Governs.seat (h : H.Governs members v H' r (H'.log v)) (ht : r.term = H.term v)
    (hc : H.commit v ≤ r.commitIndex) :
    ∃ H₂, Extends v H H₂ ∧ H₂.Sound members ∧ H₂.Seat members v r ∧ H₂.log v = H'.log v ∧
      H₂.reign = H'.reign := by
  rw [← h.commit] at hc
  exact ⟨H'.commitTo v r.commitIndex, h.grows.trans (extends_commitTo hc),
    h.sound.commitTo hc h.bounded h.fixed,
    ⟨ht.trans h.term.symm, (commit_commitTo ..).symm, h.post.active, h.post.leads, h.post.stands⟩,
    rfl, rfl⟩

/-! ## Sections -/

/-- The reply to a request is all that a section answers. -/
theorem answered_of_answer (req : Request) (reply : Except ServiceError Message)
    (h : ∀ message, reply = .ok message → H.Answered H.acked req message) :
    ∀ r x, (r, x) ∈ req.answer reply → H.Answered H.acked r x := by
  intro r x hx
  obtain ⟨heq, hx⟩ := Elections.mem_answer.1 hx
  exact heq ▸ h x hx

namespace Records

variable {c : Conditions} {P P' : NodeId → Ballot → Prop} {w w' : World}
  {m m' : Member MemoryDisk} {d : Deed}

/-- A section in which no call is made. -/
theorem becomes_of_crowned (h : H.Records c P w) (up : w.sites v = .up m)
    (he : Elections c P' (w.after v d)) (hmono : ∀ u b, P u b → P' u b) (hx : Extends v H H')
    (hs : H'.Sound c.members) (hb : m.Becomes r d.member (H'.log v))
    (hseat : H'.Seat c.members v r) (hcall : d.call = none)
    (htold : ∀ r ∈ d.requests, H'.Told c.members r.sender r.body ∧ H'.Ships r.sender r.body)
    (hanswered : ∀ r reply, (r, reply) ∈ d.replies → H'.Answered H'.acked r reply)
    (hcrowned : ∀ t R, H'.reign t = some R → H.reign t = some R ∨
      r.role = .leader ∧ r.term = t ∧ ∀ e ∈ R.log, c.admits e.command) :
    H'.Records c P' (w.after v d) := by
  have hcalls : World.withCall w.calls d.call = w.calls := by rw [hcall]; rfl
  have hlives := Lives.of_becomes hb hseat
  refine h.after m.pending he hmono hx hs hlives htold hanswered ?_ ?_ ?_ ?_ ?_
    hb.credits.pending ?_
  · intro t R hR hR'
    rcases hcrowned t R hR with hold | ⟨hrole, ht, -⟩
    · cases hR'.symm.trans hold
    · exact ⟨hb.replica.role.trans hrole, hb.replica.term.trans ht⟩
  · intro t R hR
    rcases hcrowned t R hR with hold | ⟨-, -, hall⟩
    · exact h.admitted t R hold
    · exact hall
  · rw [hcalls]
    exact h.clients.extend hx
  · rw [hcalls]
    exact .refl _
  · rw [hcalls]
    exact fun i x hi => h.waits v m i x up hi
  · intro e he
    rw [← hlives.seat.commit]
    rcases hb.credits.outbox e he with he | he
    · rw [(h.up v m up).2] at he
      cases he
    · exact he

/-- A section in which nobody is elected and nothing is proposed. -/
theorem becomes (h : H.Records c P w) (up : w.sites v = .up m)
    (he : Elections c P' (w.after v d)) (hmono : ∀ u b, P u b → P' u b) (hx : Extends v H H')
    (hs : H'.Sound c.members) (hb : m.Becomes r d.member (H'.log v))
    (hseat : H'.Seat c.members v r) (hcall : d.call = none)
    (htold : ∀ r ∈ d.requests, H'.Told c.members r.sender r.body ∧ H'.Ships r.sender r.body)
    (hanswered : ∀ r reply, (r, reply) ∈ d.replies → H'.Answered H'.acked r reply)
    (hreign : H'.reign = H.reign) : H'.Records c P' (w.after v d) :=
  h.becomes_of_crowned up he hmono hx hs hb hseat hcall htold hanswered fun _ _ hR =>
    .inl (hreign ▸ hR)

/-- A section in which the chronicle stays as it is. -/
theorem still (h : H.Records c P w) (up : w.sites v = .up m) (he : Elections c P' (w.after v d))
    (hmono : ∀ u b, P u b → P' u b) (hb : m.Becomes m.replica d.member (H.log v))
    (hcall : d.call = none)
    (htold : ∀ r ∈ d.requests, H.Told c.members r.sender r.body ∧ H.Ships r.sender r.body)
    (hanswered : ∀ r reply, (r, reply) ∈ d.replies → H.Answered H.acked r reply) :
    ∃ H', Extends v H H' ∧ H'.Records c P' (w.after v d) :=
  ⟨H, .refl v H, h.becomes up he hmono (.refl v H) h.sound hb (h.up v m up).1.seat hcall htold
    hanswered rfl⟩

/-- A section in which no entry changes. -/
theorem raised (h : H.Records c P w) (up : w.sites v = .up m) (he : Elections c P' (w.after v d))
    (hmono : ∀ u b, P u b → P' u b) (hr : Replica.SameLog m.replica r)
    (hle : m.replica.term ≤ r.term) (hb : m.Becomes r d.member (H.log v))
    (hpost : H.Post c.members v r (H.log v)) (hcall : d.call = none) (hrequests : d.requests = [])
    (hanswered : ∀ req reply, (req, reply) ∈ d.replies →
      (H.raise v r.term).Answered (H.raise v r.term).acked req reply) :
    ∃ H', Extends v H H' ∧ H'.Records c P' (w.after v d) :=
  ⟨H.raise v r.term, extends_raise .., h.becomes up he hmono (extends_raise ..)
    (h.sound.raise ..) hb ((h.up v m up).1.seat.raised hle hr.commit hpost) hcall
    (by rw [hrequests]; exact nofun) hanswered rfl⟩

/-- What the chronicle says of a node that is up. -/
theorem office (h : H.Records c P w) (up : w.sites v = .up m) :
    H.Office c.members v m (H.log v) := by
  obtain ⟨hl, -⟩ := h.up v m up
  refine ⟨⟨hl.steady.spans, Nat.le_trans hl.steady.applied hl.steady.committed, hl.steady.bounded,
    hl.steady.image⟩, hl.seat.post, ?_, seated_of_elections h.elections up⟩
  rw [hl.seat.commit]
  exact (h.sound.upright v).fixed

/-! ## Requests of others -/

theorem answerVote (h : H.Records c P w) (up : w.sites v = .up m) {req : Request}
    {q : VoteRequest} {reply : Except ServiceError Message} (sent : req ∈ w.requests)
    (here : req.receiver = v) (body : req.body = .voteRequest q)
    (run : m.answerVote q = (m', reply))
    (he : Elections c P' (w.after v { member := m', replies := req.answer reply }))
    (hmono : ∀ u b, P u b → P' u b) :
    ∃ H', Extends v H H' ∧
      H'.Records c P' (w.after v { member := m', replies := req.answer reply }) := by
  obtain ⟨hl, -⟩ := h.up v m up
  obtain ⟨r, granted, hr, hb, hreply⟩ := hl.steady.answerVote run
  obtain ⟨hpost, hle, hgrant⟩ := hl.seat.post.answerVote hr
  refine h.raised up he hmono (Replica.sameLog_answerVote hr) hle hb hpost rfl rfl
    (answered_of_answer req reply fun message hm => ?_)
  cases hreply.symm.trans hm
  intro hgranted
  obtain ⟨hq, hdate⟩ := hgrant hgranted
  exact h.sound.vouches (hl.seat.term ▸ hle) here body (h.told req sent).1 hq fun z hi ht =>
    hl.steady.spans.behind hi ht hdate

theorem answerAppend (h : H.Records c P w) (up : w.sites v = .up m) {req : Request}
    {q : AppendRequest} {now : Instant} {reply : Except ServiceError Message}
    (sent : req ∈ w.requests) (here : req.receiver = v) (body : req.body = .appendRequest q)
    (run : m.answerAppend now q = .ok (m', reply))
    (he : Elections c P' (w.after v { member := m', replies := req.answer reply }))
    (hmono : ∀ u b, P u b → P' u b) :
    ∃ H', Extends v H H' ∧
      H'.Records c P' (w.after v { member := m', replies := req.answer reply }) := by
  obtain ⟨hl, -⟩ := h.up v m up
  have hterm := hl.seat.term
  have hcommit := hl.seat.commit
  obtain ⟨htold, -⟩ := h.told req sent
  rw [body] at htold
  obtain ⟨R, hR, hshows, hle, hfixed⟩ := htold
  have hlaw := h.sound.lawful _ R hR
  have hup := h.sound.upright v
  rcases hl.steady.answerAppend (hup.rooted.matching hlaw.rooted) hlaw.sane hshows
      (fun hge => by rw [hcommit]; exact h.sound.committed_reign (hterm ▸ hge) hR) run with
    ⟨-, hb, hreply⟩ | ⟨hge, hb, hreply⟩ | ⟨hge, commit, hlow, hhigh, hb, hreply⟩
  · refine h.still up he hmono hb rfl nofun (answered_of_answer req reply fun message hm => ?_)
    rw [hreply message hm]
    exact nofun
  · obtain ⟨hrole, ht⟩ := Replica.accept_spec hge q.leader
    refine h.raised up he hmono (Replica.sameLog_accept ..)
      (Nat.le_trans hge (Nat.le_of_eq ht.symm)) hb (.of_follower hrole) rfl rfl
      (answered_of_answer req reply fun message hm => ?_)
    rw [hreply message hm]
    exact nofun
  · obtain ⟨hrole, ht⟩ := Replica.accept_spec hge q.leader
    rw [hterm] at hge
    rw [hcommit] at hlow hhigh
    have hx : Extends v H (H.merge v q.term R (q.prevIndex + q.entries.length) commit) :=
      extends_merge hge hlow
    have hseat : (H.merge v q.term R (q.prevIndex + q.entries.length) commit).Seat c.members v
        { m.replica.accept q.term q.leader with commitIndex := commit } :=
      .of_follower (ht.trans (term_merge hge).symm) (commit_merge ..).symm hrole
    have hs := h.sound.merge hge hR hshows.fits hlow (hhigh.imp_right fun hhigh =>
      ⟨by omega, hfixed.of_isPrefix (take_prefix_take (by omega))⟩)
    refine ⟨_, hx, h.becomes up he hmono hx hs ?_ hseat rfl nofun
      (answered_of_answer req reply fun message hm => ?_) rfl⟩
    · rw [log_merge]
      exact hb
    · rw [hreply message hm]
      intro _
      rw [here]
      exact ⟨q, body, rfl, acked_merge ..⟩

theorem answerInstall (h : H.Records c P w) (up : w.sites v = .up m) {req : Request}
    {q : InstallRequest} {now : Instant} {reply : Except ServiceError Message}
    (sent : req ∈ w.requests) (body : req.body = .installRequest q)
    (run : m.answerInstall now q = .ok (m', reply))
    (he : Elections c P' (w.after v { member := m', replies := req.answer reply }))
    (hmono : ∀ u b, P u b → P' u b) :
    ∃ H', Extends v H H' ∧
      H'.Records c P' (w.after v { member := m', replies := req.answer reply }) := by
  obtain ⟨hl, -⟩ := h.up v m up
  have hterm := hl.seat.term
  have hcommit := hl.seat.commit
  obtain ⟨htold, -⟩ := h.told req sent
  rw [body] at htold
  obtain ⟨R, hR, hle, hlast, hentries, hfixed⟩ := htold
  have hlaw := h.sound.lawful _ R hR
  have hup := h.sound.upright v
  have hkind : ∀ {H' : Chronicle} {t : Nat}, reply = .ok (.installReply t) →
      ∀ r x, (r, x) ∈ req.answer reply → H'.Answered H'.acked r x := by
    intro H' t hreply
    refine answered_of_answer req reply fun message hm => ?_
    cases hreply.symm.trans hm
    exact ⟨q, body⟩
  rcases hl.steady.answerInstall (hup.rooted.matching hlaw.rooted) hlaw.sane hle hlast hentries run
    with ⟨-, hb, hreply⟩ | ⟨hge, -, hb, hreply⟩ | ⟨hge, hlt, hb, hreply⟩
  · exact h.still up he hmono hb rfl nofun (hkind hreply)
  · obtain ⟨hrole, ht⟩ := Replica.accept_spec hge q.leader
    exact h.raised up he hmono (Replica.sameLog_accept ..)
      (Nat.le_trans hge (Nat.le_of_eq ht.symm)) hb (.of_follower hrole) rfl rfl (hkind hreply)
  · obtain ⟨hrole, ht⟩ := Replica.accept_spec hge q.leader
    rw [hterm] at hge
    rw [hcommit] at hlt
    have hx : Extends v H (H.merge v q.term R q.lastIndex q.lastIndex) :=
      extends_merge hge (Nat.le_of_lt hlt)
    have hseat : (H.merge v q.term R q.lastIndex q.lastIndex).Seat c.members v
        { m.replica.accept q.term q.leader with commitIndex := q.lastIndex } :=
      .of_follower (ht.trans (term_merge hge).symm) (commit_merge ..).symm hrole
    have hs := h.sound.merge hge hR hle (Nat.le_of_lt hlt) (.inr ⟨Nat.le_refl _, hfixed⟩)
    refine ⟨_, hx, h.becomes up he hmono hx hs ?_ hseat rfl nofun (hkind hreply) rfl⟩
    rw [log_merge]
    exact hb

/-! ## Elections -/

/-- A section of a candidate, which goes on as one or is elected. -/
theorem stands (h : H.Records c P w) (up : w.sites v = .up m)
    (he : Elections c P' (w.after v d)) (hmono : ∀ u b, P u b → P' u b) {H₁ : Chronicle}
    (hx : Extends v H H₁) (hs : H₁.Sound c.members) (hreign : H₁.reign = H.reign)
    {r₀ : Replica} (hseat : H₁.Seat c.members v r₀) (hrole : r₀.role = .candidate)
    (hspans : r₀.Spans (H₁.log v)) (hperm : r₀.members.Perm c.members) (hd : r₀.votes.Nodup)
    (hk : r₀.votes ⊆ c.members)
    (hr : r = r₀ ∨ r₀.quorum ≤ r₀.votes.length ∧ r₀.lead = .ok r)
    (hb : m.Becomes r d.member (H₁.log v)) (hcall : d.call = none)
    (htold : ∀ r ∈ d.requests, H₁.Told c.members r.sender r.body ∧ H₁.Ships r.sender r.body)
    (hreplies : d.replies = []) : ∃ H', Extends v H H' ∧ H'.Records c P' (w.after v d) := by
  have hanswered : ∀ {H' : Chronicle} r reply, (r, reply) ∈ d.replies →
      H'.Answered H'.acked r reply := by
    intro H' r reply hr
    rw [hreplies] at hr
    cases hr
  rcases hr with rfl | ⟨hq, hlead⟩
  · exact ⟨H₁, hx, h.becomes up he hmono hx hs hb hseat hcall htold hanswered hreign⟩
  · have hnone := hseat.post.uncrowned h.crowned he hmono hreign hrole hlead hb.replica
    obtain ⟨H₂, hx₂, hs₂, hpost, hlog, hterm, hcommit, hcrowned⟩ := hs.elect hseat.post rfl hrole
      hnone hspans (.of_quorum hperm hd hk hq) hlead
    have hseat₂ : H₂.Seat c.members v r := by
      refine ⟨?_, (Replica.SameLog.lead hlead).commit.trans (hseat.commit.trans hcommit.symm),
        hlog ▸ hpost⟩
      rw [hterm, ← hseat.term]
      obtain ⟨_, _, rfl⟩ := Replica.lead_spec hlead
      rfl
    refine ⟨H₂, hx.trans hx₂, h.becomes_of_crowned up he hmono (hx.trans hx₂) hs₂ (hlog ▸ hb)
      hseat₂ hcall (fun r hr => (htold r hr).imp (·.extend hx₂) (·.extend hx₂)) hanswered
      fun t R hR => ?_⟩
    refine (hcrowned t R hR).imp (fun hold => hreign ▸ hold) fun ⟨hrole, ht, hlogR⟩ =>
      ⟨hrole, ht, fun e he => ?_⟩
    obtain ⟨R', hR', he'⟩ := (hs.upright v).rooted.exists_mem (hlogR ▸ he)
    exact h.admitted _ R' (hreign ▸ hR') e he'

theorem timeout (h : H.Records c P w) (up : w.sites v = .up m) {q : Option VoteRequest}
    (run : m.campaign = .ok (m', q))
    (he : Elections c P' (w.after v { member := m', requests := m'.asks q }))
    (hmono : ∀ u b, P u b → P' u b) :
    ∃ H', Extends v H H' ∧
      H'.Records c P' (w.after v { member := m', requests := m'.asks q }) := by
  obtain ⟨hl, -⟩ := h.up v m up
  have hterm := hl.seat.term
  have hd := (h.office up).seated
  obtain ⟨rfl, rfl⟩ | ⟨r, request, hr, hb, hq⟩ := hl.steady.campaign run
  · exact h.still up he hmono hl.steady.becomes rfl nofun nofun
  · obtain ⟨r₀, hr₀, helected, rfl⟩ := Replica.campaign_cases hr
    have hvotes : r₀.votes = [v] := by rw [hr₀, hd.id]
    have hterm₀ : r₀.term = H.term v + 1 := by rw [hr₀, ← hterm]
    have hcommit₀ : r₀.commitIndex = H.commit v := by rw [hr₀, ← hl.seat.commit]
    have hseat : (H.stand v).Seat c.members v r₀ :=
      ⟨hterm₀.trans (term_stand H v).symm, hcommit₀,
        h.sound.candidacy (by rw [hr₀]) hterm₀ hvotes⟩
    refine h.stands up he hmono (extends_stand h.sound v) (h.sound.stand v) rfl hseat (by rw [hr₀])
      (hl.steady.spans.congr (by rw [hr₀]) (by rw [hr₀]) (by rw [hr₀])) (by rw [hr₀]; exact hd.perm)
      (by rw [hvotes]; exact List.pairwise_singleton _ _) ?_ (helected.imp_left And.left) hb rfl ?_
      rfl
    · rw [hvotes]
      exact fun u hu => List.mem_singleton.1 hu ▸ hd.known
    · intro req hreq
      cases q with
      | none => cases hreq
      | some q' =>
        obtain ⟨p, -, rfl⟩ := List.mem_map.1 hreq
        obtain rfl := hq _ rfl
        have hid : m'.replica.id = v := (he.sworn v _ (World.sites_after_self ..)).1.id
        have hstood := stood_stand H v
        rw [← hterm] at hstood
        exact ⟨⟨H.log v, by rw [hid]; exact hstood, hl.steady.spans.lastIndex_eq,
          hl.steady.spans.lastTerm_eq⟩, nofun⟩

theorem countVote (h : H.Records c P w) (up : w.sites v = .up m) {req : Request}
    {q : VoteRequest} {term : Nat} {granted more : Bool}
    (replied : (req, .voteReply term granted) ∈ w.replies) (here : req.sender = v)
    (body : req.body = .voteRequest q)
    (run : m.countVote q.term req.receiver term granted = .ok (m', more))
    (he : Elections c P' (w.after v { member := m' })) (hmono : ∀ u b, P u b → P' u b) :
    ∃ H', Extends v H H' ∧ H'.Records c P' (w.after v { member := m' }) := by
  obtain ⟨hl, -⟩ := h.up v m up
  obtain ⟨r, won, hr, hb⟩ := hl.steady.countVote run
  rcases Replica.countVote_cases hr with ⟨-, rfl⟩ | rfl | ⟨hrole, rfl, rfl, r₀, rfl, helected⟩
  · exact h.raised up he hmono (Replica.sameLog_countVote hr)
      (Replica.term_follow m.replica term ▸ Nat.le_max_left _ _) hb (.of_follower rfl) rfl rfl nofun
  · exact h.still up he hmono hb rfl nofun nofun
  · obtain ⟨hd, hk⟩ := h.elections.tallied up hrole replied body
    obtain ⟨z, hz, hvouched⟩ := h.answered req _ replied rfl
    have hseat : H.Seat c.members v { m.replica with votes := m.replica.tallied req.receiver } :=
      ⟨hl.seat.term, hl.seat.commit, hl.seat.post.tallied hrole (here ▸ hz) hvouched⟩
    exact h.stands up he hmono (.refl v H) h.sound rfl hseat hrole
      (hl.steady.spans.congr rfl rfl rfl) (h.office up).seated.perm hd hk
      (helected.imp_left And.left) hb rfl nofun rfl

/-! ## Answers to a leader -/

/-- What an answer covers, the leader that asked for it may count. -/
theorem covered (h : H.Records c P w) (up : w.sites v = .up m) {req : Request} {reply : Message}
    {through term : Nat} {success : Bool} (replied : (req, reply) ∈ w.replies)
    (here : req.sender = v) (hthrough : Member.sentThrough req.body = .ok through)
    (hkind : reply = .appendReply term success ∨ reply = .installReply term ∧ success = true)
    (hrole : m.replica.role = .leader) (hterm : term = m.replica.term) (hs : success = true) :
    H.Backs c.members req.receiver m.replica.term through := by
  subst hterm
  refine ((h.answered req reply replied).mono fun u t k => h.sound.backs_of_acked).backs hthrough
    hkind (fun q hq => ?_) hs
  -- an image covers what is committed
  have hup := h.sound.upright v
  have hle := (h.told req (h.elections.replied req _ replied)).2 q hq
  rw [here] at hle
  have hlen := List.length_take_of_le (Nat.le_trans hle hup.bounded)
  obtain ⟨-, R, hR, -⟩ := (h.office up).post.leads hrole
  rw [← hlen]
  exact h.sound.backs_of_fixed (hup.fixed.of_isPrefix (take_prefix_take hle))
    (Nat.le_of_eq (h.up v m up).1.seat.term.symm) hR

/-- What recording an answer makes of the member and the chronicle. -/
theorem recorded (h : H.Records c P w) (up : w.sites v = .up m) {req : Request} {reply : Message}
    {through : Nat} {now : Instant} {more : Bool} (replied : (req, reply) ∈ w.replies)
    (here : req.sender = v) (hthrough : Member.sentThrough req.body = .ok through)
    (run : m.recordReply now req.receiver through reply = .ok (m', more)) :
    ∃ H' r, Extends v H H' ∧ H'.Sound c.members ∧ m.Becomes r m' (H'.log v) ∧
      H'.Seat c.members v r ∧ H'.reign = H.reign := by
  obtain ⟨hl, -⟩ := h.up v m up
  obtain rfl | ⟨term, success, r, advanced, accepted, hkind, hr, run⟩ :=
    Member.recordReply_cases run
  · exact ⟨H, _, .refl v H, h.sound, hl.steady.becomes, hl.seat, rfl⟩
  rcases Replica.recordAppend_spec hr with ⟨-, rfl, rfl⟩ | ⟨rfl, rfl⟩ | ⟨hrole, hterm, hcases⟩
  · have hsame := Replica.sameLog_follow m.replica term
    have hb := hl.steady.recorded hsame.advances
      (Nat.le_trans (Nat.le_of_eq hsame.commit) hl.steady.bounded) (fun _ => hsame.commit) run
    exact ⟨_, _, extends_raise .., h.sound.raise .., hb, hl.seat.raised
      (Replica.term_follow m.replica term ▸ Nat.le_max_left _ _) hsame.commit (.of_follower rfl),
      rfl⟩
  · have hb := hl.steady.recorded (Replica.SameLog.refl _).advances hl.steady.bounded
      (fun _ => rfl) run
    exact ⟨H, _, .refl v H, h.sound, hb, hl.seat, rfl⟩
  · obtain ⟨H', hgoverns, hlog, hreign, hadvances, hidle, hstance⟩ := (h.office up).books h.sound
      hrole (h.covered up replied here hthrough hkind hrole hterm) hcases
    have hb := hl.steady.recorded hadvances hgoverns.bounded hidle run
    have hterm : r.term = H.term v :=
      (congrArg Ballot.term (Replica.stance_eq_iff.1 hstance).2.2.2.1).trans hl.seat.term
    obtain ⟨H₂, hx, hs, hseat, hlog₂, hreign₂⟩ :=
      Governs.seat (hlog.symm ▸ hgoverns) hterm (hl.seat.commit ▸ hadvances.commit)
    exact ⟨H₂, r, hx, hs, (hlog₂.trans hlog).symm ▸ hb, hseat, hreign₂.trans hreign⟩

theorem recordReply (h : H.Records c P w) (up : w.sites v = .up m) {req : Request}
    {reply : Message} {through : Nat} {now : Instant} {more : Bool}
    (replied : (req, reply) ∈ w.replies) (here : req.sender = v)
    (hthrough : Member.sentThrough req.body = .ok through)
    (run : m.recordReply now req.receiver through reply = .ok (m', more))
    (he : Elections c P' (w.after v { member := m' })) (hmono : ∀ u b, P u b → P' u b) :
    ∃ H', Extends v H H' ∧ H'.Records c P' (w.after v { member := m' }) := by
  obtain ⟨H', r, hx, hs, hb, hseat, hreign⟩ := h.recorded up replied here hthrough run
  exact ⟨H', hx, h.becomes up he hmono hx hs hb hseat rfl nofun nofun hreign⟩

theorem recordBeat (h : H.Records c P w) (up : w.sites v = .up m) {req : Request}
    {reply : Message} {through : Nat} {now : Instant}
    (replied : (req, reply) ∈ w.replies) (here : req.sender = v)
    (hthrough : Member.sentThrough req.body = .ok through)
    (run : m.recordBeat now req.receiver through reply = .ok m')
    (he : Elections c P' (w.after v { member := m' })) (hmono : ∀ u b, P u b → P' u b) :
    ∃ H', Extends v H H' ∧ H'.Records c P' (w.after v { member := m' }) := by
  obtain ⟨m₁, more, run, hbegins⟩ := Member.recordBeat_cases run
  obtain ⟨H', r, hx, hs, hb, hseat, hreign⟩ := h.recorded up replied here hthrough run
  exact ⟨H', hx, h.becomes up he hmono hx hs (hb.quiet hbegins.quiet) hseat rfl nofun nofun hreign⟩

/-! ## Requests of a leader -/

theorem fetch (h : H.Records c P w) (up : w.sites v = .up m) {peer : NodeId} {target : Nat}
    {body : Message} (run : m.nextRequest peer target = .ok (.ok (some body)))
    (he : Elections c P' (w.after v { member := m, requests := [⟨v, peer, body⟩] }))
    (hmono : ∀ u b, P u b → P' u b) :
    ∃ H', Extends v H H' ∧
      H'.Records c P' (w.after v { member := m, requests := [⟨v, peer, body⟩] }) := by
  obtain ⟨hl, -⟩ := h.up v m up
  refine h.still up he hmono hl.steady.becomes rfl (fun req hreq => ?_) nofun
  obtain rfl := List.mem_singleton.1 hreq
  obtain ⟨htold, -, hships⟩ := (h.office up).told_next run
  exact ⟨htold, fun q hq => hl.seat.commit ▸ hships q hq⟩

theorem beat (h : H.Records c P w) (up : w.sites v = .up m)
    {beats : List (NodeId × AppendRequest)} (run : m.heartbeats = (m', beats))
    (he : Elections c P' (w.after v
      { member := m', requests := beats.map fun b => ⟨v, b.1, .appendRequest b.2⟩ }))
    (hmono : ∀ u b, P u b → P' u b) :
    ∃ H', Extends v H H' ∧ H'.Records c P' (w.after v
      { member := m', requests := beats.map fun b => ⟨v, b.1, .appendRequest b.2⟩ }) := by
  obtain ⟨hl, -⟩ := h.up v m up
  obtain ⟨rfl, rfl⟩ := Prod.mk.inj run
  refine h.still up he hmono (hl.steady.becomes.quiet (Member.quiet_heartbeats m)) rfl
    (fun req hreq => ?_) nofun
  obtain ⟨htold, -, hnot⟩ := (h.office up).told_heartbeats hreq
  exact ⟨htold, fun q hq => absurd hq (hnot q)⟩

/-! ## Proposals -/

/-- A leader has a new entry, which it may commit at once. -/
theorem appended (h : H.Records c P w) (up : w.sites v = .up m) (hrole : m.replica.role = .leader)
    {e : Entry} (ht : e.term = m.replica.term) (hi : e.index = (H.log v).length + 1)
    {advanced : Bool}
    (hadv : Replica.advanceCommit { m.replica with log := m.replica.log ++ [e] } =
      .ok (r, advanced)) :
    ∃ H' R, Extends v H H' ∧ H'.Sound c.members ∧ H'.Seat c.members v r ∧
      H'.log v = H.log v ++ [e] ∧ H'.reign m.replica.term = some R ∧ R.log = H.log v ++ [e] ∧
      ∀ t R, H'.reign t = some R →
        ∃ R₀, H.reign t = some R₀ ∧ ∀ e' ∈ R.log, e' ∈ R₀.log ∨ e' = e := by
  obtain ⟨hl, -⟩ := h.up v m up
  obtain ⟨H', hgoverns, hlog, hcrowned⟩ := (h.office up).appends h.sound hrole ht hi hadv
  have hstance := Replica.stance_eq_iff.1 (Replica.stance_advanceCommit hadv)
  have hterm : r.term = m.replica.term := congrArg Ballot.term hstance.2.2.2.1
  obtain ⟨-, R, hR, -, hlogR, -⟩ := hgoverns.post.leads (hstance.2.2.1.trans hrole)
  obtain ⟨H₂, hx, hs, hseat, hlog₂, hreign⟩ :=
    Governs.seat (hlog.symm ▸ hgoverns) (hterm.trans hl.seat.term)
      (hl.seat.commit ▸ (Member.advances_advanceCommit hadv).1.commit)
  refine ⟨H₂, R, hx, hs, hseat, hlog₂.trans hlog, ?_, hlogR.trans hlog, fun t R hR => ?_⟩
  · rw [hreign, ← hterm]
    exact hR
  rw [hreign] at hR
  obtain ⟨R₀, hR₀, rfl | ⟨hlog₀, hlogR⟩⟩ := hcrowned t R hR
  · exact ⟨R, hR₀, fun e' => .inl⟩
  · refine ⟨R₀, hR₀, fun e' he' => ?_⟩
    rw [hlogR, ← hlog₀] at he'
    exact (List.mem_append.1 he').imp_right List.mem_singleton.1

theorem propose (h : H.Records c P w) (up : w.sites v = .up m) {command : Command}
    {ticket : Nat} {now : Instant} {result : Except ServiceError Nat}
    (admitted : c.admits command) (fresh : w.calls ticket = none)
    (run : m.propose now command ticket = .ok (m', result))
    (he : Elections c P' (w.after v
      { member := m', call := some (ticket, ClientCall.opened m command result) }))
    (hmono : ∀ u b, P u b → P' u b) :
    ∃ H', Extends v H H' ∧ H'.Records c P' (w.after v
      { member := m', call := some (ticket, ClientCall.opened m command result) }) := by
  obtain ⟨hl, hout⟩ := h.up v m up
  have hid := (h.office up).seated.id
  have hbound : m.replica.role = .leader → ∀ r advanced, Replica.advanceCommit { m.replica with
      log := m.replica.log ++ [⟨m.replica.term, (H.log v).length + 1, command⟩] } =
        .ok (r, advanced) → r.commitIndex ≤ (H.log v).length + 1 := by
    intro hrole r advanced hadv
    obtain ⟨H', hgoverns, -⟩ := (h.office up).appends h.sound hrole rfl rfl hadv
    have hle := hgoverns.bounded
    rwa [List.length_append] at hle
  have hkept : Kept w.calls (World.withCall w.calls
      (some (ticket, ClientCall.opened m command result))) := .withCall fresh _
  rcases hl.steady.propose (fun hrole => (hl.seat.post.active (by rw [hrole]; exact nofun)).2)
      hbound run with ⟨rfl, err, rfl⟩ | ⟨hrole, rfl, r, advanced, hadv, hb⟩
  · refine ⟨H, .refl v H, h.after m'.pending he hmono (.refl v H) h.sound hl nofun nofun
      (fun _ _ hR hR' => nomatch hR'.symm.trans hR) h.admitted (h.clients.withCall rfl nofun) hkept
      (fun i x hi => (h.waits v m' i x up hi).kept hkept) (fun _ _ hi => hi) ?_⟩
    intro e he
    rw [hout] at he
    cases he
  · obtain ⟨H', R, hx, hs, hseat, hlog, hR, hlogR, hcrowned⟩ :=
      h.appended up hrole rfl rfl hadv
    rw [← hlog] at hb
    refine ⟨H', hx, h.after _ he hmono hx hs (.of_becomes hb hseat) nofun nofun
      (fun t R hR hR' => ?_) (fun t R hR e he => ?_) ?_ hkept ?_ hb.credits.pending ?_⟩
    · obtain ⟨R₀, hR₀, -⟩ := hcrowned t R hR
      cases hR'.symm.trans hR₀
    · obtain ⟨R₀, hR₀, hall⟩ := hcrowned t R hR
      rcases hall e he with he | rfl
      · exact h.admitted t R₀ hR₀ e he
      · exact admitted
    · refine (h.clients.extend hx).withCall rfl fun e he => ?_
      cases he
      refine ⟨⟨rfl, R, (H.log v).length, hR, rfl, ?_⟩, fun ticket' call' hcall => ?_⟩
      · rw [hlogR, List.getElem?_concat_length]
      · obtain ⟨-, S, hS, -, hlogS, -⟩ := hl.seat.post.leads hrole
        exact h.clients.unclaimed hS (by rw [hlogS]; exact Nat.lt_succ_self _) hcall
    · exact Waits.insert (fun i x hi => (h.waits v m i x up hi).kept hkept)
        ⟨_, _, Function.update_self .., hid, rfl, rfl, rfl⟩
    · intro e he
      rw [← (Lives.of_becomes hb hseat).seat.commit]
      rcases hb.credits.outbox e he with he | he
      · rw [hout] at he
        cases he
      · exact he

/-! ## One step -/

theorem act (h : H.Records c P w) (up : w.sites v = .up m) (act : Act c w v m d)
    (he : Elections c P' (w.after v d)) (hmono : ∀ u b, P u b → P' u b) :
    ∃ H', Extends v H H' ∧ H'.Records c P' (w.after v d) := by
  obtain ⟨hl, -⟩ := h.up v m up
  have hkept := hl.steady.becomes
  cases act with
  | shutDown => exact h.still up he hmono (hkept.quiet (Member.quiet_shutDown m)) rfl nofun nofun
  | timeout run => exact h.timeout up run he hmono
  | answerVote sent here body run => exact h.answerVote up sent here body run he hmono
  | answerAppend sent here body run => exact h.answerAppend up sent here body run he hmono
  | answerInstall sent here body run => exact h.answerInstall up sent body run he hmono
  | countVote replied here body run => exact h.countVote up replied here body run he hmono
  | recordReply replied here covered run =>
    exact h.recordReply up replied here covered run he hmono
  | recordBeat replied here covered run => exact h.recordBeat up replied here covered run he hmono
  | propose admitted fresh run => exact h.propose up admitted fresh run he hmono
  | fetch known run => exact h.fetch up run he hmono
  | beat run => exact h.beat up run he hmono
  | @caughtUp peer =>
    exact h.still up he hmono (hkept.quiet (Member.quiet_caughtUp m peer)) rfl nofun nofun
  | @giveUp index =>
    exact h.still up he hmono (hkept.quiet (Member.quiet_dropWaiter m index)) rfl nofun nofun
  | compact run => exact h.still up he hmono (hl.steady.takeImage run) rfl nofun nofun

/-- A node is down, and its disk keeps its history. -/
theorem resting (h : H.Records c P w) {disk : MemoryDisk} (he : Elections c P' (w.resting v disk))
    (hmono : ∀ u b, P u b → P' u b) (hd : H.Rests v disk) :
    H.Records c P' (w.resting v disk) where
  elections := he
  sound := h.sound
  up u m up := h.up u m (World.up_resting up).2
  down u disk' down := by
    obtain ⟨rfl, rfl⟩ | ⟨-, down⟩ := World.down_resting down
    · exact hd
    · exact h.down u disk' down
  told := h.told
  answered := h.answered
  crowned t R hR := by
    obtain ⟨Q, hQ, hmaj⟩ := h.crowned t R hR
    exact ⟨Q, hQ.mono hmono, hmaj⟩
  admitted := h.admitted
  waits u m i x up hi := h.waits u m i x (World.up_resting up).2 hi
  clients := h.clients

end Records

end Chronicle

end ReplicatedStore
