import ReplicatedStore.Proofs.Quorums
import ReplicatedStore.Proofs.ReplicaLogs
/-!
# The chronicle of a run

What an observer of a whole run would write down: who led in each term and with which log, where
each node stands now, and which prefixes of a leader's log it has acknowledged. `Sound` is what a
run keeps true of it.

* `Rooted`: every entry of a history came, with all before it, from the log of the leader of its
  term. Two rooted histories agree below any entry they share (`Rooted.take_eq`).
* `Chosen`: a prefix that a majority acknowledged to its leader, with an entry of the leader's own
  term at its end. Every later leader starts with it (`Sound.leader_completeness`).
* `Fixed`: a part of a chosen prefix. Any two of them, one extends the other
  (`Sound.fixed_comparable`).

Leader completeness is a fact about a single chronicle, by induction on the later term: one of the
later leader's voters had acknowledged the prefix, what it held when it voted is in the evidence
`Carries` of its vote, and the leader's log was at least as complete.
-/
namespace ReplicatedStore

open History

/-- The time of one leader. -/
structure Reign where
  leader : NodeId
  /-- The leader's log when it was elected. -/
  base : History
  /-- The leader's log with all it added. -/
  log : History
  voters : List NodeId

/-- What an observer knows of a run so far. -/
structure Chronicle where
  /-- Who led in a term. -/
  reign : Nat → Option Reign
  /-- The log with which a node stood for a term. -/
  stood : NodeId → Nat → Option History
  log : NodeId → History
  term : NodeId → Nat
  commit : NodeId → Nat
  /-- The node acknowledged so many entries of the leader's log in a term. -/
  acked : NodeId → Nat → Nat → Prop

namespace Chronicle

variable {H : Chronicle} {members : List NodeId}

/-- Every entry came, with all before it, from the log of the leader of its term. -/
def Rooted (H : Chronicle) (x : History) : Prop :=
  ∀ (k : Nat) (e : Entry), x[k]? = some e → ∃ R, H.reign e.term = some R ∧ x.take (k + 1) <+: R.log

/-- The history holds whatever the node acknowledged in earlier terms and every leader in between
had from the start. -/
def Carries (H : Chronicle) (u : NodeId) (t : Nat) (y : History) : Prop :=
  ∀ s k, H.acked u s k → s < t → ∀ p S, H.reign s = some S → p <+: S.log → p.length ≤ k →
    (∀ s' S', s < s' → s' < t → H.reign s' = some S' → p <+: S'.base) → p <+: y

/-- The node may have voted in a term for a candidate with this log. -/
def Vouched (H : Chronicle) (u : NodeId) (t : Nat) (z : History) : Prop :=
  t ≤ H.term u ∧ ∃ y, H.Rooted y ∧ Behind y z ∧ H.Carries u t y

/-- A majority acknowledged the prefix to the leader, and it ends in the leader's own entries. -/
def Chosen (H : Chronicle) (members : List NodeId) (t : Nat) (q : History) : Prop :=
  ∃ R, H.reign t = some R ∧ q <+: R.log ∧ R.base.length < q.length ∧
    ∃ Q, Majority members Q ∧ ∀ u ∈ Q, ∃ k, H.acked u t k ∧ q.length ≤ k

/-- The history is part of what was chosen up to a term. -/
def Fixed (H : Chronicle) (members : List NodeId) (t : Nat) (p : History) : Prop :=
  p = [] ∨ ∃ s q, s ≤ t ∧ H.Chosen members s q ∧ p <+: q

/-- What holds of the reign of a term. -/
structure Lawful (H : Chronicle) (members : List NodeId) (t : Nat) (R : Reign) : Prop where
  grown : R.base <+: R.log
  rooted : H.Rooted R.log
  sane : Sane R.log
  /-- The leader starts with entries of earlier terms and adds entries of its own. -/
  before : ∀ (k : Nat) (e : Entry), R.log[k]? = some e → k < R.base.length → e.term < t
  own : ∀ (k : Nat) (e : Entry), R.log[k]? = some e → R.base.length ≤ k → e.term = t
  reached : t ≤ H.term R.leader
  elected : Majority members R.voters
  vouched : ∀ u ∈ R.voters, H.Vouched u t R.base

/-- What holds of what a node has. -/
structure Upright (H : Chronicle) (members : List NodeId) (u : NodeId) : Prop where
  rooted : H.Rooted (H.log u)
  sane : Sane (H.log u)
  current : ∀ e ∈ H.log u, e.term ≤ H.term u
  stood : ∀ t z, H.stood u t = some z → t ≤ H.term u
  acked : ∀ t k, H.acked u t k → t ≤ H.term u ∧ ∃ R, H.reign t = some R ∧ k ≤ R.log.length
  kept : H.Carries u (H.term u + 1) (H.log u)
  bounded : H.commit u ≤ (H.log u).length
  fixed : H.Fixed members (H.term u) ((H.log u).take (H.commit u))

/-- What a run keeps true. -/
structure Sound (H : Chronicle) (members : List NodeId) : Prop where
  lawful : ∀ t R, H.reign t = some R → H.Lawful members t R
  upright : ∀ u, H.Upright members u

/-! ## Rooted histories -/

theorem Rooted.nil (H : Chronicle) : H.Rooted [] := fun k e h => by simp at h

theorem Rooted.of_isPrefix {p x : History} (h : H.Rooted x) (hp : p <+: x) : H.Rooted p := by
  intro k e hk
  have hlt : k < p.length := (List.getElem?_eq_some_iff.1 hk).1
  obtain ⟨R, hR, hpre⟩ := h k e (getElem?_mono hp hk)
  exact ⟨R, hR, by rwa [take_of_isPrefix hp hlt]⟩

/-- Every entry is a leader's. -/
theorem Rooted.exists_mem {x : History} (h : H.Rooted x) {e : Entry} (he : e ∈ x) :
    ∃ R, H.reign e.term = some R ∧ e ∈ R.log := by
  obtain ⟨k, hk⟩ := List.getElem?_of_mem he
  obtain ⟨R, hR, hp⟩ := h k e hk
  refine ⟨R, hR, hp.mem (List.mem_of_getElem? (i := k) ?_)⟩
  rw [List.getElem?_take_of_lt (Nat.lt_succ_self k), hk]

theorem Rooted.adopt {x p : History} (hx : H.Rooted x) (hp : H.Rooted p) :
    H.Rooted (adopt x p) := by
  rcases adopt_eq_or x p with ⟨-, h⟩ | ⟨-, h⟩ <;> rw [h] <;> assumption

/-- Two rooted histories agree up to a position where both have an entry of the same term. -/
theorem Rooted.take_eq {x y : History} (hx : H.Rooted x) (hy : H.Rooted y) {k : Nat}
    {e e' : Entry} (he : x[k]? = some e) (he' : y[k]? = some e') (ht : e.term = e'.term) :
    x.take (k + 1) = y.take (k + 1) := by
  obtain ⟨R, hR, hpx⟩ := hx k e he
  obtain ⟨R', hR', hpy⟩ := hy k e' he'
  obtain rfl : R = R' := by
    rw [ht, hR'] at hR
    exact (Option.some.inj hR).symm
  have hlx : (x.take (k + 1)).length = k + 1 :=
    List.length_take_of_le (List.getElem?_eq_some_iff.1 he).1
  have hly : (y.take (k + 1)).length = k + 1 :=
    List.length_take_of_le (List.getElem?_eq_some_iff.1 he').1
  exact (List.prefix_of_prefix_length_le hpx hpy (by omega)).eq_of_length (by omega)

theorem Rooted.matching {x y : History} (hx : H.Rooted x) (hy : H.Rooted y) :
    Replica.Matching x y := by
  intro k hkx hky ht
  have he := List.getElem?_eq_getElem hkx
  have he' := List.getElem?_eq_getElem hky
  rw [termAt_of_getElem? he, termAt_of_getElem? he'] at ht
  exact hx.take_eq hy he he' ht

/-- A rooted history that is not empty is part of the log of the leader of its last term. -/
theorem Rooted.exists_reign {x : History} (hx : H.Rooted x) (h0 : x ≠ []) :
    ∃ e R, x[x.length - 1]? = some e ∧ x.lastTerm = e.term ∧ H.reign e.term = some R ∧
      x <+: R.log := by
  obtain ⟨e, he, hlast⟩ := exists_last h0
  obtain ⟨R, hR, hpre⟩ := hx _ e he
  have hlen : 0 < x.length := List.length_pos_iff.2 h0
  rw [Nat.sub_add_cancel hlen, List.take_length] at hpre
  exact ⟨e, R, he, hlast, hR, hpre⟩

theorem Carries.trans_isPrefix {u : NodeId} {t : Nat} {y z : History} (h : H.Carries u t y)
    (hz : y <+: z) : H.Carries u t z :=
  fun s k hk hs p S hS hp hle hmid => (h s k hk hs p S hS hp hle hmid).trans hz

theorem Lawful.term_le {t : Nat} {R : Reign} (h : H.Lawful members t R) {k : Nat} {e : Entry}
    (he : R.log[k]? = some e) : e.term ≤ t := by
  rcases Nat.lt_or_ge k R.base.length with hlt | hge
  · exact Nat.le_of_lt (h.before k e he hlt)
  · exact Nat.le_of_eq (h.own k e he hge)

/-- The terms of a rooted history do not decrease. -/
theorem Sound.term_mono (h : H.Sound members) {x : History} (hx : H.Rooted x) {j k : Nat}
    {e e' : Entry} (hj : x[j]? = some e) (hk : x[k]? = some e') (hle : j ≤ k) :
    e.term ≤ e'.term := by
  obtain ⟨R, hR, hp⟩ := hx k e' hk
  refine (h.lawful _ R hR).term_le (getElem?_mono hp (k := j) ?_)
  rw [List.getElem?_take_of_lt (by omega), hj]

/-! ## Leader completeness -/

/-- A history that ends in an entry of the leader's term has all that the leader started with. -/
theorem Lawful.base_le {t : Nat} {R : Reign} (h : H.Lawful members t R) {x : History} {e : Entry}
    (hx : x <+: R.log) (he : x[x.length - 1]? = some e) (ht : e.term = t) :
    R.base.length < x.length := by
  have hlt := (List.getElem?_eq_some_iff.1 he).1
  have he' := getElem?_mono hx he
  rcases Nat.lt_or_ge (x.length - 1) R.base.length with hb | hb
  · have := h.before _ e he' hb
    omega
  · omega

/-- A voter that held a chosen prefix does not vote for a log without it, if the leaders in between
have it. -/
theorem Sound.prefix_of_behind (h : H.Sound members) {t t' : Nat} {q y z : History}
    (hq : H.Chosen members t q) (hy : H.Rooted y) (hqy : q <+: y) (hz : H.Rooted z)
    (hzt : ∀ (k : Nat) (e : Entry), z[k]? = some e → e.term < t') (hbehind : Behind y z)
    (hmid : ∀ s S, t < s → s < t' → H.reign s = some S → q <+: S.base) : q <+: z := by
  obtain ⟨R, hR, hqR, hlt, -⟩ := hq
  have hq0 : q ≠ [] := by
    rintro rfl
    exact Nat.not_lt_zero _ hlt
  have hy0 : y ≠ [] := by
    rintro rfl
    exact hq0 (List.prefix_nil.1 hqy)
  obtain ⟨e, S, he, hlast, hS, hyS⟩ := hy.exists_reign hy0
  -- the last entry of `q` is of term `t`, so that of `y` is not of an earlier one
  have hte : t ≤ e.term := by
    obtain ⟨e', he', -⟩ := exists_last hq0
    have hlen := List.length_pos_iff.2 hq0
    have hown := (h.lawful t R hR).own (q.length - 1) e'
      (getElem?_mono hqR he') (by omega)
    rw [← hown]
    exact (h.lawful _ S hS).term_le (getElem?_mono (hqy.trans hyS) he')
  rcases hbehind with hlt' | ⟨heq, hle⟩
  · have hz0 : z ≠ [] := by
      rintro rfl
      exact Nat.not_lt_zero _ hlt'
    obtain ⟨f, S', hf, hlast', hS', hzS'⟩ := hz.exists_reign hz0
    have hqS' : q <+: S'.base := hmid _ S' (by omega) (hzt _ f hf) hS'
    have hlen := (h.lawful _ S' hS').base_le hzS' hf rfl
    have hle := hqS'.length_le
    exact List.prefix_of_prefix_length_le (hqS'.trans (h.lawful _ S' hS').grown) hzS' (by omega)
  · have hz0 : z ≠ [] := by
      rintro rfl
      exact hy0 (List.length_eq_zero_iff.1 (Nat.le_zero.1 hle))
    obtain ⟨f, S', hf, hlast', hS', hzS'⟩ := hz.exists_reign hz0
    obtain rfl : S = S' := by
      rw [← hlast', ← heq, hlast, hS] at hS'
      exact Option.some.inj hS'
    exact hqy.trans (List.prefix_of_prefix_length_le hyS hzS' hle)

/-- **Leader completeness.** What was chosen in a term is in the log of every later leader from the
start. -/
theorem Sound.leader_completeness (h : H.Sound members) {t : Nat} {q : History}
    (hq : H.Chosen members t q) {t' : Nat} {R' : Reign} (ht : t < t')
    (hR' : H.reign t' = some R') : q <+: R'.base := by
  induction t' using Nat.strongRecOn generalizing R' with
  | ind t' ih =>
    have hlaw := h.lawful t' R' hR'
    have hmid : ∀ s S, t < s → s < t' → H.reign s = some S → q <+: S.base :=
      fun s S hs hs' hS => ih s hs' hs hS
    obtain ⟨R, hR, hqR, -, Q, hQ, hack⟩ := id hq
    obtain ⟨u, hu, hu'⟩ := hQ.meet hlaw.elected
    obtain ⟨k, hk, hle⟩ := hack u hu
    obtain ⟨-, y, hy, hbehind, hcarries⟩ := hlaw.vouched u hu'
    have hqy : q <+: y := hcarries t k hk ht q R hR hqR hle hmid
    refine h.prefix_of_behind hq hy hqy (hlaw.rooted.of_isPrefix hlaw.grown) ?_ hbehind hmid
    exact fun k e he =>
      hlaw.before k e (getElem?_mono hlaw.grown he) (List.getElem?_eq_some_iff.1 he).1

/-! ## Fixed prefixes -/

theorem Fixed.mono {t t' : Nat} {p : History} (h : H.Fixed members t p) (ht : t ≤ t') :
    H.Fixed members t' p := by
  obtain rfl | ⟨s, q, hs, hq, hp⟩ := h
  · exact .inl rfl
  · exact .inr ⟨s, q, Nat.le_trans hs ht, hq, hp⟩

theorem Fixed.of_isPrefix {t : Nat} {p p' : History} (h : H.Fixed members t p) (hp : p' <+: p) :
    H.Fixed members t p' := by
  obtain rfl | ⟨s, q, hs, hq, hpq⟩ := h
  · exact .inl (List.prefix_nil.1 hp)
  · exact .inr ⟨s, q, hs, hq, hp.trans hpq⟩

/-- A leader has what was fixed up to its term. -/
theorem Sound.fixed_reign (h : H.Sound members) {t t' : Nat} {p : History}
    (hp : H.Fixed members t p) (ht : t ≤ t') {R : Reign} (hR : H.reign t' = some R) :
    p <+: R.log := by
  obtain rfl | ⟨s, q, hs, hq, hpq⟩ := hp
  · exact List.nil_prefix
  · rcases Nat.lt_or_ge s t' with hlt | hge
    · exact hpq.trans ((h.leader_completeness hq hlt hR).trans (h.lawful t' R hR).grown)
    · obtain rfl : s = t' := by omega
      obtain ⟨R', hR', hqR, -⟩ := hq
      obtain rfl : R' = R := Option.some.inj (hR'.symm.trans hR)
      exact hpq.trans hqR

/-- Of two fixed prefixes one extends the other. -/
theorem Sound.fixed_comparable (h : H.Sound members) {t t' : Nat} {p p' : History}
    (hp : H.Fixed members t p) (hp' : H.Fixed members t' p') : p <+: p' ∨ p' <+: p := by
  -- the leader of the later of the two terms has both
  have key : ∀ {s s' q q'}, s ≤ s' → H.Chosen members s q → H.Chosen members s' q' →
      q <+: q' ∨ q' <+: q := by
    intro s s' q q' hs hq hq'
    obtain ⟨R, hR, hqR, -⟩ := id hq'
    have hqR' := h.fixed_reign (.inr ⟨s, q, Nat.le_refl _, hq, List.prefix_rfl⟩) hs hR
    exact List.prefix_or_prefix_of_prefix hqR' hqR
  obtain rfl | ⟨s, q, -, hq, hpq⟩ := hp
  · exact .inl List.nil_prefix
  obtain rfl | ⟨s', q', -, hq', hpq'⟩ := hp'
  · exact .inr List.nil_prefix
  have hcomp : q <+: q' ∨ q' <+: q := by
    rcases Nat.le_total s s' with hs | hs
    · exact key hs hq hq'
    · exact (key hs hq' hq).symm
  rcases hcomp with hqq | hqq
  · exact List.prefix_or_prefix_of_prefix (hpq.trans hqq) hpq'
  · exact List.prefix_or_prefix_of_prefix hpq (hpq'.trans hqq)

theorem Sound.sane_of_fixed (h : H.Sound members) {t : Nat} {p : History}
    (hp : H.Fixed members t p) : Sane p := by
  obtain rfl | ⟨s, q, -, ⟨R, hR, hqR, -⟩, hpq⟩ := hp
  · exact .nil
  · exact (h.lawful s R hR).sane.of_isPrefix (hpq.trans hqR)

/-- One of a fixed prefix and those of some nodes has all of them. -/
theorem Sound.exists_longest (h : H.Sound members) {t : Nat} {p : History}
    (hp : H.Fixed members t p) {s : NodeId → Nat} {q : NodeId → History}
    (hq : ∀ u, H.Fixed members (s u) (q u)) (nodes : List NodeId) :
    ∃ t' x, H.Fixed members t' x ∧ p <+: x ∧ (∀ u ∈ nodes, q u <+: x) ∧
      (x = p ∨ ∃ u ∈ nodes, x = q u) := by
  induction nodes with
  | nil => exact ⟨t, p, hp, List.prefix_rfl, nofun, .inl rfl⟩
  | cons u nodes ih =>
    obtain ⟨t', x, hx, hpx, hall, hfrom⟩ := ih
    rcases h.fixed_comparable (hq u) hx with hle | hge
    · refine ⟨t', x, hx, hpx, fun u' hu' => ?_, hfrom.imp_right fun ⟨u', hu', heq⟩ =>
        ⟨u', List.mem_cons_of_mem _ hu', heq⟩⟩
      rcases List.mem_cons.1 hu' with rfl | hu'
      · exact hle
      · exact hall u' hu'
    · refine ⟨_, _, hq u, hpx.trans hge, fun u' hu' => ?_, .inr ⟨u, .head _, rfl⟩⟩
      rcases List.mem_cons.1 hu' with rfl | hu'
      · exact List.prefix_rfl
      · exact (hall u' hu').trans hge

/-- What a node has committed is in the log of the leader whose term it is in. -/
theorem Sound.committed_reign (h : H.Sound members) {u : NodeId} {t : Nat} {R : Reign}
    (ht : H.term u ≤ t) (hR : H.reign t = some R) : (H.log u).take (H.commit u) <+: R.log :=
  h.fixed_reign (h.upright u).fixed ht hR

end Chronicle

end ReplicatedStore
