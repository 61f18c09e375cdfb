import Mathlib.Logic.Function.Basic
import ReplicatedStore.Proofs.Chronicle
/-!
# How a chronicle grows

One node acts at a time. `Extends a H H'` says what a step of node `a` leaves as it was and which
way it moves the rest; whatever was once written in a message or promised in a vote is kept by it.
`Sound.extend` reduces the soundness of the larger chronicle to what node `a` itself now has.

The steps are `raise` (a later term), `stand` (a candidacy), `crown` (a new leader), `append` (a
leader's new entry), `accept` (a leader's prefix is merged and acknowledged), and `commitTo`. A node
that accepts a prefix keeps what it acknowledged before and what it has committed, because both are
in the leader's log.
-/
namespace ReplicatedStore

open History

namespace Chronicle

variable {H H' H'' : Chronicle} {members : List NodeId} {a : NodeId}

/-- Nothing has happened. -/
def initial : Chronicle where
  reign _ := none
  stood _ _ := none
  log _ := []
  term _ := 0
  commit _ := 0
  acked _ _ _ := False

theorem Sound.initial (members : List NodeId) : Chronicle.initial.Sound members where
  lawful _ _ h := nomatch h
  upright u := by
    refine ⟨.nil _, .nil, nofun, nofun, nofun, nofun, Nat.le_refl _, .inl rfl⟩

/-- What a step of one node leaves as it was, and which way it moves the rest. -/
structure Extends (a : NodeId) (H H' : Chronicle) : Prop where
  reign : ∀ t R, H.reign t = some R → ∃ R', H'.reign t = some R' ∧ R'.leader = R.leader ∧
    R'.base = R.base ∧ R.log <+: R'.log ∧ (R.leader ≠ a → R' = R)
  crowned : ∀ t R', H'.reign t = some R' → (∃ R, H.reign t = some R) ∨ R'.leader = a
  stood : ∀ u t z, H.stood u t = some z → H'.stood u t = some z
  acked : ∀ u t k, H.acked u t k → H'.acked u t k
  fresh : ∀ u t k, H'.acked u t k → H.acked u t k ∨ u = a ∧ H.term u ≤ t
  term : ∀ u, H.term u ≤ H'.term u
  commit : ∀ u, H.commit u ≤ H'.commit u
  others : ∀ u, u ≠ a → H'.log u = H.log u ∧ H'.term u = H.term u ∧ H'.commit u = H.commit u ∧
    H'.stood u = H.stood u

namespace Extends

theorem refl (a : NodeId) (H : Chronicle) : Extends a H H where
  reign _ R h := ⟨R, h, rfl, rfl, List.prefix_rfl, fun _ => rfl⟩
  crowned _ R h := .inl ⟨R, h⟩
  stood _ _ _ h := h
  acked _ _ _ h := h
  fresh _ _ _ h := .inl h
  term _ := Nat.le_refl _
  commit _ := Nat.le_refl _
  others _ _ := ⟨rfl, rfl, rfl, rfl⟩

theorem trans (h : Extends a H H') (h' : Extends a H' H'') : Extends a H H'' where
  reign t R hR := by
    obtain ⟨R', hR', hl, hb, hp, hs⟩ := h.reign t R hR
    obtain ⟨R'', hR'', hl', hb', hp', hs'⟩ := h'.reign t R' hR'
    refine ⟨R'', hR'', hl'.trans hl, hb'.trans hb, hp.trans hp', fun hne => ?_⟩
    rw [hs' (hl ▸ hne), hs hne]
  crowned t R'' hR'' := by
    rcases h'.crowned t R'' hR'' with ⟨R', hR'⟩ | hl
    · rcases h.crowned t R' hR' with hR | hl
      · exact .inl hR
      · obtain ⟨R₂, hR₂, hl₂, -⟩ := h'.reign t R' hR'
        obtain rfl : R₂ = R'' := Option.some.inj (hR₂.symm.trans hR'')
        exact .inr (hl₂.trans hl)
    · exact .inr hl
  stood u t z hz := h'.stood u t z (h.stood u t z hz)
  acked u t k hk := h'.acked u t k (h.acked u t k hk)
  fresh u t k hk := by
    rcases h'.fresh u t k hk with hk | ⟨hu, hle⟩
    · exact h.fresh u t k hk
    · exact .inr ⟨hu, Nat.le_trans (h.term u) hle⟩
  term u := Nat.le_trans (h.term u) (h'.term u)
  commit u := Nat.le_trans (h.commit u) (h'.commit u)
  others u hu := by
    obtain ⟨hl, ht, hc, hs⟩ := h.others u hu
    obtain ⟨hl', ht', hc', hs'⟩ := h'.others u hu
    exact ⟨hl'.trans hl, ht'.trans ht, hc'.trans hc, hs'.trans hs⟩

end Extends

/-! ## What is kept -/

theorem Rooted.extend (hx : Extends a H H') {x : History} (h : H.Rooted x) : H'.Rooted x := by
  intro k e he
  obtain ⟨R, hR, hp⟩ := h k e he
  obtain ⟨R', hR', -, -, hp', -⟩ := hx.reign _ R hR
  exact ⟨R', hR', hp.trans hp'⟩

/-- What was not acknowledged anew is carried as before. -/
theorem Carries.extend_of (h : H.Sound members) (hx : Extends a H H') {u : NodeId} {t : Nat}
    {y : History} (hold : ∀ s k, s < t → H'.acked u s k → H.acked u s k)
    (hc : H.Carries u t y) : H'.Carries u t y := by
  intro s k hk hs p S' hS' hp hle hmid
  have hk' := hold s k hs hk
  obtain ⟨-, S, hS, hlen⟩ := (h.upright u).acked s k hk'
  obtain ⟨S₂, hS₂, -, -, hpre, -⟩ := hx.reign s S hS
  obtain rfl : S₂ = S' := Option.some.inj (hS₂.symm.trans hS')
  refine hc s k hk' hs p S hS (List.prefix_of_prefix_length_le hp hpre (by omega)) hle ?_
  intro s' R hs' hs'' hR
  obtain ⟨R', hR', -, hbase, -⟩ := hx.reign s' R hR
  exact hbase ▸ hmid s' R' hs' hs'' hR'

/-- New acknowledgements are of the current term, so evidence about earlier ones stands. -/
theorem Carries.extend (h : H.Sound members) (hx : Extends a H H') {u : NodeId} {t : Nat}
    {y : History} (hu : u ≠ a ∨ t ≤ H.term u) (hc : H.Carries u t y) : H'.Carries u t y := by
  refine hc.extend_of h hx fun s k hs hk => ?_
  rcases hx.fresh u s k hk with hk | ⟨rfl, hle⟩
  · exact hk
  · rcases hu with hu | hu
    · exact absurd rfl hu
    · omega

theorem Vouched.extend (h : H.Sound members) (hx : Extends a H H') {u : NodeId} {t : Nat}
    {z : History} (hv : H.Vouched u t z) : H'.Vouched u t z := by
  obtain ⟨ht, y, hy, hb, hc⟩ := hv
  exact ⟨Nat.le_trans ht (hx.term u), y, hy.extend hx, hb, hc.extend h hx (.inr ht)⟩

theorem Chosen.extend (hx : Extends a H H') {t : Nat} {q : History} (hq : H.Chosen members t q) :
    H'.Chosen members t q := by
  obtain ⟨R, hR, hp, hlt, Q, hQ, hack⟩ := hq
  obtain ⟨R', hR', -, hbase, hp', -⟩ := hx.reign t R hR
  refine ⟨R', hR', hp.trans hp', hbase ▸ hlt, Q, hQ, fun u hu => ?_⟩
  obtain ⟨k, hk, hle⟩ := hack u hu
  exact ⟨k, hx.acked u t k hk, hle⟩

theorem Fixed.extend (hx : Extends a H H') {t : Nat} {p : History} (hp : H.Fixed members t p) :
    H'.Fixed members t p := by
  obtain rfl | ⟨s, q, hs, hq, hpq⟩ := hp
  · exact .inl rfl
  · exact .inr ⟨s, q, hs, hq.extend hx, hpq⟩

theorem Lawful.extend (h : H.Sound members) (hx : Extends a H H') {t : Nat} {R : Reign}
    (hl : H.Lawful members t R) : H'.Lawful members t R where
  grown := hl.grown
  rooted := hl.rooted.extend hx
  sane := hl.sane
  before := hl.before
  own := hl.own
  reached := Nat.le_trans hl.reached (hx.term _)
  elected := hl.elected
  vouched u hu := (hl.vouched u hu).extend h hx

theorem Upright.acked_extend (hx : Extends a H H') {u : NodeId} (h : H.Upright members u)
    {t k : Nat} (hk : H.acked u t k) :
    t ≤ H.term u ∧ ∃ R, H'.reign t = some R ∧ k ≤ R.log.length := by
  obtain ⟨ht, R, hR, hle⟩ := h.acked t k hk
  obtain ⟨R', hR', -, -, hp, -⟩ := hx.reign t R hR
  exact ⟨ht, R', hR', Nat.le_trans hle hp.length_le⟩

theorem Upright.extend (h : H.Sound members) (hx : Extends a H H') {u : NodeId} (hu : u ≠ a) :
    H'.Upright members u := by
  have hup := h.upright u
  obtain ⟨hlog, hterm, hcommit, hstood⟩ := hx.others u hu
  constructor
  · rw [hlog]; exact hup.rooted.extend hx
  · rw [hlog]; exact hup.sane
  · rw [hlog, hterm]; exact hup.current
  · rw [hterm, hstood]; exact hup.stood
  · intro t k hk
    rw [hterm]
    rcases hx.fresh u t k hk with hk | ⟨rfl, -⟩
    · exact hup.acked_extend hx hk
    · exact absurd rfl hu
  · rw [hlog, hterm]; exact hup.kept.extend h hx (.inl hu)
  · rw [hlog, hcommit]; exact hup.bounded
  · rw [hlog, hcommit, hterm]; exact hup.fixed.extend hx

/-- A step of one node is sound if what it has, and the reigns that it changed, are. -/
theorem Sound.extend (h : H.Sound members) (hx : Extends a H H')
    (hl : ∀ t R', H'.reign t = some R' → H.reign t ≠ some R' → H'.Lawful members t R')
    (hn : H'.Upright members a) : H'.Sound members where
  lawful t R' hR' := by
    by_cases hR : H.reign t = some R'
    · exact (h.lawful t R' hR).extend h hx
    · exact hl t R' hR' hR
  upright u := by
    by_cases hu : u = a
    · exact hu ▸ hn
    · exact .extend h hx hu

/-! ## Terms and candidacies -/

/-- A node sees a later term. -/
def raise (H : Chronicle) (a : NodeId) (t : Nat) : Chronicle :=
  { H with term := Function.update H.term a (max (H.term a) t) }

/-- A node stands for the next term. -/
def stand (H : Chronicle) (a : NodeId) : Chronicle :=
  { H with
    term := Function.update H.term a (H.term a + 1)
    stood := fun u t => if u = a ∧ t = H.term a + 1 then some (H.log a) else H.stood u t }

/-- What a node carries does not depend on terms that it has acknowledged nothing in. -/
theorem Sound.kept_mono (h : H.Sound members) {t : Nat} (ht : H.term a < t) :
    H.Carries a t (H.log a) := by
  intro s k hk _ p S hS hp hle hmid
  have hs := ((h.upright a).acked s k hk).1
  exact (h.upright a).kept s k hk (by omega) p S hS hp hle
    fun s' S' h₁ h₂ hS' => hmid s' S' h₁ (by omega) hS'

theorem extends_raise (H : Chronicle) (a : NodeId) (t : Nat) : Extends a H (H.raise a t) where
  reign _ R h := ⟨R, h, rfl, rfl, List.prefix_rfl, fun _ => rfl⟩
  crowned _ R h := .inl ⟨R, h⟩
  stood _ _ _ h := h
  acked _ _ _ h := h
  fresh _ _ _ h := .inl h
  term u := by
    by_cases hu : u = a
    · subst hu
      simp only [raise, Function.update_self]
      omega
    · simp only [raise, Function.update_of_ne hu, Nat.le_refl]
  commit _ := Nat.le_refl _
  others u hu := ⟨rfl, Function.update_of_ne hu .., rfl, rfl⟩

@[simp] theorem term_raise (H : Chronicle) (a : NodeId) (t : Nat) :
    (H.raise a t).term a = max (H.term a) t := Function.update_self ..

theorem Sound.raise (h : H.Sound members) (a : NodeId) (t : Nat) :
    (H.raise a t).Sound members := by
  have hx := extends_raise H a t
  have hup := h.upright a
  have hle : H.term a ≤ max (H.term a) t := Nat.le_max_left _ _
  refine h.extend hx (fun s R hR hne => absurd hR hne) ⟨hup.rooted.extend hx, hup.sane, ?_, ?_, ?_,
    ?_, hup.bounded, ?_⟩
  · intro e he
    rw [term_raise]
    exact Nat.le_trans (hup.current e he) hle
  · intro s z hz
    rw [term_raise]
    exact Nat.le_trans (hup.stood s z hz) hle
  · intro s k hk
    rw [term_raise]
    exact (hup.acked s k hk).imp_left fun hs => Nat.le_trans hs hle
  · rw [term_raise]
    have hkept : H.Carries a (max (H.term a) t + 1) (H.log a) := h.kept_mono (by omega)
    exact hkept
  · rw [term_raise]
    exact (hup.fixed.mono hle).extend hx

theorem extends_stand (h : H.Sound members) (a : NodeId) : Extends a H (H.stand a) where
  reign _ R h := ⟨R, h, rfl, rfl, List.prefix_rfl, fun _ => rfl⟩
  crowned _ R h := .inl ⟨R, h⟩
  stood u t z hz := by
    have hle := (h.upright u).stood t z hz
    have hnot : ¬ (u = a ∧ t = H.term a + 1) := by
      rintro ⟨rfl, rfl⟩
      omega
    exact (if_neg hnot).trans hz
  acked _ _ _ h := h
  fresh _ _ _ h := .inl h
  term u := by
    by_cases hu : u = a
    · subst hu
      simp only [stand, Function.update_self]
      omega
    · simp only [stand, Function.update_of_ne hu, Nat.le_refl]
  commit _ := Nat.le_refl _
  others u hu := by
    refine ⟨rfl, Function.update_of_ne hu .., rfl, ?_⟩
    funext t
    exact if_neg fun heq => hu heq.1

@[simp] theorem term_stand (H : Chronicle) (a : NodeId) :
    (H.stand a).term a = H.term a + 1 := Function.update_self ..

theorem stood_stand (H : Chronicle) (a : NodeId) :
    (H.stand a).stood a (H.term a + 1) = some (H.log a) := if_pos ⟨rfl, rfl⟩

theorem Sound.stand (h : H.Sound members) (a : NodeId) : (H.stand a).Sound members := by
  have hx := extends_stand h a
  have hup := h.upright a
  refine h.extend hx (fun s R hR hne => absurd hR hne) ⟨hup.rooted.extend hx, hup.sane, ?_, ?_, ?_,
    ?_, hup.bounded, ?_⟩
  · intro e he
    rw [term_stand]
    exact Nat.le_succ_of_le (hup.current e he)
  · intro s z hz
    rw [term_stand]
    by_cases hs : s = H.term a + 1
    · omega
    · have hz' : H.stood a s = some z := by
        rw [← hz]
        exact (if_neg fun heq => hs heq.2).symm
      exact Nat.le_succ_of_le (hup.stood s z hz')
  · intro s k hk
    rw [term_stand]
    exact (hup.acked s k hk).imp_left Nat.le_succ_of_le
  · rw [term_stand]
    have hkept : H.Carries a (H.term a + 1 + 1) (H.log a) := h.kept_mono (by omega)
    exact hkept
  · rw [term_stand]
    exact (hup.fixed.mono (Nat.le_succ _)).extend hx

/-- What a node carries into a term that nobody leads yet. -/
theorem Sound.carries (h : H.Sound members) {t : Nat} (ht : H.term a ≤ t)
    (hnone : H.reign t = none) : H.Carries a t (H.log a) := by
  rcases Nat.lt_or_ge (H.term a) t with hlt | hge
  · exact h.kept_mono hlt
  · obtain rfl : H.term a = t := Nat.le_antisymm ht hge
    intro s k hk hs p S hS hp hle hmid
    refine (h.upright a).kept s k hk (by omega) p S hS hp hle fun s' S' h₁ h₂ hS' => ?_
    rcases Nat.lt_or_ge s' (H.term a) with hlt' | hge'
    · exact hmid s' S' h₁ hlt' hS'
    · obtain rfl : s' = H.term a := by omega
      rw [hnone] at hS'
      cases hS'

/-- A node votes for a log that its own is behind. -/
theorem Sound.vouched_raise (h : H.Sound members) {t : Nat} (ht : H.term a ≤ t)
    (hnone : H.reign t = none) {z : History} (hb : Behind (H.log a) z) :
    (H.raise a t).Vouched a t z := by
  refine ⟨?_, H.log a, (h.upright a).rooted, hb, h.carries ht hnone⟩
  rw [term_raise]
  exact Nat.le_max_right _ _

/-- A candidate votes for itself. -/
theorem Sound.vouched_stand (h : H.Sound members) :
    (H.stand a).Vouched a (H.term a + 1) (H.log a) := by
  refine ⟨Nat.le_of_eq (term_stand H a).symm, H.log a, (h.upright a).rooted, ?_, ?_⟩
  · exact .inr ⟨rfl, Nat.le_refl _⟩
  · exact h.kept_mono (Nat.lt_succ_self _)

/-! ## Leaders -/

/-- A node is elected. -/
def crown (H : Chronicle) (a : NodeId) (t : Nat) (voters : List NodeId) : Chronicle :=
  { H with reign := Function.update H.reign t (some ⟨a, H.log a, H.log a, voters⟩) }

@[simp] theorem reign_crown (H : Chronicle) (a : NodeId) (t : Nat) (voters : List NodeId) :
    (H.crown a t voters).reign t = some ⟨a, H.log a, H.log a, voters⟩ := Function.update_self ..

theorem extends_crown {t : Nat} (hnone : H.reign t = none) (voters : List NodeId) :
    Extends a H (H.crown a t voters) where
  reign s R hR := by
    have hs : s ≠ t := by
      rintro rfl
      rw [hnone] at hR
      cases hR
    exact ⟨R, (Function.update_of_ne hs ..).trans hR, rfl, rfl, List.prefix_rfl, fun _ => rfl⟩
  crowned s R' hR' := by
    by_cases hs : s = t
    · subst hs
      rw [reign_crown] at hR'
      obtain rfl := Option.some.inj hR'
      exact .inr rfl
    · exact .inl ⟨R', (Function.update_of_ne hs ..).symm.trans hR'⟩
  stood _ _ _ h := h
  acked _ _ _ h := h
  fresh _ _ _ h := .inl h
  term _ := Nat.le_refl _
  commit _ := Nat.le_refl _
  others _ _ := ⟨rfl, rfl, rfl, rfl⟩

theorem Sound.crown (h : H.Sound members) {voters : List NodeId}
    (hnone : H.reign (H.term a) = none) (hmaj : Majority members voters)
    (hv : ∀ u ∈ voters, H.Vouched u (H.term a) (H.log a)) :
    (H.crown a (H.term a) voters).Sound members := by
  have hx : Extends a H (H.crown a (H.term a) voters) := extends_crown hnone voters
  have hup := h.upright a
  -- an entry of this term would have come from a leader of this term
  have hbefore : ∀ e ∈ H.log a, e.term < H.term a := by
    intro e he
    obtain ⟨k, hk⟩ := List.getElem?_of_mem he
    obtain ⟨R, hR, -⟩ := hup.rooted k e hk
    refine Nat.lt_of_le_of_ne (hup.current e he) fun heq => ?_
    rw [heq, hnone] at hR
    cases hR
  refine h.extend hx ?_ ⟨hup.rooted.extend hx, hup.sane, hup.current, hup.stood, ?_, ?_,
    hup.bounded, hup.fixed.extend hx⟩
  · intro t R' hR' hne
    by_cases ht : t = H.term a
    · subst ht
      rw [reign_crown] at hR'
      obtain rfl := Option.some.inj hR'
      refine ⟨List.prefix_rfl, hup.rooted.extend hx, hup.sane, ?_, ?_, Nat.le_refl _, hmaj, ?_⟩
      · exact fun k e he _ => hbefore e (List.mem_of_getElem? he)
      · intro k e he hle
        exact absurd (List.getElem?_eq_some_iff.1 he).1 (Nat.not_lt.2 hle)
      · exact fun u hu => (hv u hu).extend h hx
    · exact absurd ((Function.update_of_ne ht ..).symm.trans hR') hne
  · exact fun t k hk => hup.acked_extend hx hk
  · exact hup.kept.extend_of h hx fun _ _ _ hk => hk

/-- A leader adds an entry to its log. -/
def append (H : Chronicle) (a : NodeId) (t : Nat) (R : Reign) (e : Entry) : Chronicle :=
  { H with
    reign := Function.update H.reign t (some { R with log := R.log ++ [e] })
    log := Function.update H.log a (H.log a ++ [e]) }

@[simp] theorem log_append (H : Chronicle) (a : NodeId) (t : Nat) (R : Reign) (e : Entry) :
    (H.append a t R e).log a = H.log a ++ [e] := Function.update_self ..

@[simp] theorem reign_append (H : Chronicle) (a : NodeId) (t : Nat) (R : Reign) (e : Entry) :
    (H.append a t R e).reign t = some { R with log := R.log ++ [e] } := Function.update_self ..

theorem extends_append {t : Nat} {R : Reign} (hR : H.reign t = some R) (hlead : R.leader = a)
    (e : Entry) : Extends a H (H.append a t R e) where
  reign s S hS := by
    by_cases hs : s = t
    · subst hs
      obtain rfl : R = S := Option.some.inj (hR.symm.trans hS)
      exact ⟨_, reign_append .., rfl, rfl, List.prefix_append _ _, fun hne => absurd hlead hne⟩
    · exact ⟨S, (Function.update_of_ne hs ..).trans hS, rfl, rfl, List.prefix_rfl, fun _ => rfl⟩
  crowned s S' hS' := by
    by_cases hs : s = t
    · exact .inl ⟨R, hs ▸ hR⟩
    · exact .inl ⟨S', (Function.update_of_ne hs ..).symm.trans hS'⟩
  stood _ _ _ h := h
  acked _ _ _ h := h
  fresh _ _ _ h := .inl h
  term _ := Nat.le_refl _
  commit _ := Nat.le_refl _
  others u hu := ⟨Function.update_of_ne hu .., rfl, rfl, rfl⟩

theorem Rooted.concat {x : History} (h : H.Rooted x) {e : Entry} {R : Reign}
    (hR : H.reign e.term = some R) (hlog : x ++ [e] <+: R.log) : H.Rooted (x ++ [e]) := by
  intro k e' hk
  rcases getElem?_concat hk with hk | ⟨rfl, rfl⟩
  · obtain ⟨S, hS, hp⟩ := h k e' hk
    have hlt : k < x.length := (List.getElem?_eq_some_iff.1 hk).1
    exact ⟨S, hS, by rwa [List.take_append_of_le_length hlt]⟩
  · exact ⟨R, hR, (List.take_prefix _ _).trans hlog⟩

theorem Lawful.append {t : Nat} {R : Reign} {e : Entry} (h : H.Lawful members t R)
    (hrooted : H.Rooted (R.log ++ [e])) (hsane : Sane (R.log ++ [e])) (he : e.term = t) :
    H.Lawful members t { R with log := R.log ++ [e] } := by
  refine ⟨h.grown.trans (List.prefix_append _ _), hrooted, hsane, ?_, ?_, h.reached, h.elected,
    h.vouched⟩
  · intro k e' hk hlt
    rw [List.getElem?_append_left (Nat.lt_of_lt_of_le hlt h.grown.length_le)] at hk
    exact h.before k e' hk hlt
  · intro k e' hk hge
    rcases getElem?_concat hk with hk | ⟨-, rfl⟩
    · exact h.own k e' hk hge
    · exact he

theorem Sound.append (h : H.Sound members) {R : Reign} {e : Entry}
    (hR : H.reign (H.term a) = some R) (hlead : R.leader = a) (hlog : R.log = H.log a)
    (he : e.term = H.term a) (hsane : Sane (H.log a ++ [e])) :
    (H.append a (H.term a) R e).Sound members := by
  have hx := extends_append hR hlead e
  have hup := h.upright a
  have hreign := reign_append H a (H.term a) R e
  have hgrown : H.log a ++ [e] <+: R.log ++ [e] := hlog ▸ List.prefix_rfl
  have hrooted : (H.append a (H.term a) R e).Rooted (H.log a ++ [e]) :=
    (hup.rooted.extend hx).concat (by rw [he]; exact hreign) hgrown
  refine h.extend hx ?_ ⟨?_, ?_, ?_, hup.stood,
    fun t k hk => hup.acked_extend hx hk, ?_, ?_, ?_⟩
  · intro t R' hR' hne
    by_cases ht : t = H.term a
    · subst ht
      obtain rfl := Option.some.inj (hreign.symm.trans hR')
      exact ((h.lawful _ R hR).extend h hx).append (hlog ▸ hrooted) (hlog ▸ hsane) he
    · exact absurd ((Function.update_of_ne ht ..).symm.trans hR') hne
  · rw [log_append]; exact hrooted
  · rw [log_append]; exact hsane
  · rw [log_append]
    intro e' he'
    rcases List.mem_append.1 he' with he' | he'
    · exact hup.current e' he'
    · rw [List.mem_singleton.1 he', he]
      exact Nat.le_refl _
  · rw [log_append]
    have hkept := hup.kept.extend_of h hx fun _ _ _ hk => hk
    exact hkept.trans_isPrefix (List.prefix_append _ _)
  · rw [log_append, List.length_append]
    exact Nat.le_trans hup.bounded (Nat.le_add_right _ _)
  · rw [log_append]
    have htake : (H.log a ++ [e]).take (H.commit a) = (H.log a).take (H.commit a) :=
      List.take_append_of_le_length hup.bounded
    have hfixed := hup.fixed.extend hx
    rw [← htake] at hfixed
    exact hfixed

/-! ## Followers -/

/-- A node merges a prefix of the leader's log and acknowledges it. -/
def accept (H : Chronicle) (a : NodeId) (t : Nat) (R : Reign) (n : Nat) : Chronicle :=
  { H with
    log := Function.update H.log a (adopt (H.log a) (R.log.take n))
    acked := fun u s k => H.acked u s k ∨ u = a ∧ s = t ∧ k = n }

@[simp] theorem log_accept (H : Chronicle) (a : NodeId) (t : Nat) (R : Reign) (n : Nat) :
    (H.accept a t R n).log a = adopt (H.log a) (R.log.take n) := Function.update_self ..

theorem extends_accept (H : Chronicle) (a : NodeId) (R : Reign) (n : Nat) :
    Extends a H (H.accept a (H.term a) R n) where
  reign _ R h := ⟨R, h, rfl, rfl, List.prefix_rfl, fun _ => rfl⟩
  crowned _ R h := .inl ⟨R, h⟩
  stood _ _ _ h := h
  acked _ _ _ h := .inl h
  fresh u t k h := by
    rcases h with h | ⟨hu, ht, -⟩
    · exact .inl h
    · exact .inr ⟨hu, Nat.le_of_eq (by rw [hu, ht])⟩
  term _ := Nat.le_refl _
  commit _ := Nat.le_refl _
  others u hu := ⟨Function.update_of_ne hu .., rfl, rfl, rfl⟩

/-- What a node has committed survives a merge: the leader has it too. -/
theorem Sound.committed_adopt (h : H.Sound members) {R : Reign}
    (hR : H.reign (H.term a) = some R) (n : Nat) :
    (H.log a).take (H.commit a) <+: adopt (H.log a) (R.log.take n) :=
  prefix_adopt_of_common (List.take_prefix _ _) (List.take_prefix _ _)
    (h.committed_reign (Nat.le_refl _) hR)

theorem Sound.accept (h : H.Sound members) {R : Reign} {n : Nat}
    (hR : H.reign (H.term a) = some R) (hn : n ≤ R.log.length) :
    (H.accept a (H.term a) R n).Sound members := by
  have hx := extends_accept H a R n
  have hup := h.upright a
  have hlaw := h.lawful _ R hR
  have hcommitted := h.committed_adopt hR n
  have hlen : ((H.log a).take (H.commit a)).length = H.commit a :=
    List.length_take_of_le hup.bounded
  refine h.extend hx (fun t R' hR' hne => absurd hR' hne) ⟨?_, ?_, ?_, hup.stood, ?_, ?_, ?_, ?_⟩
  · rw [log_accept]
    exact (hup.rooted.extend hx).adopt
      ((hlaw.rooted.of_isPrefix (List.take_prefix _ _)).extend hx)
  · rw [log_accept]
    exact hup.sane.adopt (hlaw.sane.of_isPrefix (List.take_prefix _ _))
  · rw [log_accept]
    intro e he
    rcases mem_adopt he with he | he
    · exact hup.current e he
    · obtain ⟨k, hk⟩ := List.getElem?_of_mem (List.mem_of_mem_take he)
      exact hlaw.term_le hk
  · rintro t k (hk | ⟨-, rfl, rfl⟩)
    · exact hup.acked t k hk
    · exact ⟨Nat.le_refl _, R, hR, hn⟩
  · rw [log_accept]
    rintro s k (hk | ⟨-, rfl, rfl⟩) hs p S hS hp hle hmid
    · -- what was acknowledged before is in the old log, and the leader has it
      have hpx : p <+: H.log a := hup.kept s k hk hs p S hS hp hle hmid
      have hpR : p <+: R.log := by
        rcases Nat.lt_or_ge s (H.term a) with hlt | hge
        · exact (hmid _ R hlt (Nat.lt_succ_self _) hR).trans hlaw.grown
        · obtain rfl : s = H.term a := Nat.le_antisymm (Nat.le_of_lt_succ hs) hge
          obtain rfl : R = S := Option.some.inj (hR.symm.trans hS)
          exact hp
      exact prefix_adopt_of_common (List.take_prefix _ _) hpx hpR
    · obtain rfl : R = S := Option.some.inj (hR.symm.trans hS)
      exact (prefix_take hp hle).trans (prefix_adopt _ _)
  · rw [log_accept]
    have hle := hcommitted.length_le
    rwa [hlen] at hle
  · rw [log_accept]
    have htake : (adopt (H.log a) (R.log.take n)).take (H.commit a) =
        (H.log a).take (H.commit a) := by
      rw [List.prefix_iff_eq_take, hlen] at hcommitted
      exact hcommitted.symm
    have hfixed := hup.fixed.extend hx
    rw [← htake] at hfixed
    exact hfixed

/-- A node moves its commit index. -/
def commitTo (H : Chronicle) (a : NodeId) (n : Nat) : Chronicle :=
  { H with commit := Function.update H.commit a n }

@[simp] theorem commit_commitTo (H : Chronicle) (a : NodeId) (n : Nat) :
    (H.commitTo a n).commit a = n := Function.update_self ..

theorem extends_commitTo {n : Nat} (hn : H.commit a ≤ n) : Extends a H (H.commitTo a n) where
  reign _ R h := ⟨R, h, rfl, rfl, List.prefix_rfl, fun _ => rfl⟩
  crowned _ R h := .inl ⟨R, h⟩
  stood _ _ _ h := h
  acked _ _ _ h := h
  fresh _ _ _ h := .inl h
  term _ := Nat.le_refl _
  commit u := by
    by_cases hu : u = a
    · subst hu
      rw [commit_commitTo]
      exact hn
    · exact Nat.le_of_eq (Function.update_of_ne hu ..).symm
  others u hu := ⟨rfl, rfl, Function.update_of_ne hu .., rfl⟩

theorem Sound.commitTo (h : H.Sound members) {n : Nat} (hn : H.commit a ≤ n)
    (hle : n ≤ (H.log a).length) (hfixed : H.Fixed members (H.term a) ((H.log a).take n)) :
    (H.commitTo a n).Sound members := by
  have hx := extends_commitTo hn
  have hup := h.upright a
  refine h.extend hx (fun t R' hR' hne => absurd hR' hne) ⟨hup.rooted.extend hx, hup.sane,
    hup.current, hup.stood, hup.acked, ?_, ?_, ?_⟩
  · exact hup.kept
  · rw [commit_commitTo]
    exact hle
  · rw [commit_commitTo]
    exact hfixed.extend hx

/-- A term that a node has seen is seen already. -/
theorem raise_eq {t : Nat} (h : t ≤ H.term a) : H.raise a t = H := by
  have hmax : max (H.term a) t = H.term a := Nat.max_eq_left h
  simp only [raise, hmax, Function.update_eq_self]

/-- A node hears from the leader of a term: it merges a prefix of the leader's log and moves its
commit index. -/
def merge (H : Chronicle) (a : NodeId) (t : Nat) (R : Reign) (n commit : Nat) : Chronicle :=
  ((H.raise a t).accept a t R n).commitTo a commit

section

variable {t n commit : Nat} {R : Reign}

@[simp] theorem log_merge (H : Chronicle) (a : NodeId) (t : Nat) (R : Reign) (n commit : Nat) :
    (H.merge a t R n commit).log a = adopt (H.log a) (R.log.take n) := Function.update_self ..

@[simp] theorem commit_merge (H : Chronicle) (a : NodeId) (t : Nat) (R : Reign) (n commit : Nat) :
    (H.merge a t R n commit).commit a = commit := Function.update_self ..

theorem term_merge (ht : H.term a ≤ t) : (H.merge a t R n commit).term a = t :=
  (term_raise H a t).trans (Nat.max_eq_right ht)

theorem acked_merge (H : Chronicle) (a : NodeId) (t : Nat) (R : Reign) (n commit : Nat) :
    (H.merge a t R n commit).acked a t n := .inr ⟨rfl, rfl, rfl⟩

theorem extends_merge (ht : H.term a ≤ t) (hc : H.commit a ≤ commit) :
    Extends a H (H.merge a t R n commit) := by
  have hterm : (H.raise a t).term a = t := (term_raise H a t).trans (Nat.max_eq_right ht)
  have hx := extends_accept (H.raise a t) a R n
  rw [hterm] at hx
  exact ((extends_raise H a t).trans hx).trans (extends_commitTo hc)

theorem Sound.merge (h : H.Sound members) (ht : H.term a ≤ t) (hR : H.reign t = some R)
    (hn : n ≤ R.log.length) (hc : H.commit a ≤ commit)
    (hfixed : commit = H.commit a ∨ commit ≤ n ∧ H.Fixed members t (R.log.take commit)) :
    (H.merge a t R n commit).Sound members := by
  have hterm : (H.raise a t).term a = t := (term_raise H a t).trans (Nat.max_eq_right ht)
  have hx := extends_accept (H.raise a t) a R n
  have hs := (h.raise a t).accept (a := a) (R := R) (n := n) (by rw [hterm]; exact hR) hn
  rw [hterm] at hx hs
  have hup := hs.upright a
  rcases hfixed with rfl | ⟨hle, hfixed⟩
  · exact hs.commitTo hc hup.bounded hup.fixed
  · have hpre := prefix_adopt (H.log a) (R.log.take n)
    have hlen : (R.log.take n).length = n := List.length_take_of_le hn
    have htake : (adopt (H.log a) (R.log.take n)).take commit = R.log.take commit := by
      rw [← take_of_isPrefix hpre (by omega), List.take_take, Nat.min_eq_left hle]
    refine hs.commitTo hc ?_ ?_
    · have hle' := hpre.length_le
      rw [hlen] at hle'
      rw [log_accept]
      exact Nat.le_trans hle hle'
    · rw [log_accept]
      have hterm' : ((H.raise a t).accept a t R n).term a = t := hterm
      rw [hterm', show (H.raise a t).log a = H.log a from rfl, htake]
      exact (hfixed.extend (extends_raise H a t)).extend hx

end

end Chronicle

end ReplicatedStore
