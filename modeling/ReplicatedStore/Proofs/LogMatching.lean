import ReplicatedStore.Proofs.RecordedRuns
/-!
# Log matching

Two logs that hold an entry of one index and term hold the same entry there, and agree below it,
wherever and whenever in a run they are looked at (`log_matching`).

The terms alone decide what a follower keeps. That this is enough comes from the chronicle: every
entry came, with all before it, from the log of the leader of its term, and a term has one leader
(`Chronicle.Rooted.take_eq`).
-/
namespace ReplicatedStore

open History

namespace Site

/-- Where both logs hold an entry of one term, they hold the same entry, and the same entries
below it as far as both still hold them. -/
def Matches (s s' : Site) : Prop :=
  ∀ i e e', s.entryAt? i = some e → s'.entryAt? i = some e' → e.term = e'.term → e = e' ∧
    ∀ j f f', j < i → s.entryAt? j = some f → s'.entryAt? j = some f' → f = f'

/-- Terms do not decrease along the log, from that of the base to that of the node. -/
structure TermsRise (s : Site) : Prop where
  rise : ∀ i j e f, i ≤ j → s.entryAt? i = some e → s.entryAt? j = some f → e.term ≤ f.term
  base : ∀ i e, s.entryAt? i = some e → s.baseTerm ≤ e.term
  current : ∀ i e, s.entryAt? i = some e → e.term ≤ s.term

variable {H : Chronicle} {members : List NodeId} {s s' : Site} {x x' : History}

theorem Bears.matches (h : s.Bears x) (h' : s'.Bears x') (hx : H.Rooted x) (hx' : H.Rooted x') :
    s.Matches s' := by
  intro i e e' he he' ht
  obtain ⟨hi, hget⟩ := h.entryAt? he
  obtain ⟨-, hget'⟩ := h'.entryAt? he'
  have htake := hx.take_eq hx' hget hget' ht
  have hsame : ∀ j f f', 0 < j → j ≤ i → x[j - 1]? = some f → x'[j - 1]? = some f' → f = f' := by
    intro j f f' hj hle hf hf'
    have hlt : j - 1 < i - 1 + 1 := by omega
    have hget : (x.take (i - 1 + 1))[j - 1]? = some f := by rw [List.getElem?_take_of_lt hlt, hf]
    rw [htake, List.getElem?_take_of_lt hlt, hf'] at hget
    exact (Option.some.inj hget).symm
  refine ⟨hsame i e e' (by omega) (Nat.le_refl i) hget hget', fun j f f' hlt hf hf' => ?_⟩
  obtain ⟨hj, hgetj⟩ := h.entryAt? hf
  obtain ⟨-, hgetj'⟩ := h'.entryAt? hf'
  exact hsame j f f' (by omega) (Nat.le_of_lt hlt) hgetj hgetj'

theorem Bears.termsRise (h : s.Bears x) (hs : H.Sound members) (hx : H.Rooted x)
    (hcurrent : ∀ e ∈ x, e.term ≤ s.term) : s.TermsRise where
  rise i j e f hle he hf := by
    obtain ⟨-, hget⟩ := h.entryAt? he
    obtain ⟨-, hget'⟩ := h.entryAt? hf
    exact hs.term_mono hx hget hget' (by omega)
  base i e he := by
    obtain ⟨hi, hget⟩ := h.entryAt? he
    have hlen := (List.getElem?_eq_some_iff.1 hget).1
    rw [h.baseTerm_eq]
    by_cases h0 : s.base = 0
    · rw [h0, termAt_zero]
      exact Nat.zero_le _
    · obtain ⟨f, hf, ht⟩ := exists_getElem? (x := x) (i := s.base) (by omega) (by omega)
      rw [ht]
      exact hs.term_mono hx hf hget (by omega)
  current i e he := hcurrent e (List.mem_of_getElem? (h.entryAt? he).2)

end Site

/-- **Log matching.** No write fails, and nothing else is asked of a run. At any two moments of it,
the logs of any two nodes, running or not, match, and the terms of each rise. -/
theorem log_matching {c : Conditions} {w w' : World} (hc : c.Reliable) (h : Reachable c w)
    (h' : Run c w w') :
    (∀ u v, (w.sites u).Matches (w'.sites v)) ∧ ∀ v, (w'.sites v).TermsRise := by
  obtain ⟨P, H, P', H', hrec, hlater, hrec'⟩ := Chronicle.Reachable.recorded hc h h'
  constructor
  · intro u v
    exact (hrec.bears u).matches (hrec'.bears v) (hlater.rooted (hrec.sound.upright u).rooted)
      (hrec'.sound.upright v).rooted
  · intro v
    refine (hrec'.bears v).termsRise hrec'.sound (hrec'.sound.upright v).rooted fun e he => ?_
    rw [hrec'.term_eq]
    exact (hrec'.sound.upright v).current e he

/-- The entry of `Duo`, which node 2 holds before and after it executes it. -/
theorem log_matching_duo : ∃ w w', Duo.conditions.Reliable ∧ Reachable Duo.conditions w ∧
    Run Duo.conditions w w' ∧ (w.sites 2).entryAt? 1 = some Duo.entry ∧
    (w'.sites 2).entryAt? 1 = some Duo.entry ∧
    (∀ u v, (w.sites u).Matches (w'.sites v)) ∧ ∀ v, (w'.sites v).TermsRise := by
  obtain ⟨w, w', h, h', -, hholder, -, hfollower, -⟩ := Duo.exists_acknowledged
  refine ⟨w, w', Duo.reliable, h, h', ?_, ?_, log_matching Duo.reliable h h'⟩
  · rw [hholder]
    rfl
  · rw [hfollower]
    rfl

end ReplicatedStore
