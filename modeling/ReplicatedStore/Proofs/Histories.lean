import ReplicatedStore.Proofs.Images
/-!
# Histories

A history is a log seen from position 1 on, with what compaction has removed. Two things are said
about histories here:

* `Sane`: entries carry their own position and a positive term.
* `Valued`: every put carries a value, so that all of the history can be executed.
* `adopt x p`: what is left of `x` once a leader's prefix `p` has been merged into it. A history
  that extends `p` stays as it is; any other is replaced by `p`.

Most arguments about logs are arguments about prefixes of one common history, so the lemmas on
`adopt` are stated with `<+:`.
-/
namespace ReplicatedStore

/-- The entries of a log from position 1 on. -/
abbrev History := List Entry

namespace History

/-- The term at a position, 0 where there is no entry. -/
def termAt (x : History) (i : Nat) : Nat :=
  if i = 0 then 0 else (x[i - 1]?.map (·.term)).getD 0

/-- The term of the last entry, 0 without one. -/
def lastTerm (x : History) : Nat := termAt x x.length

/-- Entries carry their own position and a positive term. -/
structure Sane (x : History) : Prop where
  index : ∀ (k : Nat) (e : Entry), x[k]? = some e → e.index = k + 1
  term : ∀ e ∈ x, 0 < e.term

/-- Every put carries a value. -/
def Valued (x : History) : Prop := ∀ e ∈ x, e.command.Valued

/-- `z` is at least as complete as `y`: a later last term wins, then the longer history. -/
def Behind (y z : History) : Prop :=
  lastTerm y < lastTerm z ∨ (lastTerm y = lastTerm z ∧ y.length ≤ z.length)

/-- What is left of a history once a leader's prefix has been merged into it. -/
def adopt (x p : History) : History := if p <+: x then x else p

/-! ## Terms -/

@[simp] theorem termAt_zero (x : History) : termAt x 0 = 0 := rfl

theorem termAt_succ (x : History) (k : Nat) : termAt x (k + 1) = (x[k]?.map (·.term)).getD 0 := rfl

theorem termAt_of_getElem? {x : History} {k : Nat} {e : Entry} (h : x[k]? = some e) :
    termAt x (k + 1) = e.term := by simp [termAt_succ, h]

theorem exists_getElem? {x : History} {i : Nat} (h0 : 0 < i) (hi : i ≤ x.length) :
    ∃ e, x[i - 1]? = some e ∧ termAt x i = e.term := by
  obtain ⟨k, rfl⟩ : ∃ k, i = k + 1 := ⟨i - 1, by omega⟩
  have hk : x[k]? = some x[k] := List.getElem?_eq_getElem (by omega)
  exact ⟨x[k], hk, termAt_of_getElem? hk⟩

theorem getElem?_of_isPrefix {p x : History} (h : p <+: x) {k : Nat} (hk : k < p.length) :
    p[k]? = x[k]? := by
  obtain ⟨t, rfl⟩ := h
  rw [List.getElem?_append_left hk]

theorem getElem?_mono {p x : History} (h : p <+: x) {k : Nat} {e : Entry} (he : p[k]? = some e) :
    x[k]? = some e := by
  rw [← getElem?_of_isPrefix h (List.getElem?_eq_some_iff.1 he).1, he]

theorem getElem?_concat {x : History} {e e' : Entry} {k : Nat} (h : (x ++ [e])[k]? = some e') :
    x[k]? = some e' ∨ k = x.length ∧ e' = e := by
  rcases Nat.lt_or_ge k x.length with hlt | hge
  · rw [List.getElem?_append_left hlt] at h
    exact .inl h
  · rw [List.getElem?_append_right hge, List.getElem?_singleton] at h
    split at h
    · exact .inr ⟨by omega, (Option.some.inj h).symm⟩
    · cases h

theorem termAt_of_isPrefix {p x : History} (h : p <+: x) {i : Nat} (hi : i ≤ p.length) :
    termAt p i = termAt x i := by
  cases i with
  | zero => rfl
  | succ k => rw [termAt_succ, termAt_succ, getElem?_of_isPrefix h (by omega)]

theorem exists_last {x : History} (h : x ≠ []) :
    ∃ e, x[x.length - 1]? = some e ∧ lastTerm x = e.term :=
  exists_getElem? (List.length_pos_iff.2 h) (Nat.le_refl _)

theorem Sane.of_isPrefix {p x : History} (hx : Sane x) (h : p <+: x) : Sane p where
  index k e hk := hx.index k e (getElem?_mono h hk)
  term e he := hx.term e (h.mem he)

theorem Valued.of_isPrefix {p x : History} (hx : Valued x) (h : p <+: x) : Valued p :=
  fun e he => hx e (h.mem he)

theorem Sane.nil : Sane [] where
  index k e hk := by simp at hk
  term e he := by simp at he

theorem Sane.concat {x : History} (hx : Sane x) {e : Entry} (hi : e.index = x.length + 1)
    (ht : 0 < e.term) : Sane (x ++ [e]) where
  index k e' hk := by
    rcases Nat.lt_or_ge k x.length with hlt | hge
    · exact hx.index k e' (by rwa [List.getElem?_append_left hlt] at hk)
    · rw [List.getElem?_append_right hge] at hk
      obtain ⟨h0, rfl⟩ : k - x.length = 0 ∧ e = e' := by
        cases hd : k - x.length with
        | zero => simpa [hd] using hk
        | succ n => simp [hd] at hk
      omega
  term e' he' := by
    rcases List.mem_append.1 he' with h | h
    · exact hx.term e' h
    · rwa [List.mem_singleton.1 h]

/-! ## Prefixes -/

theorem take_prefix_take {x : History} {i j : Nat} (h : i ≤ j) : x.take i <+: x.take j := by
  rw [show x.take i = (x.take j).take i by rw [List.take_take, Nat.min_eq_left h]]
  exact List.take_prefix _ _

theorem take_of_isPrefix {p x : History} (h : p <+: x) {i : Nat} (hi : i ≤ p.length) :
    p.take i = x.take i := by
  obtain ⟨t, rfl⟩ := h
  rw [List.take_append_of_le_length hi]

theorem prefix_take {p x : History} (h : p <+: x) {i : Nat} (hi : p.length ≤ i) : p <+: x.take i :=
  List.prefix_take_iff.2 ⟨h, hi⟩

/-- Two prefixes of one history extend each other, the shorter one first. -/
theorem prefix_of_common {p q x : History} (hp : p <+: x) (hq : q <+: x) (h : ¬ q <+: p) :
    p <+: q :=
  (List.prefix_or_prefix_of_prefix hp hq).resolve_right h

/-! ## Adopting -/

theorem prefix_adopt (x p : History) : p <+: adopt x p := by
  unfold adopt
  split
  · assumption
  · exact List.prefix_rfl

theorem adopt_eq_or (x p : History) : (p <+: x ∧ adopt x p = x) ∨ (¬ p <+: x ∧ adopt x p = p) := by
  unfold adopt
  split
  · exact .inl ⟨‹_›, rfl⟩
  · exact .inr ⟨‹_›, rfl⟩

theorem length_adopt_le {x p : History} {n : Nat} (hx : x.length ≤ n) (hp : p.length ≤ n) :
    (adopt x p).length ≤ n := by
  rcases adopt_eq_or x p with ⟨-, h⟩ | ⟨-, h⟩ <;> rw [h] <;> assumption

/-- What the adopter shares with the history that the prefix is taken from survives. -/
theorem prefix_adopt_of_common {x p y q : History} (hp : p <+: y) (hqx : q <+: x) (hqy : q <+: y) :
    q <+: adopt x p := by
  rcases adopt_eq_or x p with ⟨-, h⟩ | ⟨hn, h⟩
  · rwa [h]
  · rw [h]
    exact prefix_of_common hqy hp fun hpq => hn (hpq.trans hqx)

theorem mem_adopt {x p : History} {e : Entry} (h : e ∈ adopt x p) : e ∈ x ∨ e ∈ p := by
  rcases adopt_eq_or x p with ⟨-, h'⟩ | ⟨-, h'⟩ <;> rw [h'] at h
  · exact .inl h
  · exact .inr h

theorem Sane.adopt {x p : History} (hx : Sane x) (hp : Sane p) : Sane (adopt x p) := by
  rcases adopt_eq_or x p with ⟨-, h⟩ | ⟨-, h⟩ <;> rw [h] <;> assumption

end History

end ReplicatedStore
