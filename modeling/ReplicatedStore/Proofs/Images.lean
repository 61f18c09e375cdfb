import ReplicatedStore.Image
/-!
# What images stand for

`Image.fold` keeps the last write of every live key, `Image.restore` executes a list of entries on
an empty machine. The two are tied together over whole histories:

* `Table.ext_get?`: a table is its view.
* `Image.fold_fold`: folding a history stretch by stretch gives the image of the whole history,
  wherever it is cut.
* `Image.restore_fold`: restoring an image gives what executing the history gives.
* `Machine.execute_eq`: entries whose puts carry a value can all be executed, and leave the
  contents that `Image.restore` says.
-/
namespace ReplicatedStore

/-! ## Tables are their views -/

namespace Bindings

variable {κ ν : Type} [Ord κ]

theorem get?_eq_none_of_lt {k : κ} {l : List (κ × ν)} (h : ∀ b ∈ l, compare k b.1 = .lt) :
    get? k l = none := by
  induction l with
  | nil => rfl
  | cons b r ih =>
    have hb := h b (by simp)
    have hr := ih fun c hc => h c (by simp [hc])
    simp [get?, hb, hr]

theorem get?_eq_some_iff [Std.LawfulEqOrd κ] {l : List (κ × ν)} (hl : Sorted l) {k : κ} {v : ν} :
    get? k l = some v ↔ (k, v) ∈ l := by
  induction l with
  | nil => simp [get?]
  | cons b r ih =>
    obtain ⟨hb, hr⟩ := List.pairwise_cons.1 hl
    rw [get?, List.mem_cons]
    split
    · next hk =>
      have hkb : k = b.1 := Std.LawfulEqOrd.eq_of_compare hk
      -- the key of the first binding does not come again
      have hnot : (k, v) ∉ r := by
        intro hmem
        have hlt := hb (k, v) hmem
        have heq : compare b.1 k = .eq := hkb ▸ Std.ReflCmp.compare_self
        rw [heq] at hlt
        cases hlt
      rw [or_iff_left hnot, Prod.ext_iff, Option.some.injEq]
      exact ⟨fun hv => ⟨hkb, hv.symm⟩, fun hb => hb.2.symm⟩
    · next hk =>
      have hne : (k, v) ≠ b := by
        rintro rfl
        exact hk Std.ReflCmp.compare_self
      simp [hne, ih hr]

theorem eq_of_get? [Std.TransOrd κ] [Std.LawfulEqOrd κ] {l l' : List (κ × ν)} (hl : Sorted l)
    (hl' : Sorted l') (h : ∀ k, get? k l = get? k l') : l = l' := by
  induction l generalizing l' with
  | nil =>
    cases l' with
    | nil => rfl
    | cons b r => simpa [get?] using h b.1
  | cons a r ih =>
    cases l' with
    | nil => simpa [get?] using h a.1
    | cons b r' =>
      obtain ⟨ha, hr⟩ := List.pairwise_cons.1 hl
      obtain ⟨hb, hr'⟩ := List.pairwise_cons.1 hl'
      -- the smallest keys agree, since the smaller one of them would be missing on the other side
      have hab : compare a.1 b.1 = .eq := by
        cases hc : compare a.1 b.1 with
        | eq => rfl
        | lt =>
          have hn : get? a.1 r' = none :=
            get?_eq_none_of_lt fun c hc' => Std.TransCmp.lt_trans hc (hb c hc')
          simpa [get?, hc, hn] using h a.1
        | gt =>
          have hlt := Std.OrientedCmp.lt_of_gt hc
          have hn : get? b.1 r = none :=
            get?_eq_none_of_lt fun c hc' => Std.TransCmp.lt_trans hlt (ha c hc')
          simpa [get?, hlt, hn] using h b.1
      have hk : a.1 = b.1 := Std.LawfulEqOrd.eq_of_compare hab
      have hv : a.2 = b.2 := by simpa [get?, hab] using h a.1
      have htail : r = r' := by
        refine ih hr hr' fun k => ?_
        by_cases hka : compare k a.1 = .eq
        · have hka' : k = a.1 := Std.LawfulEqOrd.eq_of_compare hka
          rw [get?_eq_none_of_lt (l := r) fun c hc => hka' ▸ ha c hc,
            get?_eq_none_of_lt (l := r') fun c hc => hka' ▸ hk ▸ hb c hc]
        · have hkb : compare k b.1 ≠ .eq := by rwa [← hk]
          simpa [get?, hka, hkb] using h k
      rw [htail, Prod.ext hk hv]

end Bindings

namespace Table

variable {κ ν : Type} [Ord κ]

theorem get?_erase [Std.LawfulEqOrd κ] (t : Table κ ν) (k k' : κ) :
    (t.erase k).get? k' = if compare k' k = .eq then none else t.get? k' := by
  split
  · rename_i h
    rw [Std.LawfulEqOrd.eq_of_compare h, get?_erase_self]
  · rename_i h
    exact get?_erase_of_ne t fun e => h (e ▸ Std.ReflCmp.compare_self)

/-- The values are what is bound to some key. -/
theorem mem_values [Std.LawfulEqOrd κ] {t : Table κ ν} {v : ν} :
    v ∈ t.values ↔ ∃ k, t.get? k = some v := by
  simp [values, get?, Bindings.get?_eq_some_iff t.sorted]

variable [Std.TransOrd κ] [Std.LawfulEqOrd κ]

theorem ext_get? {t t' : Table κ ν} (h : ∀ k, t.get? k = t'.get? k) : t = t' := by
  obtain ⟨l, hl⟩ := t
  obtain ⟨l', hl'⟩ := t'
  obtain rfl : l = l' := Bindings.eq_of_get? hl hl' h
  rfl

theorem get?_insert (t : Table κ ν) (k k' : κ) (v : ν) :
    (t.insert k v).get? k' = if compare k' k = .eq then some v else t.get? k' := by
  split
  · rename_i h
    rw [Std.LawfulEqOrd.eq_of_compare h, get?_insert_self]
  · rename_i h
    exact get?_insert_of_ne t v fun e => h (e ▸ Std.ReflCmp.compare_self)

/-- Putting sorted bindings into a table one by one: they count, and the old ones where there is no
new one. -/
theorem get?_foldl_insert {l : List (κ × ν)} (hl : Bindings.Sorted l) (t : Table κ ν) (k : κ) :
    (l.foldl (fun t b => t.insert b.1 b.2) t).get? k = (Bindings.get? k l <|> t.get? k) := by
  induction l generalizing t with
  | nil => simp [Bindings.get?]
  | cons b r ih =>
    obtain ⟨hb, hr⟩ := List.pairwise_cons.1 hl
    rw [List.foldl_cons, ih hr, get?_insert, Bindings.get?]
    split
    · rename_i hk
      have hkb : k = b.1 := Std.LawfulEqOrd.eq_of_compare hk
      rw [Bindings.get?_eq_none_of_lt fun c hc => hkb ▸ hb c hc]
      rfl
    · rfl

/-- What is bound in a table that was made from a list stands in the list. -/
theorem mem_of_get?_ofList {l : List (κ × ν)} {k : κ} {v : ν} (h : (ofList l).get? k = some v) :
    (k, v) ∈ l := by
  have key : ∀ (l : List (κ × ν)) (t : Table κ ν),
      (l.foldl (fun t b => t.insert b.1 b.2) t).get? k = some v →
        (k, v) ∈ l ∨ t.get? k = some v := by
    intro l
    induction l with
    | nil => exact fun t h => .inr h
    | cons b r ih =>
      intro t h
      rcases ih _ h with hr | hb
      · exact .inl (List.mem_cons_of_mem _ hr)
      · rw [get?_insert] at hb
        split at hb
        · next hk =>
          cases hb
          rw [Std.LawfulEqOrd.eq_of_compare hk]
          exact .inl List.mem_cons_self
        · exact .inr hb
  exact (key l .empty h).resolve_right nofun

end Table

/-! ## Folding -/

namespace Image

/-- A put that carries a value, filed under its own key. -/
def IsWrite (k : String) (e : Entry) : Prop :=
  e.command.operation = .put ∧ e.command.key = k ∧ e.command.value.isSome

/-- Every binding is a write of its key. -/
def AllWrites (t : Table String Entry) : Prop := ∀ b ∈ t.entries, IsWrite b.1 b.2

theorem AllWrites.note {t : Table String Entry} (h : AllWrites t) (e : Entry) :
    AllWrites (note t e) := by
  unfold Image.note
  split
  · rename_i v ho hv
    intro b hb
    rcases Bindings.mem_insert hb with rfl | hb
    · exact ⟨ho, rfl, by simp [hv]⟩
    · exact h b hb
  · exact h
  · exact fun b hb => h b ((Bindings.erase_sublist _ _).mem hb)
  · exact h

theorem allWrites_live (history : List Entry) : AllWrites (live history) := by
  have key : ∀ (l : List Entry) (t : Table String Entry), AllWrites t →
      AllWrites (l.foldl Image.note t) := by
    intro l
    induction l with
    | nil => exact fun t h => h
    | cons e l ih => exact fun t h => ih _ (h.note e)
  exact key history .empty fun b hb => by simp [Table.empty] at hb

theorem asPut_eq {k : String} {e : Entry} (h : IsWrite k e) : asPut e = e := by
  obtain ⟨term, index, operation, key, value⟩ := e
  obtain ⟨rfl, -, -⟩ := h
  rfl

theorem note_of_isWrite {k : String} {e : Entry} (h : IsWrite k e) (t : Table String Entry) :
    note t e = t.insert k e := by
  obtain ⟨ho, rfl, hv⟩ := h
  obtain ⟨v, hv⟩ := Option.isSome_iff_exists.1 hv
  simp [note, ho, hv]

/-- An image is made of the writes themselves. -/
theorem fold_eq_values (previous applied : List Entry) :
    fold previous applied = (live (previous ++ applied)).values := by
  unfold fold Table.values
  rw [List.map_map]
  refine List.map_congr_left fun b hb => ?_
  exact asPut_eq (allWrites_live _ b hb)

theorem live_append (first second : List Entry) :
    live (first ++ second) = second.foldl note (live first) := by
  rw [live, List.foldl_append, live]

theorem foldl_note_values {t : Table String Entry} (h : AllWrites t) :
    t.values.foldl note .empty = t := by
  have hnote : ∀ (l : List (String × Entry)), (∀ b ∈ l, IsWrite b.1 b.2) →
      ∀ s : Table String Entry, (l.map (·.2)).foldl note s =
        l.foldl (fun t b => t.insert b.1 b.2) s := by
    intro l
    induction l with
    | nil => exact fun _ _ => rfl
    | cons b l ih =>
      intro hl s
      rw [List.map_cons, List.foldl_cons, List.foldl_cons, note_of_isWrite (hl b (by simp)),
        ih fun c hc => hl c (by simp [hc])]
  refine Table.ext_get? fun k => ?_
  rw [Table.values, hnote _ h, Table.get?_foldl_insert t.sorted, Table.get?_empty]
  cases hk : Bindings.get? k t.entries <;> simp [Table.get?, hk]

/-- **A history may be cut anywhere**: folding a stretch onto the image of what came before gives
the image of both. -/
theorem fold_fold (first second : List Entry) :
    fold (fold [] first) second = fold [] (first ++ second) := by
  rw [fold_eq_values, fold_eq_values, fold_eq_values, List.nil_append, List.nil_append,
    live_append, live_append]
  congr 2
  exact foldl_note_values (allWrites_live first)

/-! ## Restoring -/

theorem restore_append (first second : List Entry) :
    restore (first ++ second) = second.foldl replay (restore first) := by
  rw [restore, List.foldl_append, restore]

/-- The contents after a history: each live key with the value of its last write. -/
theorem get?_restore (history : List Entry) (k : String) :
    (restore history).get? k = ((live history).get? k).bind (·.command.value) := by
  have key : ∀ (l : List Entry) (m : Machine) (t : Table String Entry),
      (∀ k, m.get? k = (t.get? k).bind (·.command.value)) →
      (l.foldl replay m).get? k = ((l.foldl note t).get? k).bind (·.command.value) := by
    intro l
    induction l with
    | nil => exact fun m t h => h k
    | cons e l ih =>
      intro m t h
      refine ih _ _ fun k => ?_
      unfold replay note
      cases e.command.operation with
      | put =>
        cases hv : e.command.value with
        | none => exact h k
        | some v =>
          rw [Table.get?_insert, Table.get?_insert]
          split <;> simp [hv, h]
      | get => exact h k
      | delete =>
        rw [Table.get?_erase, Table.get?_erase]
        split <;> simp [h]
  exact key history .empty .empty fun _ => rfl

/-- **Restoring an image gives what executing the history gives.** -/
theorem restore_fold (previous applied : List Entry) :
    restore (fold previous applied) = restore (previous ++ applied) := by
  refine Table.ext_get? fun k => ?_
  rw [get?_restore, get?_restore, fold_eq_values]
  congr 2
  exact foldl_note_values (allWrites_live _)

end Image

/-! ## Executing -/

/-- A put carries a value. Only such commands can be executed. -/
def Command.Valued (c : Command) : Prop := c.operation = .put → c.value.isSome

instance (c : Command) : Decidable c.Valued :=
  inferInstanceAs (Decidable (c.operation = .put → c.value.isSome))

namespace Machine

/-- Execute entries in order: the answer to each, and the contents after them. -/
def execute (m : Machine) : List Entry → Except ConsensusError (List Answer × Machine)
  | [] => .ok ([], m)
  | e :: es => do
    let (a, m) ← m.apply e
    let (rest, m) ← m.execute es
    return (a :: rest, m)

/-- What an entry answers on some contents. -/
def answer (m : Machine) (e : Entry) : Answer :=
  match e.command.operation with
  | .get => .value (m.get? e.command.key)
  | _ => .done

theorem apply_eq {e : Entry} (h : e.command.Valued) (m : Machine) :
    m.apply e = .ok (m.answer e, Image.replay m e) := by
  unfold apply answer Image.replay
  cases ho : e.command.operation with
  | put =>
    obtain ⟨v, hv⟩ := Option.isSome_iff_exists.1 (h ho)
    simp [hv]
  | get => rfl
  | delete => rfl

/-- What can be executed has the one answer and the one effect. -/
theorem apply_ok {e : Entry} {m m' : Machine} {a : Answer} (h : m.apply e = .ok (a, m')) :
    a = m.answer e ∧ m' = Image.replay m e := by
  unfold apply at h
  unfold answer Image.replay
  cases ho : e.command.operation with
  | put =>
    cases hv : e.command.value with
    | some v =>
      simp only [ho, hv] at h
      cases h
      exact ⟨rfl, rfl⟩
    | none =>
      simp only [ho, hv] at h
      cases h
  | get =>
    simp only [ho] at h
    cases h
    exact ⟨rfl, rfl⟩
  | delete =>
    simp only [ho] at h
    cases h
    exact ⟨rfl, rfl⟩

/-- Entries whose puts carry a value can all be executed. -/
theorem execute_eq {es : List Entry} (h : ∀ e ∈ es, e.command.Valued) (m : Machine) :
    ∃ answers, m.execute es = .ok (answers, es.foldl Image.replay m) ∧
      answers.length = es.length ∧
      ∀ (i : Nat) (e : Entry), es[i]? = some e →
        answers[i]? = some (((es.take i).foldl Image.replay m).answer e) := by
  induction es generalizing m with
  | nil => exact ⟨[], rfl, rfl, by simp⟩
  | cons e es ih =>
    obtain ⟨answers, hex, hlen, hat⟩ := ih (fun e he => h e (by simp [he])) (Image.replay m e)
    refine ⟨m.answer e :: answers, ?_, by simp [hlen], ?_⟩
    · simp only [execute, apply_eq (h e (by simp)), bind, Except.bind]
      rw [hex]
      rfl
    · intro i e' hi
      cases i with
      | zero =>
        obtain rfl : e = e' := by simpa using hi
        simp
      | succ i => simpa using hat i e' (by simpa using hi)

end Machine

end ReplicatedStore
