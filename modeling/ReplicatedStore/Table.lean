/-!
# Tables

A finite map kept as a list of bindings in strictly ascending key order, so that two tables with
the same bindings are the same value and the order of the answers is the order of the keys.

The view of a table is `get?`.

* `get?_insert_self`, `get?_insert_of_ne`, `get?_erase_self`, `get?_erase_of_ne`: what each
  operation does to the view.
-/
namespace ReplicatedStore

variable {κ ν : Type}

namespace Bindings

variable [Ord κ]

/-- Bindings in strictly ascending key order. -/
def Sorted (l : List (κ × ν)) : Prop :=
  l.Pairwise fun a b => compare a.1 b.1 = .lt

/-- Put a binding in its place, over an earlier one of the same key. -/
def insert (k : κ) (v : ν) : List (κ × ν) → List (κ × ν)
  | [] => [(k, v)]
  | (k', v') :: r =>
    match compare k k' with
    | .lt => (k, v) :: (k', v') :: r
    | .eq => (k, v) :: r
    | .gt => (k', v') :: insert k v r

/-- Drop the binding of a key. -/
def erase (k : κ) : List (κ × ν) → List (κ × ν)
  | [] => []
  | (k', v) :: r => if compare k k' = .eq then erase k r else (k', v) :: erase k r

/-- The value bound to a key. -/
def get? (k : κ) : List (κ × ν) → Option ν
  | [] => none
  | (k', v) :: r => if compare k k' = .eq then some v else get? k r

theorem mem_insert {k : κ} {v : ν} {b : κ × ν} {l : List (κ × ν)} (h : b ∈ insert k v l) :
    b = (k, v) ∨ b ∈ l := by
  induction l with
  | nil => simp [insert] at h; exact .inl h
  | cons a r ih =>
    obtain ⟨k', v'⟩ := a
    rw [insert] at h
    split at h <;> simp only [List.mem_cons] at h ⊢
    · exact h
    · rcases h with h | h
      · exact .inl h
      · exact .inr (.inr h)
    · rcases h with h | h
      · exact .inr (.inl h)
      · rcases ih h with h | h
        · exact .inl h
        · exact .inr (.inr h)

theorem erase_sublist (k : κ) (l : List (κ × ν)) : (erase k l).Sublist l := by
  induction l with
  | nil => exact .slnil
  | cons a r ih =>
    rw [erase]
    split
    · exact ih.cons _
    · exact ih.cons_cons _

theorem sorted_erase {k : κ} {l : List (κ × ν)} (h : Sorted l) : Sorted (erase k l) :=
  List.Pairwise.sublist (erase_sublist k l) h

theorem sorted_insert [Std.TransOrd κ] {k : κ} {v : ν} {l : List (κ × ν)} (h : Sorted l) :
    Sorted (insert k v l) := by
  induction l with
  | nil => simp [insert, Sorted]
  | cons a r ih =>
    obtain ⟨k', v'⟩ := a
    obtain ⟨hr, hs⟩ := List.pairwise_cons.1 h
    rw [insert]
    split
    · rename_i hlt
      refine List.pairwise_cons.2 ⟨?_, h⟩
      intro b hb
      rcases List.mem_cons.1 hb with rfl | hb
      · exact hlt
      · exact Std.TransCmp.lt_trans hlt (hr b hb)
    · rename_i heq
      refine List.pairwise_cons.2 ⟨fun b hb => ?_, hs⟩
      exact Std.TransCmp.lt_of_eq_of_lt heq (hr b hb)
    · rename_i hgt
      refine List.pairwise_cons.2 ⟨?_, ih hs⟩
      intro b hb
      rcases mem_insert hb with rfl | hb
      · exact Std.OrientedCmp.lt_of_gt hgt
      · exact hr b hb

end Bindings

/-- A finite map in ascending key order. -/
structure Table (κ ν : Type) [Ord κ] where
  /-- The bindings, smallest key first. -/
  entries : List (κ × ν)
  sorted : Bindings.Sorted entries
  deriving DecidableEq, Repr

namespace Table

variable [Ord κ]

/-- The table without bindings. -/
def empty : Table κ ν := ⟨[], .nil⟩

instance : Inhabited (Table κ ν) := ⟨empty⟩

/-- The value bound to a key. -/
def get? (t : Table κ ν) (k : κ) : Option ν := Bindings.get? k t.entries

/-- Whether a key is bound. -/
def contains (t : Table κ ν) (k : κ) : Bool := (t.get? k).isSome

/-- Bind a key, over an earlier binding of it. -/
def insert [Std.TransOrd κ] (t : Table κ ν) (k : κ) (v : ν) : Table κ ν :=
  ⟨Bindings.insert k v t.entries, Bindings.sorted_insert t.sorted⟩

/-- Drop the binding of a key. -/
def erase (t : Table κ ν) (k : κ) : Table κ ν :=
  ⟨Bindings.erase k t.entries, Bindings.sorted_erase t.sorted⟩

/-- The keys, smallest first. -/
def keys (t : Table κ ν) : List κ := t.entries.map (·.1)

/-- The values, in the order of their keys. -/
def values (t : Table κ ν) : List ν := t.entries.map (·.2)

/-- The number of bindings. -/
def size (t : Table κ ν) : Nat := t.entries.length

/-- Whether nothing is bound. -/
def isEmpty (t : Table κ ν) : Bool := t.entries.isEmpty

/-- The bindings of a list; of two with one key the later one counts. -/
def ofList [Std.TransOrd κ] (l : List (κ × ν)) : Table κ ν :=
  l.foldl (fun t b => t.insert b.1 b.2) empty

/-! ## The view -/

theorem get?_empty (k : κ) : (empty : Table κ ν).get? k = none := rfl

theorem get?_erase_self (t : Table κ ν) (k : κ) : (t.erase k).get? k = none := by
  obtain ⟨l, hl⟩ := t
  show Bindings.get? k (Bindings.erase k l) = none
  clear hl
  induction l with
  | nil => rfl
  | cons a r ih =>
    rw [Bindings.erase]
    split
    · exact ih
    · rename_i hk
      simpa [hk, Bindings.get?] using ih

theorem get?_erase_of_ne [Std.LawfulEqOrd κ] (t : Table κ ν) {k k' : κ} (h : k' ≠ k) :
    (t.erase k).get? k' = t.get? k' := by
  obtain ⟨l, hl⟩ := t
  show Bindings.get? k' (Bindings.erase k l) = Bindings.get? k' l
  clear hl
  induction l with
  | nil => rfl
  | cons a r ih =>
    rw [Bindings.erase]
    split
    · rename_i hk
      have hne : compare k' a.1 ≠ .eq := fun e =>
        h ((Std.LawfulEqOrd.eq_of_compare e).trans (Std.LawfulEqOrd.eq_of_compare hk).symm)
      simpa [hne, Bindings.get?] using ih
    · simp [Bindings.get?, ih]

theorem get?_insert_self [Std.TransOrd κ] [Std.LawfulEqOrd κ] (t : Table κ ν) (k : κ) (v : ν) :
    (t.insert k v).get? k = some v := by
  obtain ⟨l, hl⟩ := t
  show Bindings.get? k (Bindings.insert k v l) = some v
  have hk : compare k k = .eq := Std.ReflCmp.compare_self
  clear hl
  induction l with
  | nil => simp [Bindings.insert, Bindings.get?]
  | cons a r ih =>
    obtain ⟨k', v'⟩ := a
    rw [Bindings.insert]
    split
    · simp [Bindings.get?]
    · simp [Bindings.get?]
    · rename_i hgt
      simpa [Bindings.get?, hgt] using ih

theorem get?_insert_of_ne [Std.TransOrd κ] [Std.LawfulEqOrd κ] (t : Table κ ν) {k k' : κ} (v : ν)
    (h : k' ≠ k) : (t.insert k v).get? k' = t.get? k' := by
  obtain ⟨l, hl⟩ := t
  show Bindings.get? k' (Bindings.insert k v l) = Bindings.get? k' l
  have hne : compare k' k ≠ .eq := fun e => h (Std.LawfulEqOrd.eq_of_compare e)
  clear hl
  induction l with
  | nil => simp [Bindings.insert, Bindings.get?, hne]
  | cons a r ih =>
    obtain ⟨k₁, v₁⟩ := a
    rw [Bindings.insert]
    split
    · simp [Bindings.get?, hne]
    · rename_i heq
      obtain rfl : k = k₁ := Std.LawfulEqOrd.eq_of_compare heq
      simp [Bindings.get?, hne]
    · simp [Bindings.get?, ih]

end Table

end ReplicatedStore
