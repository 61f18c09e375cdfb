import Mathlib.Data.List.TakeWhile
import ReplicatedStore.Text.Blank
import ReplicatedStore.Text.Decimal
import ReplicatedStore.Text.Split
/-!
# Pieces of text

What splitting, trimming and reading a numeral give, said without the way it is done: the parts of a
list are the lists without a separator that give it when they are joined (`splitOn_eq_iff`), what is
left of a text has no blanks at its ends and only blanks around it (`Blank.trim_eq_iff`), and a word
is read of its digits, perhaps after a plus sign (`Decimal.read?_eq_some_iff`).
-/
namespace ReplicatedStore

/-! ## Splitting -/

section Splitting

variable {α : Type} [DecidableEq α] {sep : α}

/-- The stretches are those that the library cuts out. -/
theorem splitOn_eq (sep : α) (l : List α) : splitOn sep l = l.splitOn sep := by
  induction l with
  | nil => rfl
  | cons a r ih =>
    rw [splitOn, List.splitOn_cons_eq_if_modifyHead, ih]
    by_cases heq : a = sep
    · rw [if_pos heq, if_pos (beq_iff_eq.2 heq)]
    · rw [if_neg heq, if_neg (mt beq_iff_eq.1 heq)]
      cases hparts : r.splitOn sep with
      | nil => exact absurd hparts (List.splitOn_ne_nil sep r)
      | cons first parts => rfl

theorem notMem_of_mem_splitOn {l part : List α} (h : part ∈ splitOn sep l) : sep ∉ part := by
  induction l generalizing part with
  | nil =>
    obtain rfl := List.mem_singleton.1 h
    exact List.not_mem_nil
  | cons a r ih =>
    rw [splitOn] at h
    split at h
    · rcases List.mem_cons.1 h with rfl | h
      · exact List.not_mem_nil
      · exact ih h
    · next hne =>
      split at h
      · next first parts hparts =>
        rcases List.mem_cons.1 h with rfl | h
        · have hfirst := ih (hparts ▸ List.mem_cons_self)
          exact List.not_mem_cons_of_ne_of_not_mem (Ne.symm hne) hfirst
        · exact ih (hparts ▸ List.mem_cons_of_mem _ h)
      · next hnil =>
        rw [splitOn_eq] at hnil
        exact absurd hnil (List.splitOn_ne_nil sep r)

/-- The parts of a list are the lists without a separator that give it when they are joined. -/
theorem splitOn_eq_iff {l : List α} {parts : List (List α)} : splitOn sep l = parts ↔
    parts ≠ [] ∧ (∀ part ∈ parts, sep ∉ part) ∧ [sep].intercalate parts = l := by
  constructor
  · rintro rfl
    refine ⟨?_, fun _ => notMem_of_mem_splitOn, ?_⟩
    · rw [splitOn_eq]
      exact List.splitOn_ne_nil sep l
    · rw [splitOn_eq]
      exact List.intercalate_splitOn sep
  · rintro ⟨hne, apart, rfl⟩
    rw [splitOn_eq]
    exact List.splitOn_intercalate sep apart hne

theorem splitOnce?_eq_none_iff {l : List α} : splitOnce? sep l = none ↔ sep ∉ l := by
  induction l with
  | nil => exact iff_of_true rfl List.not_mem_nil
  | cons a r ih =>
    rw [splitOnce?, List.mem_cons, not_or]
    split
    · next heq => exact iff_of_false nofun fun h => h.1 heq.symm
    · next hne => rw [Option.map_eq_none_iff, ih, and_iff_right (Ne.symm hne)]

/-- The cut is at the first separator. -/
theorem splitOnce?_eq_some_iff {l x y : List α} :
    splitOnce? sep l = some (x, y) ↔ l = x ++ sep :: y ∧ sep ∉ x := by
  induction l generalizing x with
  | nil => simp [splitOnce?]
  | cons a r ih =>
    rw [splitOnce?]
    split
    · next heq =>
      subst heq
      constructor
      · intro h
        cases h
        exact ⟨rfl, List.not_mem_nil⟩
      · rintro ⟨hl, hx⟩
        cases x with
        | nil =>
          cases hl
          rfl
        | cons b x =>
          obtain ⟨rfl, -⟩ := List.cons.inj hl
          exact absurd List.mem_cons_self hx
    · next hne =>
      rw [Option.map_eq_some_iff]
      constructor
      · rintro ⟨⟨x', y'⟩, hcut, heq⟩
        cases heq
        obtain ⟨rfl, hx⟩ := ih.1 hcut
        exact ⟨rfl, List.not_mem_cons_of_ne_of_not_mem (Ne.symm hne) hx⟩
      · rintro ⟨hl, hx⟩
        cases x with
        | nil => exact absurd (List.cons.inj hl).1 hne
        | cons b x =>
          obtain ⟨rfl, hr⟩ := List.cons.inj hl
          exact ⟨(x, y), ih.2 ⟨hr, fun h => hx (List.mem_cons_of_mem _ h)⟩, rfl⟩

end Splitting

/-! ## Blanks -/

namespace Blank

variable {cs text core : List Char}

/-- Nothing but blanks. -/
def Blanks (cs : List Char) : Prop := ∀ c ∈ cs, isBlank c = true

instance (cs : List Char) : Decidable (Blanks cs) :=
  inferInstanceAs (Decidable (∀ c ∈ cs, isBlank c = true))

theorem Blanks.notMem (h : Blanks cs) {c : Char} (hc : isBlank c = false) : c ∉ cs :=
  fun hm => Bool.noConfusion (hc.symm.trans (h c hm))

/-- No blanks at the ends. -/
structure Trimmed (cs : List Char) : Prop where
  first : ∀ c ∈ cs.head?, isBlank c = false
  last : ∀ c ∈ cs.getLast?, isBlank c = false

/-- What is left of a text without the blanks at its ends. -/
structure Trims (text core : List Char) : Prop where
  trimmed : Trimmed core
  cut : ∃ front back, Blanks front ∧ Blanks back ∧ text = front ++ core ++ back

theorem dropWhile_of_head? (h : ∀ c ∈ cs.head?, isBlank c = false) :
    cs.dropWhile isBlank = cs := by
  cases cs with
  | nil => rfl
  | cons c cs => rw [List.dropWhile_cons_of_neg (by simp [h c rfl])]

theorem head?_dropWhile {c : Char} (h : c ∈ (cs.dropWhile isBlank).head?) :
    isBlank c = false := by
  have hnot := List.head?_dropWhile_not isBlank cs
  rw [Option.mem_def.1 h] at hnot
  exact hnot

/-- **What a text is without the blanks at its ends.** -/
theorem trim_eq_iff : trim text = core ↔ Trims text core := by
  constructor
  · rintro rfl
    have hleft : text.takeWhile isBlank ++ trimLeft text = text := List.takeWhile_append_dropWhile
    have hright : trim text ++ ((trimLeft text).reverse.takeWhile isBlank).reverse =
        trimLeft text := by
      rw [trim, trimRight, ← List.reverse_append, List.takeWhile_append_dropWhile,
        List.reverse_reverse]
    refine ⟨⟨fun c hc => ?_, fun c hc => ?_⟩, text.takeWhile isBlank,
      ((trimLeft text).reverse.takeWhile isBlank).reverse, ?_, ?_, ?_⟩
    · have hhead : c ∈ (text.dropWhile isBlank).head? := by
        show c ∈ (trimLeft text).head?
        rw [← hright, List.head?_append, Option.mem_def.1 hc]
        rfl
      exact head?_dropWhile hhead
    · rw [trim, trimRight, List.getLast?_reverse] at hc
      exact head?_dropWhile hc
    · exact fun c hc => List.mem_takeWhile_imp hc
    · exact fun c hc => List.mem_takeWhile_imp (List.mem_reverse.1 hc)
    · rw [List.append_assoc, hright, hleft]
  · rintro ⟨⟨hfirst, hlast⟩, front, back, hfront, hback, rfl⟩
    have hdrop : (core ++ back).dropWhile isBlank = core ++ back ∨
        core = [] ∧ (core ++ back).dropWhile isBlank = [] := by
      cases core with
      | nil => exact .inr ⟨rfl, List.dropWhile_eq_nil_iff.2 hback⟩
      | cons c core => exact .inl (dropWhile_of_head? hfirst)
    rw [trim, trimLeft, List.append_assoc, List.dropWhile_append_of_pos hfront]
    rcases hdrop with hdrop | ⟨rfl, hdrop⟩
    · rw [hdrop, trimRight, List.reverse_append,
        List.dropWhile_append_of_pos fun c hc => hback c (List.mem_reverse.1 hc),
        dropWhile_of_head? fun c hc => hlast c (List.head?_reverse ▸ hc), List.reverse_reverse]
    · rw [hdrop]
      rfl

theorem trims_trim (text : List Char) : Trims text (trim text) := trim_eq_iff.1 rfl

theorem trim_eq_nil_iff : trim text = [] ↔ Blanks text := by
  rw [trim_eq_iff]
  constructor
  · rintro ⟨-, front, back, hfront, hback, rfl⟩ c hc
    rw [List.append_nil] at hc
    exact (List.mem_append.1 hc).elim (hfront c) (hback c)
  · exact fun h => ⟨⟨nofun, nofun⟩, text, [], h, nofun, by simp⟩

theorem Trims.mem_iff (h : Trims text core) {c : Char} (hc : isBlank c = false) :
    c ∈ core ↔ c ∈ text := by
  obtain ⟨-, front, back, hfront, hback, rfl⟩ := h
  simp [hfront.notMem hc, hback.notMem hc]

theorem Trims.unique {core' : List Char} (h : Trims text core) (h' : Trims text core') :
    core = core' := (trim_eq_iff.2 h).symm.trans (trim_eq_iff.2 h')

/-- Something is left of a text, or it is blank. -/
theorem blanks_or_trims (text : List Char) :
    Blanks text ∨ ∃ core, Trims text core ∧ core ≠ [] := by
  by_cases h : trim text = []
  · exact .inl (trim_eq_nil_iff.1 h)
  · exact .inr ⟨_, trims_trim text, h⟩

theorem Trims.not_blanks (h : Trims text core) (filled : core ≠ []) : ¬ Blanks text := fun hb =>
  filled ((trim_eq_iff.2 h).symm.trans (trim_eq_nil_iff.2 hb))

end Blank

/-! ## Numerals -/

namespace Decimal

/-- A word in decimal digits, perhaps after a plus sign. -/
def Numeral (cs : List Char) (n : Nat) : Prop :=
  ∃ ds, (cs = ds ∨ cs = '+' :: ds) ∧ ds ≠ [] ∧ (∀ c ∈ ds, isDigit c = true) ∧ value ds = n ∧
    n ≤ maxWord

theorem readDigits?_eq_some_iff {ds : List Char} {n : Nat} : readDigits? ds = some n ↔
    ds ≠ [] ∧ (∀ c ∈ ds, isDigit c = true) ∧ value ds = n ∧ n ≤ maxWord := by
  unfold readDigits?
  split
  · next hbad =>
    refine iff_of_false nofun fun h => ?_
    obtain ⟨hne, hdigits, -⟩ := h
    simp [hne, List.all_eq_true.2 hdigits] at hbad
  · next hgood =>
    simp only [Bool.or_eq_true, List.isEmpty_iff, Bool.not_eq_true', not_or, Bool.not_eq_false,
      List.all_eq_true] at hgood
    rw [and_iff_right hgood.1, and_iff_right hgood.2]
    split
    · next hle =>
      rw [Option.some.injEq]
      exact ⟨fun h => ⟨h, h ▸ hle⟩, fun h => h.1⟩
    · next hgt => exact iff_of_false nofun fun h => hgt (h.1 ▸ h.2)

/-- **What is read as a word.** -/
theorem read?_eq_some_iff {cs : List Char} {n : Nat} :
    read? (String.ofList cs) = some n ↔ Numeral cs n := by
  have hplus : isDigit '+' = false := by decide
  rw [read?, String.toList_ofList]
  split
  · next ds =>
    rw [readDigits?_eq_some_iff]
    refine ⟨fun h => ⟨ds, .inr rfl, h⟩, ?_⟩
    rintro ⟨ds', rfl | heq, hne, hdigits, hrest⟩
    · exact Bool.noConfusion (hplus.symm.trans (hdigits '+' List.mem_cons_self))
    · cases heq
      exact ⟨hne, hdigits, hrest⟩
  · next hother =>
    rw [readDigits?_eq_some_iff]
    refine ⟨fun h => ⟨cs, .inl rfl, h⟩, ?_⟩
    rintro ⟨ds, rfl | heq, h⟩
    · exact h
    · exact absurd heq (hother ds)

end Decimal

end ReplicatedStore
