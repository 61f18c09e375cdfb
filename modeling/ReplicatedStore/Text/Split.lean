/-!
# Splitting

A list cut at the occurrences of a separator.

* `splitOn_of_notMem`: without a separator there is one part.
* `splitOn_append`: what stands before the first separator is the first part.
-/
namespace ReplicatedStore

variable {α : Type} [DecidableEq α]

/-- The stretches between the occurrences of a separator. -/
def splitOn (sep : α) : List α → List (List α)
  | [] => [[]]
  | a :: r =>
    if a = sep then [] :: splitOn sep r
    else
      match splitOn sep r with
      | part :: parts => (a :: part) :: parts
      | [] => [[a]]

/-- What stands before and after the first occurrence of a separator. -/
def splitOnce? (sep : α) : List α → Option (List α × List α)
  | [] => none
  | a :: r => if a = sep then some ([], r) else (splitOnce? sep r).map fun (x, y) => (a :: x, y)

theorem splitOn_of_notMem {sep : α} {l : List α} (h : sep ∉ l) : splitOn sep l = [l] := by
  induction l with
  | nil => rfl
  | cons a r ih =>
    simp only [List.mem_cons, not_or] at h
    simp [splitOn, ih h.2, Ne.symm h.1]

theorem splitOn_append {sep : α} {l : List α} (h : sep ∉ l) (r : List α) :
    splitOn sep (l ++ sep :: r) = l :: splitOn sep r := by
  induction l with
  | nil => simp [splitOn]
  | cons a l ih =>
    simp only [List.mem_cons, not_or] at h
    simp [splitOn, ih h.2, Ne.symm h.1]

end ReplicatedStore
