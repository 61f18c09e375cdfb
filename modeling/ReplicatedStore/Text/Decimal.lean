import ReplicatedStore.Word
/-!
# Decimal numerals

A natural is written with the fewest decimal digits. A numeral is read with an optional plus sign
and any number of leading zeros.

* `read?_write`: a written word is read back.
-/
namespace ReplicatedStore.Decimal

/-- The digits of a natural, most significant first, without leading zeros. -/
def digits (n : Nat) : List Char := Nat.toDigits 10 n

/-- The numeral of a natural. -/
def write (n : Nat) : String := String.ofList (digits n)

/-- The value of a list of digits. -/
def value (ds : List Char) : Nat := Nat.ofDigitChars 10 ds 0

/-- Whether a character is one of the ten ASCII digits. -/
def isDigit (c : Char) : Bool := c.isDigit

/-- Read digits to the end; the value has to be a word. -/
def readDigits? (ds : List Char) : Option Nat :=
  if ds.isEmpty || !ds.all isDigit then none
  else if value ds ≤ maxWord then some (value ds) else none

/-- Read a word: digits to the end, after at most one plus sign. -/
def read? (s : String) : Option Nat :=
  match s.toList with
  | '+' :: ds => readDigits? ds
  | ds => readDigits? ds

theorem value_digits (n : Nat) : value (digits n) = n :=
  Nat.ofDigitChars_ten_toDigits

theorem isDigit_of_mem_digits {n : Nat} {c : Char} (h : c ∈ digits n) : isDigit c = true :=
  Nat.isDigit_of_mem_toDigits (by decide) (by decide) h

theorem digits_ne_nil (n : Nat) : digits n ≠ [] := Nat.toDigits_ne_nil

theorem readDigits?_digits {n : Nat} (h : n ≤ maxWord) : readDigits? (digits n) = some n := by
  have hall : (digits n).all isDigit = true := List.all_eq_true.2 fun _ => isDigit_of_mem_digits
  simp [readDigits?, digits_ne_nil, hall, value_digits, h]

theorem read?_write {n : Nat} (h : n ≤ maxWord) : read? (write n) = some n := by
  have hplus : ∀ ds, digits n ≠ '+' :: ds := fun ds hd => by
    have := isDigit_of_mem_digits (n := n) (c := '+') (by simp [hd])
    exact absurd this (by decide)
  rw [read?, write, String.toList_ofList]
  split
  · rename_i ds hd
    exact absurd hd (hplus ds)
  · exact readDigits?_digits h

end ReplicatedStore.Decimal
