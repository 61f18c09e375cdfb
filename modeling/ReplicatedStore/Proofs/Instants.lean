import ReplicatedStore.Proofs.Calendar
import ReplicatedStore.Time.Instant
/-!
# Instants and their texts

An instant of the calendar is read back from its text (`Instant.read?_write`): its numbers have as
many digits as the reader takes, or something follows that is no digit.
-/
namespace ReplicatedStore

/-- A first step that gives a value is taken. -/
theorem bind_of_eq_some {α β : Type} {x : Option α} {a : α} (h : x = some a) (f : α → Option β) :
    (x >>= f) = f a := by
  rw [h]
  rfl

namespace Instant

/-! ## Numbers -/

theorem isDigit_of_mem_padded {width n : Nat} {c : Char} (h : c ∈ padded width n) :
    Decimal.isDigit c = true := by
  rcases List.mem_append.1 h with h | h
  · rw [List.eq_of_mem_replicate h]
    decide
  · exact Decimal.isDigit_of_mem_digits h

theorem value_padded (width n : Nat) : Decimal.value (padded width n) = n := by
  rw [Decimal.value, padded, Nat.ofDigitChars_append, Nat.ofDigitChars_replicate_zero,
    Nat.mul_zero]
  exact Decimal.value_digits n

/-- A number below the power of ten is padded to the width. -/
theorem length_padded {width n : Nat} (bound : Nat) (hwidth : 0 < width)
    (hbound : Nat.pow 10 width = bound) (h : n < bound) : (padded width n).length = width := by
  subst hbound
  have hdigits : (Decimal.digits n).length ≤ width :=
    (Nat.length_toDigits_le_iff (by decide) hwidth).2 h
  simp only [padded, List.length_append, List.length_replicate]
  omega

theorem exists_digit_cons_of_padded (width n : Nat) :
    ∃ c cs, padded width n = c :: cs ∧ Decimal.isDigit c = true := by
  cases hp : padded width n with
  | nil =>
    have := List.append_eq_nil_iff.1 hp
    exact absurd this.2 (Decimal.digits_ne_nil n)
  | cons c cs => exact ⟨c, cs, rfl, isDigit_of_mem_padded (hp ▸ List.mem_cons_self)⟩

/-- A number is read back if all its digits are taken and no further one follows. -/
theorem readNumber_padded {width n most : Nat} {r : List Char}
    (hmost : (padded width n).length ≤ most)
    (hr : (padded width n).length = most ∨ ∀ c ∈ r.head?, Decimal.isDigit c = false) :
    readNumber most (padded width n ++ r) = some (n, r) := by
  have hrest : (r.take (most - (padded width n).length)).takeWhile Decimal.isDigit = [] := by
    rcases hr with hr | hr
    · rw [hr, Nat.sub_self, List.take_zero, List.takeWhile_nil]
    · cases hk : most - (padded width n).length with
      | zero => rfl
      | succ k =>
        cases r with
        | nil => rfl
        | cons c r => simp [hr c rfl]
  have htake : ((padded width n ++ r).take most).takeWhile Decimal.isDigit = padded width n := by
    rw [List.take_append, List.take_of_length_le hmost,
      List.takeWhile_append_of_pos fun c hc => isDigit_of_mem_padded hc, hrest, List.append_nil]
  obtain ⟨c, cs, hp, -⟩ := exists_digit_cons_of_padded width n
  have hne : (padded width n).isEmpty = false := by rw [hp]; rfl
  simp only [readNumber, htake, hne, Bool.false_eq_true, if_false, List.drop_left, value_padded]

theorem not_blank_of_isDigit {c : Char} (h : Decimal.isDigit c = true) :
    Blank.isBlank c = false := by
  have hrange : 48 ≤ c.toNat ∧ c.toNat ≤ 57 := Char.isDigit_iff_toNat.1 h
  simp [Blank.isBlank, Blank.ranges]
  omega

theorem trimLeft_padded (width n : Nat) (r : List Char) :
    Blank.trimLeft (padded width n ++ r) = padded width n ++ r := by
  obtain ⟨c, cs, hp, hc⟩ := exists_digit_cons_of_padded width n
  rw [hp, List.cons_append, Blank.trimLeft,
    List.dropWhile_cons_of_neg (by simp [not_blank_of_isDigit hc])]

theorem readPart_padded {n : Nat} (h : n < 100) (r : List Char) :
    readPart (padded 2 n ++ r) = some (n, r) := by
  have hlength : (padded 2 n).length = 2 := length_padded 100 (by decide) rfl h
  rw [readPart, trimLeft_padded, readNumber_padded (by omega) (.inl hlength)]

theorem readMark_cons {c : Char} (h : Blank.isBlank c = false) (r : List Char) :
    readMark c (c :: r) = some r := by
  simp [readMark, Blank.trimLeft, h]

/-- A year is read back up to the mark after it. -/
theorem readYear_writeYear (y : Int) (r : List Char) :
    readYear (writeYear y ++ '-' :: r) = some (y, '-' :: r) := by
  have hsigned : ∀ n r', readNumber (padded 4 n ++ '-' :: r').length (padded 4 n ++ '-' :: r') =
      some (n, '-' :: r') := fun n r' => readNumber_padded (by simp) (.inr (by
        rintro c ⟨⟩
        decide))
  unfold writeYear
  split
  · rename_i hy
    have hlength : (padded 4 y.toNat).length = 4 := length_padded 10000 (by decide) rfl (by omega)
    have hread := readNumber_padded (r := '-' :: r) (Nat.le_of_eq hlength) (.inl hlength)
    obtain ⟨c, cs, hp, hc⟩ := exists_digit_cons_of_padded 4 y.toNat
    unfold readYear
    rw [trimLeft_padded]
    rw [hp, List.cons_append] at hread ⊢
    split
    · rename_i he
      cases he
      cases hc
    · rename_i he
      cases he
      cases hc
    · simp [hread, Int.toNat_of_nonneg hy.1]
  · have hsign : ∀ c, Blank.isBlank c = false → ∀ r', Blank.trimLeft (c :: r') = c :: r' :=
      fun c hc r' => by simp [Blank.trimLeft, hc]
    split
    · rw [List.cons_append, readYear, hsign '-' (by decide)]
      simp only [hsigned, Option.map_some]
      congr 2
      omega
    · rw [List.cons_append, readYear, hsign '+' (by decide)]
      simp only [hsigned, Option.map_some]
      congr 2
      omega

/-- Three, six or nine digits of a second are read back. -/
theorem readFraction_padded {width n : Nat} (bound scale : Nat) (hwidth : 0 < width)
    (hnine : width ≤ 9) (hbound : Nat.pow 10 width = bound)
    (hscale : Nat.pow 10 (9 - width) = scale) (hn : n < bound) :
    readFraction ('.' :: padded width n ++ ['Z']) = some (n * scale, ['Z']) := by
  subst hscale
  have hlength : (padded width n).length = width := length_padded bound hwidth hbound hn
  have hread : readNumber 9 (padded width n ++ ['Z']) = some (n, ['Z']) := by
    refine readNumber_padded (by omega) (.inr ?_)
    rintro c ⟨⟩
    decide
  rw [List.cons_append, readFraction, hread]
  simp only [Option.bind_eq_bind, Option.bind_some, List.length_append, hlength,
    List.length_singleton, Nat.add_sub_cancel]
  rfl

theorem readFraction_writeFraction {nano : Nat} (h : nano < 1000000000) :
    readFraction (writeFraction nano ++ ['Z']) = some (nano, ['Z']) := by
  unfold writeFraction
  split
  · rename_i hzero
    rw [hzero]
    rfl
  · split
    · rw [readFraction_padded 1000 1000000 (by decide) (by decide) rfl rfl (by omega)]
      congr 2
      omega
    · split
      · rw [readFraction_padded 1000000 1000 (by decide) (by decide) rfl rfl (by omega)]
        congr 2
        omega
      · rw [readFraction_padded 1000000000 1 (by decide) (by decide) rfl rfl (by omega),
          Nat.mul_one]

/-! ## Texts -/

section

variable {date : Calendar.Date} {hour minute second nano : Nat}

/-- The text of a date and a time of day is read part by part. -/
theorem read?_parts (hdate : date.isValid = true) (hhour : hour < 24) (hminute : minute < 60)
    (hsecond : second ≤ 60) (hnano : nano < 1000000000) :
    read? (String.ofList (writeYear date.year ++ '-' :: padded 2 date.month ++
        '-' :: padded 2 date.day ++ 'T' :: padded 2 hour ++ ':' :: padded 2 minute ++
        ':' :: padded 2 second ++ writeFraction nano ++ ['Z'])) =
      let utc : Int := date.number * 86400 +
        (hour * 3600 + minute * 60 + if second = 60 then 59 else second)
      if inRange utc then some ⟨utc, if second = 60 then nano + 1000000000 else nano⟩
      else none := by
  have hsmall : date.month < 100 ∧ date.day < 100 := by
    simp only [Calendar.Date.isValid, Bool.and_eq_true, decide_eq_true_eq] at hdate
    have := hdate.2
    unfold Calendar.daysInMonth at this
    split at this
    · split at this <;> omega
    · split at this <;> omega
  obtain ⟨hmonth, hday⟩ := hsmall
  have hdash : ∀ r, readMark '-' ('-' :: r) = some r := readMark_cons (by decide)
  have hcolon : ∀ r, readMark ':' (':' :: r) = some r := readMark_cons (by decide)
  have hz : readOffset (Blank.trimLeft ['Z']) = some (0, []) := rfl
  simp only [List.append_assoc, List.cons_append]
  rw [read?, String.toList_ofList]
  refine (bind_of_eq_some (readYear_writeYear _ _) _).trans ?_
  refine (bind_of_eq_some (hdash _) _).trans ?_
  refine (bind_of_eq_some (readPart_padded hmonth _) _).trans ?_
  refine (bind_of_eq_some (hdash _) _).trans ?_
  refine (bind_of_eq_some (readPart_padded hday _) _).trans ?_
  refine (bind_of_eq_some (readPart_padded (by omega) _) _).trans ?_
  refine (bind_of_eq_some (hcolon _) _).trans ?_
  refine (bind_of_eq_some (readPart_padded (by omega) _) _).trans ?_
  refine (bind_of_eq_some (hcolon _) _).trans ?_
  refine (bind_of_eq_some (readPart_padded (by omega) _) _).trans ?_
  refine (bind_of_eq_some (readFraction_writeFraction hnano) _).trans ?_
  refine (bind_of_eq_some hz _).trans ?_
  have hgood : ¬ (!(Blank.trimLeft []).isEmpty || !date.isValid || decide (24 ≤ hour) ||
      decide (60 ≤ minute) || decide (60 < second) ||
      decide (86400 ≤ (0 : Int).natAbs)) = true := by
    simp [Blank.trimLeft, hdate]
    omega
  dsimp only
  rw [if_neg hgood, Int.sub_zero]

end

/-- An instant of the calendar: a leap second only at the end of a minute. -/
structure Fits (t : Instant) : Prop where
  inRange : inRange t.second = true
  nano : t.nano < 1000000000 ∨ t.second % 60 = 59 ∧ t.nano < 2000000000

/-- **An instant is read back from its text.** -/
theorem read?_write {t : Instant} (h : t.Fits) : read? t.write = some t := by
  have hrange := h.inRange
  rw [Instant.inRange, Bool.and_eq_true, decide_eq_true_eq, decide_eq_true_eq] at hrange
  have hvalid := Calendar.Date.isValid_ofNumber (n := t.second / 86400) (by omega) (by omega)
  have hnumber := Calendar.Date.number_ofNumber (t.second / 86400)
  have hclock : ((t.second % 86400).toNat : Int) = t.second % 86400 := by omega
  unfold write
  generalize Calendar.Date.ofNumber (t.second / 86400) = date at hvalid hnumber ⊢
  generalize (t.second % 86400).toNat = clock at hclock ⊢
  simp only
  by_cases hleap : 1000000000 ≤ t.nano
  · have hlast : t.second % 60 = 59 ∧ t.nano < 2000000000 := h.nano.resolve_left (by omega)
    have hsecond : clock % 60 + 1 = 60 := by omega
    have hutc : date.number * 86400 +
        (((clock / 3600 : Nat) : Int) * 3600 + ((clock / 60 % 60 : Nat) : Int) * 60 + 59) =
          t.second := by omega
    simp only [hleap, if_true]
    rw [read?_parts hvalid (by omega) (by omega) (by omega) (by omega)]
    simp only [hsecond, if_true, Int.cast_ofNat_Int, hutc, h.inRange]
    rw [Nat.sub_add_cancel hleap]
  · have hsecond : clock % 60 ≠ 60 := by omega
    have hutc : date.number * 86400 +
        (((clock / 3600 : Nat) : Int) * 3600 + ((clock / 60 % 60 : Nat) : Int) * 60 +
          ((clock % 60 : Nat) : Int)) = t.second := by omega
    simp only [hleap, if_false, Nat.add_zero]
    rw [read?_parts hvalid (by omega) (by omega) (by omega) (by omega)]
    simp only [hsecond, if_false, hutc, h.inRange, if_true]

end Instant

end ReplicatedStore
