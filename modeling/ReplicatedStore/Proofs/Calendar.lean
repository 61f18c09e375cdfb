import ReplicatedStore.Time.Calendar
/-!
# Days and their numbers

An era of 400 years falls into centuries, cycles of four years and years, all of which end with
their leap day if they have one (`Calendar.Parts`). From its parts the date of a day number is read
off (`Calendar.Parts.ofNumber_eq`), and with it:

* `Calendar.Date.number_ofNumber`: a number is the number of its date.
* `Calendar.Date.isValid_ofNumber`: between the first and the last day of the calendar that date is
  a day of the calendar.
-/
namespace ReplicatedStore.Calendar

/-- The year of a 400-year era, counted from March, that a day of the era is in. -/
def yearOfEra (doe : Int) : Int := (doe - doe / 1460 + doe / 36524 - doe / 146096) / 365

/-- The day of that year. -/
def dayOfYear (doe : Int) : Int :=
  doe - (365 * yearOfEra doe + yearOfEra doe / 4 - yearOfEra doe / 100)

/-- Day `doe` of an era is day `d` of year `y` of the four-year cycle `q` of century `c`. -/
structure Parts (doe c q y d : Int) : Prop where
  century : 0 ≤ c ∧ c ≤ 3
  cycle : 0 ≤ q ∧ q ≤ 24
  year : 0 ≤ y ∧ y ≤ 3
  day : 0 ≤ d ∧ d ≤ 365
  leap : d = 365 → y = 3 ∧ (q < 24 ∨ c = 3)
  sum : doe = 36524 * c + 1461 * q + 365 * y + d

theorem exists_parts {doe : Int} (h0 : 0 ≤ doe) (h1 : doe < 146097) :
    ∃ c q y d, Parts doe c q y d := by
  by_cases hlast : doe = 146096
  · exact ⟨3, 24, 3, 365, by omega, by omega, by omega, by omega, by omega, by omega⟩
  generalize hc : doe / 36524 = c
  generalize hr : doe % 36524 = r
  generalize hq : r / 1461 = q
  generalize hs : r % 1461 = s
  by_cases hleap : s = 1460
  · exact ⟨c, q, 3, 365, by omega, by omega, by omega, by omega, by omega, by omega⟩
  · exact ⟨c, q, s / 365, s % 365, by omega, by omega, by omega, by omega, by omega, by omega⟩

theorem exists_parts_of_number (n : Int) : ∃ c q y d, Parts ((n + epoch) % 146097) c q y d :=
  exists_parts (by omega) (by omega)

theorem Parts.yearOfEra_eq {doe c q y d : Int} (h : Parts doe c q y d) :
    yearOfEra doe = 100 * c + 4 * q + y := by
  obtain ⟨⟨hc0, hc1⟩, ⟨hq0, hq1⟩, ⟨hy0, hy1⟩, ⟨hd0, hd1⟩, hleap, rfl⟩ := h
  unfold yearOfEra
  generalize he : (36524 * c + 1461 * q + 365 * y + d) / 1460 = e
  generalize hf : (36524 * c + 1461 * q + 365 * y + d) / 36524 = f
  generalize hg : (36524 * c + 1461 * q + 365 * y + d) / 146096 = g
  obtain rfl | rfl : e = 25 * c + q ∨ e = 25 * c + q + 1 := by omega
  · omega
  · omega

theorem Parts.dayOfYear_eq {doe c q y d : Int} (h : Parts doe c q y d) : dayOfYear doe = d := by
  unfold dayOfYear
  rw [h.yearOfEra_eq]
  obtain ⟨⟨hc0, hc1⟩, ⟨hq0, hq1⟩, ⟨hy0, hy1⟩, ⟨hd0, hd1⟩, hleap, rfl⟩ := h
  omega


/-- What a day of an era makes of a date. -/
theorem Parts.ofNumber_eq {n c q y d : Int} (h : Parts ((n + epoch) % 146097) c q y d) :
    Date.ofNumber n =
      let m := (5 * d + 2) / 153
      let month := if m < 10 then m + 3 else m - 9
      let year := 100 * c + 4 * q + y + (n + epoch) / 146097 * 400
      ⟨if month ≤ 2 then year + 1 else year, month.toNat, (d - (153 * m + 2) / 5 + 1).toNat⟩ := by
  rw [← h.yearOfEra_eq]
  conv => rhs; rw [← h.dayOfYear_eq]
  rfl

theorem Date.number_ofNumber (n : Int) : (Date.ofNumber n).number = n := by
  obtain ⟨c, q, y, d, h⟩ := exists_parts_of_number n
  rw [h.ofNumber_eq]
  obtain ⟨⟨hc0, hc1⟩, ⟨hq0, hq1⟩, ⟨hy0, hy1⟩, ⟨hd0, hd1⟩, -, hsum⟩ := h
  have hn := Int.emod_add_mul_ediv (n + epoch) 146097
  rw [hsum] at hn
  generalize (n + epoch) / 146097 = era at hn ⊢
  generalize hm : (5 * d + 2) / 153 = m
  have hday : ((d - (153 * m + 2) / 5 + 1).toNat : Int) = d - (153 * m + 2) / 5 + 1 := by omega
  have hera : (100 * c + 4 * q + y + era * 400) / 400 = era := by omega
  have hyear : (100 * c + 4 * q + y + era * 400) % 400 = 100 * c + 4 * q + y := by omega
  have hleaps : (100 * c + 4 * q + y) / 4 = 25 * c + q := by omega
  have hcenturies : (100 * c + 4 * q + y) / 100 = c := by omega
  by_cases hlate : m < 10
  · have hmonth : ((m + 3).toNat : Int) = m + 3 := by omega
    simp only [Date.number, hlate, if_true, show ¬ m + 3 ≤ 2 by omega,
      show ¬ (m + 3).toNat ≤ 2 by omega, if_false, hmonth, hday, hera, hyear,
      hleaps, hcenturies, Int.add_sub_cancel]
    omega
  · have hmonth : ((m - 9).toNat : Int) = m - 9 := by omega
    simp only [Date.number, hlate, if_false, show m - 9 ≤ 2 by omega,
      show (m - 9).toNat ≤ 2 by omega, if_true, hmonth, hday, hera, hyear,
      hleaps, hcenturies, Int.add_sub_cancel, Int.sub_add_cancel]
    omega

/-- The last day of a year of 366 days is a leap day. -/
theorem Parts.isLeap {doe c q y d : Int} (h : Parts doe c q y d) (hd : d = 365) (era : Int) :
    isLeap (100 * c + 4 * q + y + era * 400 + 1) = true := by
  obtain ⟨rfl, hq⟩ := h.leap hd
  have := h.cycle
  have := h.century
  rw [Calendar.isLeap, decide_eq_true_eq]
  omega

theorem Parts.day_le {n c q y d : Int} (h : Parts ((n + epoch) % 146097) c q y d) :
    (Date.ofNumber n).day ≤ daysInMonth (Date.ofNumber n).year (Date.ofNumber n).month := by
  have hd := h.day
  rw [h.ofNumber_eq]
  generalize hm : (5 * d + 2) / 153 = m
  have hmonth : m = 0 ∨ m = 1 ∨ m = 2 ∨ m = 3 ∨ m = 4 ∨ m = 5 ∨ m = 6 ∨ m = 7 ∨ m = 8 ∨ m = 9 ∨
    m = 10 ∨ m = 11 := by omega
  by_cases hfebruary : m = 11
  · subst hfebruary
    by_cases hlast : d = 365
    · have hleap := h.isLeap hlast ((n + epoch) / 146097)
      simp [daysInMonth, hleap]
      omega
    · simp [daysInMonth]
      split <;> omega
  · rcases hmonth with rfl | rfl | rfl | rfl | rfl | rfl | rfl | rfl | rfl | rfl | rfl | rfl <;>
      simp [daysInMonth] <;> omega

theorem Parts.year_bounds {n c q y d : Int} (h : Parts ((n + epoch) % 146097) c q y d)
    (h0 : (⟨minYear, 1, 1⟩ : Date).number ≤ n) (h1 : n < (⟨maxYear + 1, 1, 1⟩ : Date).number) :
    minYear ≤ (Date.ofNumber n).year ∧ (Date.ofNumber n).year ≤ maxYear := by
  have hmin : (⟨minYear, 1, 1⟩ : Date).number = -96465292 := by decide
  have hmax : (⟨maxYear + 1, 1, 1⟩ : Date).number = 95026237 := by decide
  rw [hmin] at h0
  rw [hmax] at h1
  rw [h.ofNumber_eq]
  obtain ⟨⟨hc0, hc1⟩, ⟨hq0, hq1⟩, ⟨hy0, hy1⟩, ⟨hd0, hd1⟩, -, hsum⟩ := h
  have hn := Int.emod_add_mul_ediv (n + epoch) 146097
  rw [hsum] at hn
  generalize (n + epoch) / 146097 = era at hn ⊢
  simp only [minYear, maxYear, epoch] at hn ⊢
  generalize hm : (5 * d + 2) / 153 = m
  -- the bounds fall into the eras -656 and 655, which settles the century
  obtain hera | hera | hera : era ≤ -656 ∨ -656 < era ∧ era < 655 ∨ 655 ≤ era := by omega
  all_goals
    obtain rfl | rfl | rfl | rfl : c = 0 ∨ c = 1 ∨ c = 2 ∨ c = 3 := by omega
  all_goals split <;> split <;> omega

theorem Date.isValid_ofNumber {n : Int} (h0 : (⟨minYear, 1, 1⟩ : Date).number ≤ n)
    (h1 : n < (⟨maxYear + 1, 1, 1⟩ : Date).number) : (Date.ofNumber n).isValid = true := by
  obtain ⟨c, q, y, d, h⟩ := exists_parts_of_number n
  have hyear := h.year_bounds h0 h1
  have hlast := h.day_le
  have hd := h.day
  have hrest : 1 ≤ (Date.ofNumber n).month ∧ (Date.ofNumber n).month ≤ 12 ∧
      1 ≤ (Date.ofNumber n).day := by
    rw [h.ofNumber_eq]
    simp only
    split <;> omega
  simp [Date.isValid, hyear, hlast, hrest]

end ReplicatedStore.Calendar
