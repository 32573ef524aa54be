import ChunkDispatch.Instant.Calendar

/-!
# Dates and their numbers

The months of a year are as long as the year, so the days of a year fall one by one into its months.
Hence the date of any number is a day of the calendar, and that number is its own
(`Date.dayNumber_ofDayNumber`).
-/

namespace ChunkDispatch.Date

/-- A place among months lies within one of them, after all the days of the months before. -/
theorem placeInMonths_spec (lengths : List Nat) {n : Nat}
    (hn : n < daysInMonths lengths lengths.length) :
  (placeInMonths lengths n).1 < lengths.length ∧
    (placeInMonths lengths n).2 < lengths.getD (placeInMonths lengths n).1 0 ∧
    daysInMonths lengths (placeInMonths lengths n).1 + (placeInMonths lengths n).2 = n
  := by
  induction lengths generalizing n with
  | nil => cases hn
  | cons length rest ih =>
    rw [placeInMonths]
    split
    · rename_i hlt
      exact ⟨Nat.succ_pos _, hlt, Nat.zero_add n⟩
    · rename_i hge
      rw [List.length_cons, daysInMonths] at hn
      obtain ⟨hmonth, hday, hsum⟩ := ih (n := n - length) (by omega)
      refine ⟨Nat.succ_lt_succ hmonth, hday, ?_⟩
      simp only [daysInMonths]
      omega

theorem length_monthLengths (year : Int) :
  (monthLengths year).length = 12
  := rfl

/-- The months and the days of the calendar have two digits at most. -/
theorem le_of_isValid {d : Date} (hd : d.isValid = true) :
  d.month ≤ 12 ∧ d.day ≤ 31
  := by
  obtain ⟨-, hmonth, -, hday⟩ := of_decide_eq_true hd
  refine ⟨hmonth, Nat.le_trans hday ?_⟩
  have hlength : ∀ length ∈ monthLengths d.year, length ≤ 31 := by
    cases hleap : isLeap d.year <;> simp [monthLengths, hleap]
  rw [List.getD_eq_getElem?_getD]
  cases hget : (monthLengths d.year)[d.month - 1]? with
  | none => exact Nat.zero_le 31
  | some length => exact hlength length (List.mem_of_getElem? hget)

/-- The months of a year fill it. -/
theorem daysInMonths_monthLengths (year : Int) :
  (daysInMonths (monthLengths year) 12 : Int) = yearStart (year + 1) - yearStart year
  := by
  have hdays : daysInMonths (monthLengths year) 12 = if isLeap year then 366 else 365 := by
    rw [monthLengths]
    split <;> rfl
  rw [hdays]
  simp only [isLeap, decide_eq_true_iff, yearStart]
  split <;> omega

/-- The date of a number is a day of the calendar, and that number is its own. -/
theorem ofDayNumber_spec (n : Int) :
  (ofDayNumber n).isValid = true ∧ dayNumber (ofDayNumber n) = n
  := by
  have hyear := yearStart_yearOf_le (n + epoch)
  have hdays := daysInMonths_monthLengths (yearOf (n + epoch))
  obtain ⟨hmonth, hday, hplace⟩ := placeInMonths_spec (monthLengths (yearOf (n + epoch)))
    (n := (n + epoch - yearStart (yearOf (n + epoch))).toNat)
    (by rw [length_monthLengths]; omega)
  rw [length_monthLengths] at hmonth
  constructor
  · simp only [isValid, ofDayNumber, Nat.add_sub_cancel, decide_eq_true_iff]
    omega
  · simp only [dayNumber, ofDayNumber, Nat.add_sub_cancel]
    omega

theorem isValid_ofDayNumber (n : Int) :
  (ofDayNumber n).isValid = true
  := (ofDayNumber_spec n).1

theorem dayNumber_ofDayNumber (n : Int) :
  dayNumber (ofDayNumber n) = n
  := (ofDayNumber_spec n).2

end ChunkDispatch.Date
