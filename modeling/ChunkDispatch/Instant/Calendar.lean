/-!
# The calendar

Days are numbered from the first of January 1970, and dates are those of the Gregorian calendar,
continued into all years before and after.  `Date.dayNumber` numbers a date and `Date.ofDayNumber`
finds the date of a number.
-/

namespace ChunkDispatch

/-- A day of the calendar: year, month from 1 to 12, day of the month from 1. -/
structure Date where
  year : Int
  month : Nat
  day : Nat
deriving DecidableEq, Repr

namespace Date

/-- Whether a year has 366 days. -/
def isLeap (year : Int) : Bool :=
  year % 4 = 0 ∧ (year % 100 ≠ 0 ∨ year % 400 = 0)

/-- The lengths of the months of a year. -/
def monthLengths (year : Int) : List Nat :=
  [31, if isLeap year then 29 else 28, 31, 30, 31, 30, 31, 31, 30, 31, 30, 31]

/-- The number of days from the first day of the year 0 to the first day of `year`. -/
def yearStart (year : Int) : Int :=
  365 * year + (year + 3) / 4 - (year + 99) / 100 + (year + 399) / 400

/-- The number of days from the first day of the year 0 to the first day of 1970. -/
def epoch : Int := 719528

/-- Whether the date is a day of the calendar. -/
def isValid (d : Date) : Bool :=
  1 ≤ d.month ∧ d.month ≤ 12 ∧ 1 ≤ d.day ∧ d.day ≤ (monthLengths d.year).getD (d.month - 1) 0

/-- The days of the first `n` of some months of the given lengths. -/
def daysInMonths : List Nat → Nat → Nat
  | [], _ => 0
  | _ :: _, 0 => 0
  | length :: rest, n + 1 => length + daysInMonths rest n

/-- The number of a day. -/
def dayNumber (d : Date) : Int :=
  yearStart d.year + daysInMonths (monthLengths d.year) (d.month - 1) + (d.day - 1) - epoch

/-- The place of the day `n` of a year, counted from 0, among months of the given lengths. -/
def placeInMonths : List Nat → Nat → Nat × Nat
  | [], n => (0, n)
  | length :: rest, n =>
    if n < length then (0, n)
    else
      let (month, day) := placeInMonths rest (n - length)
      (month + 1, day)

/-- The year which the day `n` after the first day of the year 0 belongs to. -/
def yearOf (n : Int) : Int :=
  let guess := 400 * n / 146097
  if yearStart (guess + 1) ≤ n then guess + 1
  else if n < yearStart guess then guess - 1
  else guess

/-- The date of the day with a number. -/
def ofDayNumber (n : Int) : Date :=
  let days := n + epoch
  let year := yearOf days
  let (month, day) := placeInMonths (monthLengths year) (days - yearStart year).toNat
  ⟨year, month + 1, day + 1⟩

/-- A day belongs to the year `yearOf` gives. -/
theorem yearStart_yearOf_le (n : Int) :
  yearStart (yearOf n) ≤ n ∧ n < yearStart (yearOf n + 1)
  := by
  simp only [yearOf]
  split
  · simp only [yearStart] at *
    omega
  · split
    · rw [Int.sub_add_cancel]
      simp only [yearStart] at *
      omega
    · simp only [yearStart] at *
      omega

end Date

end ChunkDispatch
