import ChunkDispatch.Instant.Rfc3339
import ChunkDispatch.Proofs.Calendar
import ChunkDispatch.Proofs.Numeral

/-!
# Instants and their texts

An instant is *readable* if its day lies in the calendar in which instants are read and it lies in a
leap second only where one may be, at the end of a minute.  A readable instant is read back from its
text (`parse?_render`), and what is read from any text is readable (`readable_of_parse?`).
-/

namespace ChunkDispatch.Instant

open Text Text.Integer

/-- Some text stands for the instant. -/
structure Readable (t : Instant) : Prop where
  inCalendar : inCalendar (t.second / 86400) = true
  leap : 1000000000 ≤ t.nano.val → t.second % 60 = 59

/-! ### Parts of a text -/

/-- Digits are read as far as the width allows, or up to the first character which is none. -/
theorem readDigits?_append {ds : List Char} {n width : Nat} (hds : IsNumeral ds n)
    (rest : List Char)
    (hwidth : ds.length = width ∨ ds.length ≤ width ∧ ∀ c ∈ rest.head?, c.isDigit = false) :
  readDigits? width (ds ++ rest) = some (ds, rest)
  := by
  have htake : ((ds ++ rest).take width).takeWhile Char.isDigit = ds := by
    rcases hwidth with rfl | ⟨hle, hrest⟩
    · rw [List.take_left, List.takeWhile_eq_self_iff]
      exact hds.isDigit
    · rw [List.take_append, List.take_of_length_le hle, hds.takeWhile_append]
      intro c hc
      rw [List.head?_take] at hc
      split at hc
      · cases hc
      · exact hrest c hc
  have hnonempty : ds.isEmpty = false := by simpa using hds.ne_nil
  simp only [readDigits?, htake, hnonempty, List.drop_left]
  rfl

theorem not_isDigit_head? {c : Char} (hc : c.isDigit = false) (rest : List Char) :
  ∀ c' ∈ (c :: rest).head?, c'.isDigit = false
  := by
  intro c' hc'
  rwa [← Option.some.inj hc']

theorem dropBlanks_cons_of_isDigit {c : Char} (hc : c.isDigit = true) (cs : List Char) :
  dropBlanks (c :: cs) = c :: cs
  := by
  apply List.dropWhile_cons_of_neg
  rw [isBlank_of_isDigit hc]
  exact Bool.false_ne_true

theorem exists_padded_eq_cons (width n : Nat) :
  ∃ c cs, (padded width n).toList = c :: cs ∧ c.isDigit = true
  := by
  have h := isNumeral_padded width n
  obtain ⟨c, cs, heq⟩ := List.exists_cons_of_ne_nil h.ne_nil
  exact ⟨c, cs, heq, h.isDigit c (heq ▸ List.mem_cons_self)⟩

theorem dropBlanks_padded (width n : Nat) (rest : List Char) :
  dropBlanks ((padded width n).toList ++ rest) = (padded width n).toList ++ rest
  := by
  obtain ⟨c, cs, heq, hc⟩ := exists_padded_eq_cons width n
  rw [heq, List.cons_append, dropBlanks_cons_of_isDigit hc]

/-- A number is read from as many digits as are looked for. -/
theorem readNumber?_padded {width n : Nat} (hwidth : 0 < width) (hn : n < 10 ^ width)
    (rest : List Char) :
  readNumber? width ((padded width n).toList ++ rest) = some (n, rest)
  := by
  have h := isNumeral_padded width n
  rw [readNumber?, dropBlanks_padded, readDigits?_append h rest (Or.inl (length_padded hwidth hn)),
    Option.map_some]
  simp only [h.value]

theorem readYear?_of_isDigit {c : Char} (hc : c.isDigit = true) (cs : List Char) :
  readYear? (c :: cs)
    = (readDigits? 4 (c :: cs)).map (fun (ds, rest) => ((Nat.ofDigitChars 10 ds 0 : Int), rest))
  := by
  rw [readYear?, dropBlanks_cons_of_isDigit hc]
  split
  · rename_i h
    cases h
    exact absurd hc (by decide)
  · rename_i h
    cases h
    exact absurd hc (by decide)
  · rfl

/-- A year is read up to the hyphen after it. -/
theorem readYear?_yearText (year : Int) (rest : List Char) :
  readYear? ((yearText year).toList ++ '-' :: rest) = some (year, '-' :: rest)
  := by
  have h := isNumeral_padded 4 year.natAbs
  have hhyphen := not_isDigit_head? (show '-'.isDigit = false by decide) rest
  have hsigned := readDigits?_append h ('-' :: rest)
    (Or.inr ⟨Nat.le_add_right _ ('-' :: rest).length, hhyphen⟩)
  rw [← List.length_append] at hsigned
  have hminus : ∀ cs, readYear? ('-' :: cs) = (readDigits? cs.length cs).map
      (fun (ds, rest) => (-(Nat.ofDigitChars 10 ds 0 : Int), rest)) := fun _ => rfl
  have hplus : ∀ cs, readYear? ('+' :: cs) = (readDigits? cs.length cs).map
      (fun (ds, rest) => ((Nat.ofDigitChars 10 ds 0 : Int), rest)) := fun _ => rfl
  rw [yearText]
  split
  · have hyear : -(year.natAbs : Int) = year := by omega
    rw [String.toList_append, String.toList_ofList]
    simp only [List.cons_append, List.nil_append, hminus, hsigned, Option.map_some, h.value,
      hyear]
  · have hyear : (year.natAbs : Int) = year := by omega
    split
    · rw [String.toList_append, String.toList_ofList]
      simp only [List.cons_append, List.nil_append, hplus, hsigned, Option.map_some, h.value,
        hyear]
    · have hfour := readDigits?_append h ('-' :: rest)
        (Or.inl (length_padded (by decide) (by omega)))
      obtain ⟨c, cs, heq, hc⟩ := exists_padded_eq_cons 4 year.natAbs
      rw [heq] at h hfour ⊢
      rw [List.cons_append] at hfour ⊢
      simp only [readYear?_of_isDigit hc, hfour, Option.map_some, h.value, hyear]

/-- A fraction stands for as many nanoseconds as it does with zeros after it. -/
theorem readFraction?_padded {width n nano : Nat} (hwidth : 0 < width) (hle : width ≤ 9)
    (hn : n < 10 ^ width) (hnano : 10 ^ (9 - width) * n = nano) (rest : List Char) :
  readFraction? (("." ++ padded width n).toList ++ 'Z' :: rest) = some (nano, 'Z' :: rest)
  := by
  have h := isNumeral_padded width n
  have hlength := length_padded hwidth hn
  have hmark := not_isDigit_head? (show 'Z'.isDigit = false by decide) rest
  have hread := readDigits?_append h ('Z' :: rest) (Or.inr ⟨hlength ▸ hle, hmark⟩)
  have hdrop : ('Z' :: rest).dropWhile Char.isDigit = 'Z' :: rest :=
    List.dropWhile_cons_of_neg (by decide)
  rw [String.toList_append, String.toList_ofList, List.append_assoc, List.singleton_append,
    readFraction?, hread]
  simp only [Option.map_some, Nat.ofDigitChars_append, h.value, hlength,
    Nat.ofDigitChars_replicate_zero, hnano, hdrop]

/-- The digits of a fraction lose nothing. -/
theorem readFraction?_fractionText {nano : Nat} (hnano : nano < 1000000000) (rest : List Char) :
  readFraction? ((fractionText nano).toList ++ 'Z' :: rest) = some (nano, 'Z' :: rest)
  := by
  rw [fractionText]
  split
  · rename_i hzero
    rw [hzero]
    rfl
  · split
    · exact readFraction?_padded (by decide) (by decide) (by omega) (by omega) rest
    · split
      · exact readFraction?_padded (by decide) (by decide) (by omega) (by omega) rest
      · exact readFraction?_padded (by decide) (by decide) hnano (by omega) rest

/-! ### Whole texts -/

/-- What a clock shows at a readable instant is the instant. -/
theorem ofClock?_date {t : Instant} (ht : t.Readable) :
  ofClock? t.date (t.secondOfDay / 3600) (t.secondOfDay / 60 % 60)
      (t.secondOfDay % 60 + t.nano.val / 1000000000) (t.nano.val % 1000000000) 0
    = some t
  := by
  obtain ⟨second, nano, hnano⟩ := t
  obtain ⟨hcalendar, hleap⟩ := ht
  simp only at hcalendar hleap
  have hsecond : ((second % 86400).toNat : Int) = second % 86400 := by omega
  have hnumber := Date.dayNumber_ofDayNumber (second / 86400)
  have hclock : (second % 86400).toNat / 3600 < 24 ∧ (second % 86400).toNat / 60 % 60 < 60 ∧
      (second % 86400).toNat % 60 + nano / 1000000000 ≤ 60 := by omega
  have hvalid := Date.isValid_ofDayNumber (second / 86400)
  rw [date, secondOfDay, ofClock?, hnumber, if_pos ⟨hvalid, hcalendar, hclock⟩]
  by_cases hsixty : (second % 86400).toNat % 60 + nano / 1000000000 = 60
  · -- A leap second is the only one numbered 60.
    have hshown : second / 86400 * 86400 + ((second % 86400).toNat / 3600 * 3600
        + (second % 86400).toNat / 60 % 60 * 60 + 59 : Nat) - 0 = second := by omega
    have hrest : nano % 1000000000 + 1000000000 = nano := by omega
    simp only [hsixty, if_true, hshown, hrest, hnano, dite_true, hcalendar]
  · have hshown : second / 86400 * 86400 + ((second % 86400).toNat / 3600 * 3600
        + (second % 86400).toNat / 60 % 60 * 60
        + ((second % 86400).toNat % 60 + nano / 1000000000) : Nat) - 0 = second := by omega
    have hrest : nano % 1000000000 + 0 = nano := by omega
    simp only [hsixty, if_false, hshown, hrest, hnano, dite_true, hcalendar]
    rfl

theorem toList_render (t : Instant) :
  t.render.toList
    = (yearText t.date.year).toList ++ '-' :: ((padded 2 t.date.month).toList ++
      '-' :: ((padded 2 t.date.day).toList ++ 'T' ::
      ((padded 2 (t.secondOfDay / 3600)).toList ++ ':' ::
      ((padded 2 (t.secondOfDay / 60 % 60)).toList ++ ':' ::
      ((padded 2 (t.secondOfDay % 60 + t.nano.val / 1000000000)).toList ++
      ((fractionText (t.nano.val % 1000000000)).toList ++ 'Z' :: []))))))
  := by
  simp [render, dateText, clockText]

/-- A readable instant is read back from its text. -/
theorem parse?_render {t : Instant} (ht : t.Readable) :
  parse? t.render = some t
  := by
  obtain ⟨hmonth, hday⟩ := Date.le_of_isValid (Date.isValid_ofDayNumber (t.second / 86400))
  have hsecond : t.secondOfDay < 86400 := by
    have := Int.emod_lt_of_pos t.second (show 0 < 86400 by decide)
    rw [secondOfDay]
    omega
  have hnano := t.nano.isLt
  have hnumber : ∀ {n : Nat}, n ≤ 99 → ∀ rest,
      readNumber? 2 ((padded 2 n).toList ++ rest) = some (n, rest) :=
    fun hn rest => readNumber?_padded (by decide) (by omega) rest
  have hhyphen : ∀ cs, readMark? '-' ('-' :: cs) = some cs := fun _ => rfl
  have hcolon : ∀ cs, readMark? ':' (':' :: cs) = some cs := fun _ => rfl
  have hoffset : readOffset? (dropBlanks ['Z']) = some (0, []) := by decide
  simp only [parse?, toList_render, readYear?_yearText, Option.bind_eq_bind, Option.bind_some,
    hhyphen, hcolon, hnumber (n := t.date.month) (by rw [date]; omega),
    hnumber (n := t.date.day) (by rw [date]; omega),
    hnumber (n := t.secondOfDay / 3600) (by omega),
    hnumber (n := t.secondOfDay / 60 % 60) (by omega),
    hnumber (n := t.secondOfDay % 60 + t.nano.val / 1000000000) (by omega),
    readFraction?_fractionText (Nat.mod_lt t.nano.val (show 0 < 1000000000 by decide)), hoffset]
  exact ofClock?_date ht

/-! ### What is read -/

theorem isDigit_of_readDigits? {width : Nat} {cs ds rest : List Char}
    (h : readDigits? width cs = some (ds, rest)) :
  (∀ c ∈ ds, c.isDigit = true) ∧ ds.length ≤ width
  := by
  rw [readDigits?] at h
  split at h
  · cases h
  · cases h
    constructor
    · exact fun c hc => List.mem_takeWhile_imp hc
    · exact Nat.le_trans (List.takeWhile_sublist _).length_le (List.length_take_le _ _)

/-- Nine digits of a fraction are less than a second. -/
theorem lt_of_readFraction? {cs rest : List Char} {nano : Nat}
    (h : readFraction? cs = some (nano, rest)) :
  nano < 1000000000
  := by
  rw [readFraction?.eq_def] at h
  split at h
  · obtain ⟨⟨ds, rest'⟩, hread, heq⟩ := Option.map_eq_some_iff.mp h
    obtain ⟨hdigit, hlength⟩ := isDigit_of_readDigits? hread
    cases heq
    have hzeros : ∀ c ∈ ds ++ List.replicate (9 - ds.length) '0', c.isDigit = true := by
      intro c hc
      rcases List.mem_append.mp hc with hc | hc
      · exact hdigit c hc
      · rw [List.eq_of_mem_replicate hc]
        decide
    have hlt := ofDigitChars_lt hzeros 0
    rwa [List.length_append, List.length_replicate, Nat.add_sub_cancel' hlength] at hlt
  · cases h
    decide

/-- Offsets are whole minutes. -/
theorem emod_of_readOffset? {cs rest : List Char} {offset : Int}
    (h : readOffset? cs = some (offset, rest)) :
  offset % 60 = 0
  := by
  rw [readOffset?.eq_def] at h
  split at h
  · cases h
    rfl
  · split at h
    · cases h
    · split at h
      · cases h
        rfl
      · split at h
        · simp only [Option.bind_eq_bind, Option.bind_eq_some_iff] at h
          obtain ⟨⟨hours, rest⟩, -, ⟨minutes, rest'⟩, -, h⟩ := h
          split at h
          · simp only [Option.some.injEq, Prod.mk.injEq] at h
            obtain ⟨rfl, -⟩ := h
            split <;> omega
          · cases h
        · cases h

/-- What a clock shows is readable. -/
theorem readable_of_ofClock? {d : Date} {hour minute second nano : Nat} {offset : Int} {t : Instant}
    (hnano : nano < 1000000000) (hoffset : offset % 60 = 0)
    (h : ofClock? d hour minute second nano offset = some t) :
  t.Readable
  := by
  simp only [ofClock?, Option.ite_none_right_eq_some, Option.dite_none_right_eq_some,
    Option.some.injEq] at h
  obtain ⟨-, -, hcalendar, rfl⟩ := h
  use hcalendar
  intro hleap
  simp only at hleap ⊢
  by_cases hsixty : second = 60
  · simp only [if_pos hsixty]
    omega
  · simp only [if_neg hsixty] at hleap
    omega

/-- What is read from a text is readable. -/
theorem readable_of_parse? {s : String} {t : Instant} (h : parse? s = some t) :
  t.Readable
  := by
  rw [parse?] at h
  iterate 5 obtain ⟨_, -, h⟩ := Option.bind_eq_some_iff.mp h
  dsimp only at h
  -- One of three marks stands between the date and the time.
  split at h
  case h_4 => cases h
  all_goals
    iterate 6 obtain ⟨_, -, h⟩ := Option.bind_eq_some_iff.mp h
    obtain ⟨_, hfraction, h⟩ := Option.bind_eq_some_iff.mp h
    obtain ⟨_, hoffset, h⟩ := Option.bind_eq_some_iff.mp h
    split at h
    · exact readable_of_ofClock? (lt_of_readFraction? hfraction) (emod_of_readOffset? hoffset) h
    · cases h

/-- Outside of leap seconds the instants of the years from 0 to 9999 are readable. -/
theorem readable_of_year {t : Instant} (hyear : 0 ≤ t.date.year ∧ t.date.year ≤ 9999)
    (hnano : t.nano.val < 1000000000) :
  t.Readable
  := by
  constructor
  · have hday := Date.yearStart_yearOf_le (t.second / 86400 + Date.epoch)
    change 0 ≤ Date.yearOf (t.second / 86400 + Date.epoch)
      ∧ Date.yearOf (t.second / 86400 + Date.epoch) ≤ 9999 at hyear
    have hmin : Date.dayNumber ⟨minYear, 1, 1⟩ = -96465292 := by decide
    have hmax : Date.dayNumber ⟨maxYear, 12, 31⟩ = 95026236 := by decide
    apply decide_eq_true
    rw [hmin, hmax]
    simp only [Date.yearStart, Date.epoch] at hday hyear
    omega
  · intro hleap
    omega

end ChunkDispatch.Instant
