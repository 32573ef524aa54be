import ChunkDispatch.Proofs.Numeral

/-!
# Numbers without a minus

A natural number is written as a numeral after an optional plus sign.  Reading up to a limit goes
from the left, so a text which is no such number has one *fault*: it is empty, it is a lone sign,
the value of its digits is still within the limit at the first character which is no digit, or the
value is beyond the limit before there is one.
-/

namespace ChunkDispatch.Text.Integer

/-- What follows the plus sign, the whole text if it does not start with one. -/
def afterPlus : List Char → List Char
  | '+' :: cs => cs
  | cs => cs

/-- The fault of a text as a number up to the limit. -/
inductive HasFault (limit : Nat) : List Char → Fault → Prop
  | empty : HasFault limit [] .empty
  | lonePlus : HasFault limit ['+'] .notDigit
  | notDigit {cs ds rest : List Char} {c : Char} (hcs : afterPlus cs = ds ++ c :: rest)
      (hds : ∀ d ∈ ds, d.isDigit = true) (hvalue : Nat.ofDigitChars 10 ds 0 ≤ limit)
      (hc : c.isDigit = false) : HasFault limit cs .notDigit
  | tooLarge {cs ds rest : List Char} (hcs : afterPlus cs = ds ++ rest)
      (hds : ∀ d ∈ ds, d.isDigit = true) (hvalue : limit < Nat.ofDigitChars 10 ds 0) :
      HasFault limit cs .tooLarge

/-! ### Digits -/

/-- Digits whose value is within the limit are read, and then what follows them. -/
theorem readDigits_append {limit : Nat} (fault : Fault) {m : Nat} {ds : List Char}
    (hds : ∀ d ∈ ds, d.isDigit = true) (hvalue : Nat.ofDigitChars 10 ds m ≤ limit)
    (cs : List Char) :
  readDigits limit fault m (ds ++ cs) = readDigits limit fault (Nat.ofDigitChars 10 ds m) cs
  := by
  induction ds generalizing m with
  | nil => rfl
  | cons d ds ih =>
    obtain ⟨hd, hds⟩ := List.forall_mem_cons.mp hds
    rw [Nat.ofDigitChars_cons] at hvalue ⊢
    have hle : 10 * m + (d.toNat - '0'.toNat) ≤ limit := (le_ofDigitChars ds _).trans hvalue
    rw [List.cons_append, readDigits, digit?_of_isDigit hd]
    simp only [if_pos hle]
    exact ih hds hvalue

/-- Digits whose value is beyond the limit are a fault, whatever follows them. -/
theorem readDigits_of_lt {limit : Nat} (fault : Fault) {m : Nat} (hm : m ≤ limit) {ds : List Char}
    (hds : ∀ d ∈ ds, d.isDigit = true) (hvalue : limit < Nat.ofDigitChars 10 ds m)
    (rest : List Char) :
  readDigits limit fault m (ds ++ rest) = .error fault
  := by
  induction ds generalizing m with
  | nil => exact absurd hvalue (Nat.not_lt.mpr hm)
  | cons d ds ih =>
    obtain ⟨hd, hds⟩ := List.forall_mem_cons.mp hds
    rw [Nat.ofDigitChars_cons] at hvalue
    rw [List.cons_append, readDigits, digit?_of_isDigit hd]
    simp only
    split
    · rename_i hle
      exact ih hle hds hvalue
    · rfl

/-- Where reading digits fails, it stopped at a character which is no digit or beyond the limit. -/
theorem readDigits_error_cases {limit : Nat} {fault e : Fault} {m : Nat} (hm : m ≤ limit)
    {cs : List Char} (h : readDigits limit fault m cs = .error e) :
  (e = .notDigit ∧ ∃ ds c rest, cs = ds ++ c :: rest ∧ (∀ d ∈ ds, d.isDigit = true)
      ∧ Nat.ofDigitChars 10 ds m ≤ limit ∧ c.isDigit = false)
    ∨ (e = fault ∧ ∃ ds rest, cs = ds ++ rest ∧ (∀ d ∈ ds, d.isDigit = true)
      ∧ limit < Nat.ofDigitChars 10 ds m)
  := by
  induction cs generalizing m with
  | nil => cases h
  | cons c cs ih =>
    rw [readDigits] at h
    cases hc : digit? c with
    | none =>
      obtain rfl : Fault.notDigit = e := by simpa [hc] using h
      exact Or.inl ⟨rfl, [], c, cs, rfl, by simp, hm, digit?_eq_none_iff.mp hc⟩
    | some d =>
      obtain ⟨hdigit, rfl⟩ := digit?_eq_some_iff.mp hc
      simp only [hc] at h
      split at h
      · rename_i hle
        rcases ih hle h with ⟨he, ds, c', rest, rfl, hds, hvalue, hc'⟩ |
          ⟨he, ds, rest, rfl, hds, hvalue⟩
        · have hall : ∀ d ∈ c :: ds, d.isDigit = true := List.forall_mem_cons.mpr ⟨hdigit, hds⟩
          exact Or.inl ⟨he, c :: ds, c', rest, rfl, hall, hvalue, hc'⟩
        · have hall : ∀ d ∈ c :: ds, d.isDigit = true := List.forall_mem_cons.mpr ⟨hdigit, hds⟩
          exact Or.inr ⟨he, c :: ds, rest, rfl, hall, hvalue⟩
      · rename_i hgt
        obtain rfl := Except.error.inj h
        exact Or.inr ⟨rfl, [c], cs, rfl, by simpa using hdigit, Nat.lt_of_not_le hgt⟩

/-! ### Natural numbers up to a limit -/

theorem afterPlus_eq_nil_iff {cs : List Char} :
  afterPlus cs = [] ↔ cs = [] ∨ cs = ['+']
  := by
  rw [afterPlus.eq_def]
  split <;> simp_all

theorem readNat_of_afterPlus_ne_nil {limit : Nat} {cs : List Char} (h : afterPlus cs ≠ []) :
  readNat limit cs = readDigits limit .tooLarge 0 (afterPlus cs)
  := by
  rw [Ne, afterPlus_eq_nil_iff, not_or] at h
  rw [readNat.eq_def, afterPlus.eq_def]
  split <;> simp_all

/-- The texts read as numbers up to a limit are the numerals for them, after an optional plus. -/
theorem readNat_ok_iff {limit n : Nat} {cs : List Char} :
  readNat limit cs = .ok n ↔ IsNumeral (afterPlus cs) n ∧ n ≤ limit
  := by
  by_cases hcs : afterPlus cs = []
  · have hlone : ¬ IsNumeral (afterPlus cs) n := fun h => h.ne_nil hcs
    rcases afterPlus_eq_nil_iff.mp hcs with rfl | rfl <;> simp [readNat, hlone]
  · rw [readNat_of_afterPlus_ne_nil hcs, readDigits_zero_ok_iff _ hcs]

/-- The texts which cannot be read are those with a fault, which is what reading fails with. -/
theorem readNat_error_iff {limit : Nat} {cs : List Char} {fault : Fault} :
  readNat limit cs = .error fault ↔ HasFault limit cs fault
  := by
  constructor
  · intro h
    by_cases hcs : afterPlus cs = []
    · rcases afterPlus_eq_nil_iff.mp hcs with rfl | rfl
      · cases h
        exact .empty
      · cases h
        exact .lonePlus
    · rw [readNat_of_afterPlus_ne_nil hcs] at h
      rcases readDigits_error_cases (Nat.zero_le limit) h with
        ⟨rfl, ds, c, rest, hsplit, hds, hvalue, hc⟩ | ⟨rfl, ds, rest, hsplit, hds, hvalue⟩
      · exact .notDigit hsplit hds hvalue hc
      · exact .tooLarge hsplit hds hvalue
  · rintro (_ | _ | ⟨hsplit, hds, hvalue, hc⟩ | @⟨_, ds, rest, hsplit, hds, hvalue⟩)
    · rfl
    · rfl
    · rw [readNat_of_afterPlus_ne_nil (by simp [hsplit]), hsplit, readDigits_append _ hds hvalue,
        readDigits, digit?_eq_none_iff.mpr hc]
    · have hne : ds ≠ [] := by
        rintro rfl
        exact absurd hvalue (Nat.not_lt_zero _)
      rw [readNat_of_afterPlus_ne_nil (by simp [hsplit, hne]), hsplit,
        readDigits_of_lt _ (Nat.zero_le limit) hds hvalue]

end ChunkDispatch.Text.Integer
