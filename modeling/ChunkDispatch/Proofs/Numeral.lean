import ChunkDispatch.Text.Blank
import ChunkDispatch.Text.Integer
import Mathlib.Algebra.Group.Nat.Defs
import Mathlib.Data.List.TakeWhile
import Mathlib.Tactic.Use

/-!
# Numerals

A *numeral* is a text of digits, at least one, and *denotes* the number they are the decimal digits
of; with a sign before it, it denotes the number or its opposite.  What is read as an integer of a
range are exactly the texts which denote a number of the range, and a number is denoted by the text
which is written for it.  What is left of a text when the blanks around it are taken off is the part
with nothing but blanks around it which neither starts nor ends with one.
-/

namespace ChunkDispatch.Text

/-- A digit has one of ten codes. -/
theorem toNat_of_isDigit {c : Char} (h : c.isDigit = true) :
  48 ≤ c.toNat ∧ c.toNat ≤ 57
  := by
  simpa [Char.isDigit, UInt32.le_iff_toNat_le] using h

namespace Integer

/-- The digits `ds` are those of the number `n`, zeros in front included. -/
structure IsNumeral (ds : List Char) (n : Nat) : Prop where
  ne_nil : ds ≠ []
  isDigit : ∀ c ∈ ds, c.isDigit = true
  value : Nat.ofDigitChars 10 ds 0 = n

/-- The text is a numeral for `n` after an optional sign. -/
inductive Denotes : List Char → Int → Prop
  | bare {ds : List Char} {n : Nat} (h : IsNumeral ds n) : Denotes ds n
  | plus {ds : List Char} {n : Nat} (h : IsNumeral ds n) : Denotes ('+' :: ds) n
  | minus {ds : List Char} {n : Nat} (h : IsNumeral ds n) : Denotes ('-' :: ds) (-n)

/-! ### Digits -/

/-- The digits of a number are a numeral for it. -/
theorem isNumeral_repr (n : Nat) :
  IsNumeral n.repr.toList n
  := by
  rw [Nat.repr_eq_ofList_toDigits, String.toList_ofList]
  use Nat.toDigits_ne_nil
  · exact fun c hc => Nat.isDigit_of_mem_toDigits (by decide) (by decide) hc
  · apply Nat.ofDigitChars_ten_toDigits

/-- A numeral stays one for the same number with zeros before it. -/
theorem isNumeral_padded (width n : Nat) :
  IsNumeral (padded width n).toList n
  := by
  have h := isNumeral_repr n
  rw [padded, String.toList_append, String.toList_ofList]
  use List.append_ne_nil_of_right_ne_nil _ h.ne_nil
  · intro c hc
    rcases List.mem_append.mp hc with hc | hc
    · rw [List.eq_of_mem_replicate hc]
      decide
    · exact h.isDigit c hc
  · rw [Nat.ofDigitChars_append, Nat.ofDigitChars_replicate_zero, Nat.mul_zero, h.value]

theorem length_padded {width n : Nat} (hwidth : 0 < width) (hn : n < 10 ^ width) :
  (padded width n).toList.length = width
  := by
  have hle : n.repr.toList.length ≤ width := by
    rw [Nat.repr_eq_ofList_toDigits, String.toList_ofList]
    exact (Nat.length_toDigits_le_iff (by decide) hwidth).mpr hn
  rw [padded, String.toList_append, String.toList_ofList, List.length_append,
    List.length_replicate, ← String.length_toList]
  exact Nat.sub_add_cancel hle

/-- The digits at the start of a text are those of the numeral it starts with. -/
theorem IsNumeral.takeWhile_append {ds : List Char} {n : Nat} (hds : IsNumeral ds n)
    {rest : List Char} (hrest : ∀ c ∈ rest.head?, c.isDigit = false) :
  (ds ++ rest).takeWhile Char.isDigit = ds
  := by
  rw [List.takeWhile_append_of_pos hds.isDigit]
  cases rest with
  | nil => apply List.append_nil
  | cons c cs => rw [List.takeWhile_cons_of_neg (by simp [hrest c rfl]), List.append_nil]

theorem digit?_eq_some_iff {c : Char} {d : Nat} :
  digit? c = some d ↔ c.isDigit = true ∧ c.toNat - '0'.toNat = d
  := by
  rw [digit?]
  split <;> simp_all

theorem digit?_of_isDigit {c : Char} (hc : c.isDigit = true) :
  digit? c = some (c.toNat - '0'.toNat)
  := digit?_eq_some_iff.mpr ⟨hc, rfl⟩

theorem digit?_eq_none_iff {c : Char} :
  digit? c = none ↔ c.isDigit = false
  := by
  rw [digit?]
  split <;> simp_all

/-- A value grows with every digit. -/
theorem le_ofDigitChars (ds : List Char) (m : Nat) :
  m ≤ Nat.ofDigitChars 10 ds m
  := by
  rw [Nat.ofDigitChars_eq_ofDigitChars_zero]
  have hpos : 0 < 10 ^ ds.length := Nat.pow_pos (by decide)
  calc
    m ≤ 10 ^ ds.length * m := Nat.le_mul_of_pos_left m hpos
    _ ≤ _ := Nat.le_add_right _ _

/-- Digits after a value leave room for a power of ten. -/
theorem ofDigitChars_lt {ds : List Char} (hds : ∀ c ∈ ds, c.isDigit = true) (m : Nat) :
  Nat.ofDigitChars 10 ds m < (m + 1) * 10 ^ ds.length
  := by
  induction ds generalizing m with
  | nil =>
    rw [Nat.ofDigitChars_nil, List.length_nil, Nat.pow_zero, Nat.mul_one]
    exact Nat.lt_succ_self m
  | cons c ds ih =>
    obtain ⟨hc, hds⟩ := List.forall_mem_cons.mp hds
    have hdigit : c.toNat - '0'.toNat ≤ 9 := Nat.sub_le_sub_right (toNat_of_isDigit hc).2 48
    rw [Nat.ofDigitChars_cons, List.length_cons]
    calc
      _ < (10 * m + (c.toNat - '0'.toNat) + 1) * 10 ^ ds.length := ih hds _
      _ ≤ 10 * (m + 1) * 10 ^ ds.length := Nat.mul_le_mul_right _ (by omega)
      _ = (m + 1) * 10 ^ (ds.length + 1) := by rw [Nat.pow_succ]; ac_rfl

/-- Digits are read as far as their value stays within the limit. -/
theorem readDigits_ok_iff {limit : Nat} {fault : Fault} {m n : Nat} {cs : List Char}
    (hm : m ≤ limit) :
  readDigits limit fault m cs = .ok n
    ↔ (∀ c ∈ cs, c.isDigit = true) ∧ Nat.ofDigitChars 10 cs m = n ∧ n ≤ limit
  := by
  induction cs generalizing m with
  | nil =>
    simp only [readDigits, Except.ok.injEq, Nat.ofDigitChars_nil, List.not_mem_nil,
      false_imp_iff, implies_true, true_and]
    constructor
    · rintro rfl
      exact ⟨rfl, hm⟩
    · exact And.left
  | cons c rest ih =>
    rw [readDigits, Nat.ofDigitChars_cons, List.forall_mem_cons]
    cases hc : digit? c with
    | none => simp [digit?_eq_none_iff.mp hc]
    | some d =>
      obtain ⟨hdigit, rfl⟩ := digit?_eq_some_iff.mp hc
      simp only [hdigit, true_and]
      split
      · rename_i hle
        apply ih hle
      · rename_i hgt
        constructor
        · exact fun h => nomatch h
        · rintro ⟨-, rfl, hle⟩
          have := le_ofDigitChars rest (10 * m + (c.toNat - '0'.toNat))
          omega

theorem readDigits_zero_ok_iff {limit : Nat} (fault : Fault) {n : Nat} {cs : List Char}
    (hcs : cs ≠ []) :
  readDigits limit fault 0 cs = .ok n ↔ IsNumeral cs n ∧ n ≤ limit
  := by
  rw [readDigits_ok_iff (Nat.zero_le limit)]
  constructor
  · rintro ⟨hdigit, hvalue, hle⟩
    exact ⟨⟨hcs, hdigit, hvalue⟩, hle⟩
  · rintro ⟨h, hle⟩
    exact ⟨h.isDigit, h.value, hle⟩

/-! ### Signs -/

theorem denotes_plus_iff {cs : List Char} {i : Int} :
  Denotes ('+' :: cs) i ↔ ∃ n : Nat, IsNumeral cs n ∧ i = n
  := by
  constructor
  · rintro (h | h | h)
    · exact absurd (h.isDigit '+' List.mem_cons_self) (by decide)
    · exact ⟨_, h, rfl⟩
  · rintro ⟨n, h, rfl⟩
    exact .plus h

theorem denotes_minus_iff {cs : List Char} {i : Int} :
  Denotes ('-' :: cs) i ↔ ∃ n : Nat, IsNumeral cs n ∧ i = -n
  := by
  constructor
  · rintro (h | h | h)
    · exact absurd (h.isDigit '-' List.mem_cons_self) (by decide)
    · exact ⟨_, h, rfl⟩
  · rintro ⟨n, h, rfl⟩
    exact .minus h

theorem denotes_iff_of_unsigned {cs : List Char} {i : Int}
    (hplus : ∀ rest, cs ≠ '+' :: rest) (hminus : ∀ rest, cs ≠ '-' :: rest) :
  Denotes cs i ↔ ∃ n : Nat, IsNumeral cs n ∧ i = n
  := by
  constructor
  · rintro (h | h | h)
    · exact ⟨_, h, rfl⟩
    · exact absurd rfl (hplus _)
    · exact absurd rfl (hminus _)
  · rintro ⟨n, h, rfl⟩
    exact .bare h

/-- What is written for a number denotes it. -/
theorem denotes_render (i : Int) :
  Denotes (render i).toList i
  := by
  cases i with
  | ofNat n => exact .bare (isNumeral_repr n)
  | negSucc n =>
    rw [render, String.toList_append]
    exact .minus (isNumeral_repr (n + 1))

theorem Denotes.mem {cs : List Char} {i : Int} (h : Denotes cs i) {c : Char} (hc : c ∈ cs) :
  c = '+' ∨ c = '-' ∨ c.isDigit = true
  := by
  cases h with
  | bare h => exact Or.inr (Or.inr (h.isDigit c hc))
  | plus h =>
    rcases List.mem_cons.mp hc with rfl | hc
    · exact Or.inl rfl
    · exact Or.inr (Or.inr (h.isDigit c hc))
  | minus h =>
    rcases List.mem_cons.mp hc with rfl | hc
    · exact Or.inr (Or.inl rfl)
    · exact Or.inr (Or.inr (h.isDigit c hc))

theorem Denotes.ne_nil {cs : List Char} {i : Int} (h : Denotes cs i) :
  cs ≠ []
  := by
  cases h with
  | bare h => exact h.ne_nil
  | plus h => exact List.cons_ne_nil _ _
  | minus h => exact List.cons_ne_nil _ _

/-! ### Integers of a range -/

/-- The texts read as integers of a range are those which denote one. -/
theorem readInt_ok_iff {below above : Nat} {cs : List Char} {i : Int} :
  readInt below above cs = .ok i ↔ Denotes cs i ∧ -(below : Int) ≤ i ∧ i ≤ above
  := by
  have hmap : ∀ {f : Int → Int} {limit : Nat} {fault : Fault} {ds : List Char}, ds ≠ [] →
      (Except.map f (do let n ← readDigits limit fault 0 ds; pure (n : Int)) = .ok i
        ↔ ∃ n : Nat, (IsNumeral ds n ∧ n ≤ limit) ∧ f n = i) := by
    intro f limit fault ds hds
    simp only [← readDigits_zero_ok_iff fault hds]
    cases readDigits limit fault 0 ds <;> simp [Except.map, bind, Except.bind, pure, Except.pure]
  have hlone : ∀ {n : Nat}, ¬ IsNumeral [] n := fun h => h.ne_nil rfl
  rw [readInt.eq_def]
  split
  · simp only [reduceCtorEq, false_iff]
    exact fun h => h.1.ne_nil rfl
  · simp [denotes_plus_iff, hlone]
  · simp [denotes_minus_iff, hlone]
  · rename_i ds hds
    rw [hmap hds, denotes_minus_iff]
    constructor
    · rintro ⟨n, ⟨h, hn⟩, rfl⟩
      exact ⟨⟨n, h, rfl⟩, by omega, by omega⟩
    · rintro ⟨⟨n, h, rfl⟩, hn, -⟩
      exact ⟨n, ⟨h, by omega⟩, rfl⟩
  · rename_i ds hds
    rw [hmap hds, denotes_plus_iff]
    constructor
    · rintro ⟨n, ⟨h, hn⟩, rfl⟩
      exact ⟨⟨n, h, rfl⟩, by omega, by omega⟩
    · rintro ⟨⟨n, h, rfl⟩, -, hn⟩
      exact ⟨n, ⟨h, by omega⟩, rfl⟩
  · rename_i hnil _ _ hminus hplus
    rw [hmap hnil, denotes_iff_of_unsigned hplus hminus]
    constructor
    · rintro ⟨n, ⟨h, hn⟩, rfl⟩
      exact ⟨⟨n, h, rfl⟩, by omega, by omega⟩
    · rintro ⟨⟨n, h, rfl⟩, -, hn⟩
      exact ⟨n, ⟨h, by omega⟩, rfl⟩

/-- The texts read as 32 bit integers are those which denote one. -/
theorem readInt32_ok_iff {cs : List Char} {n : Int32} :
  readInt32 cs = .ok n ↔ Denotes cs n.toInt
  := by
  have hlow := n.le_toInt
  have hhigh := n.toInt_lt
  have hread : readInt32 cs = .ok n
      ↔ ∃ i, readInt 2147483648 2147483647 cs = .ok i ∧ Int32.ofInt i = n := by
    rw [readInt32]
    cases readInt 2147483648 2147483647 cs <;> simp [Except.map]
  rw [hread]
  constructor
  · rintro ⟨i, hi, rfl⟩
    obtain ⟨h, hle, hge⟩ := readInt_ok_iff.mp hi
    rwa [Int32.toInt_ofInt_of_le (by omega) (by omega)]
  · intro h
    exact ⟨n.toInt, readInt_ok_iff.mpr ⟨h, by omega, by omega⟩, n.ofInt_toInt⟩

end Integer

/-! ### Blanks around a text -/

/-- There is nothing but blanks in the text before `core` and after it. -/
def IsPadded (core cs : List Char) : Prop :=
  ∃ before after, cs = before ++ core ++ after ∧
    (∀ c ∈ before, isBlank c = true) ∧ ∀ c ∈ after, isBlank c = true

theorem isBlank_of_isDigit {c : Char} (h : c.isDigit = true) :
  isBlank c = false
  := by
  have hcode := toNat_of_isDigit h
  simp only [isBlank]
  simp
  omega

/-- There are no blanks in what denotes a number. -/
theorem Integer.Denotes.isBlank {cs : List Char} {i : Int} (h : Denotes cs i) {c : Char}
    (hc : c ∈ cs) :
  isBlank c = false
  := by
  rcases h.mem hc with rfl | rfl | hdigit
  · decide
  · decide
  · apply isBlank_of_isDigit hdigit

/-- Only blanks are taken off. -/
theorem isPadded_trim (cs : List Char) :
  IsPadded (trim cs) cs
  := by
  have hblank : ∀ {ds : List Char} {c : Char}, c ∈ ds.takeWhile isBlank → isBlank c = true :=
    fun hc => List.mem_takeWhile_imp hc
  have hsplit : ∀ ds : List Char, ds.takeWhile isBlank ++ dropBlanks ds = ds :=
    fun _ => List.takeWhile_append_dropWhile
  refine ⟨cs.takeWhile isBlank, ((dropBlanks cs).reverse.takeWhile isBlank).reverse, ?_, ?_, ?_⟩
  · rw [List.append_assoc, trim, ← List.reverse_append, hsplit, List.reverse_reverse, hsplit]
  · exact fun c hc => hblank hc
  · exact fun c hc => hblank (List.mem_reverse.mp hc)

/-- Blanks before a text which starts with none are those which are dropped. -/
theorem dropBlanks_append {before cs : List Char} (hbefore : ∀ c ∈ before, isBlank c = true)
    (hcs : ∀ c ∈ cs.head?, isBlank c = false) :
  dropBlanks (before ++ cs) = cs
  := by
  rw [dropBlanks, List.dropWhile_append_of_pos hbefore]
  cases cs with
  | nil => rfl
  | cons c rest =>
    apply List.dropWhile_cons_of_neg
    rw [hcs c rfl]
    exact Bool.false_ne_true

/-- What blanks are dropped from does not start with one any more. -/
theorem isBlank_of_mem_head?_dropBlanks (cs : List Char) {c : Char}
    (hc : c ∈ (dropBlanks cs).head?) :
  isBlank c = false
  := by
  have h := List.head?_dropWhile_not isBlank cs
  rwa [← dropBlanks, hc] at h

/-- What is left of a text when the blanks around it are taken off. -/
structure IsTrimmed (core cs : List Char) : Prop where
  padded : IsPadded core cs
  head : ∀ c ∈ core.head?, isBlank c = false
  last : ∀ c ∈ core.getLast?, isBlank c = false

theorem isTrimmed_trim (cs : List Char) :
  IsTrimmed (trim cs) cs
  := by
  use isPadded_trim cs
  · intro c hc
    have hprefix : trim cs <+: dropBlanks cs := by
      rw [trim, ← List.reverse_suffix, List.reverse_reverse]
      apply List.dropWhile_suffix
    obtain ⟨after, hafter⟩ := hprefix
    apply isBlank_of_mem_head?_dropBlanks cs
    rw [← hafter, List.head?_append, hc]
    rfl
  · intro c hc
    rw [trim, List.getLast?_reverse] at hc
    exact isBlank_of_mem_head?_dropBlanks _ hc

theorem trim_eq_iff {core cs : List Char} :
  trim cs = core ↔ IsTrimmed core cs
  := by
  constructor
  · rintro rfl
    apply isTrimmed_trim
  · rintro ⟨⟨before, after, rfl, hbefore, hafter⟩, hhead, hlast⟩
    cases core with
    | nil =>
      have hall : dropBlanks (before ++ [] ++ after) = [] := by
        apply List.dropWhile_eq_nil_iff.mpr
        rw [List.append_nil, List.forall_mem_append]
        exact ⟨hbefore, hafter⟩
      rw [trim, hall]
      rfl
    | cons c core =>
      have hbegin : ∀ d ∈ (c :: core ++ after).head?, isBlank d = false := hhead
      rw [trim, List.append_assoc, dropBlanks_append hbefore hbegin, List.reverse_append,
        dropBlanks_append, List.reverse_reverse]
      · exact fun d hd => hafter d (List.mem_reverse.mp hd)
      · rwa [List.head?_reverse]

/-- A text without blanks is what is left when the blanks around it are taken off. -/
theorem trim_eq_iff_isPadded {core cs : List Char} (hcore : ∀ c ∈ core, isBlank c = false) :
  trim cs = core ↔ IsPadded core cs
  := by
  rw [trim_eq_iff]
  constructor
  · exact IsTrimmed.padded
  · intro hpadded
    exact ⟨hpadded, fun c hc => hcore c (List.mem_of_mem_head? hc),
      fun c hc => hcore c (List.mem_of_getLast? hc)⟩

end ChunkDispatch.Text
