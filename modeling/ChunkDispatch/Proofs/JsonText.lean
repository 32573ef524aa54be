import ChunkDispatch.Json.Printer
import ChunkDispatch.Json.Reader
import ChunkDispatch.Proofs.Numeral

/-!
# JSON values and their texts

A JSON value is *plain* if it holds no decimals and the members of each of its objects have distinct
names.  A text which is written for a plain value is read as that value (`parse?_render`).  The
reader works along a longer text, so what is proved of each part is that it is read off the front of
a text whose rest is *closing*: at its end or before a comma or a bracket, where no number goes on.
-/

namespace ChunkDispatch.Json

open Text Text.Integer

/-- No decimals, and no two members of an object under one name. -/
inductive Plain : Json → Prop
  | null : Plain null
  | bool (b : Bool) : Plain (bool b)
  | integer (n : Int) : Plain (integer n)
  | string (s : String) : Plain (string s)
  | array {items : List Json} (hitems : ∀ j ∈ items, Plain j) : Plain (array items)
  | object {members : List (String × Json)} (hnames : (members.map Prod.fst).Nodup)
      (hmembers : ∀ m ∈ members, Plain m.2) : Plain (object members)

/-! ### Strings -/

theorem hexValue?_hexDigit {n : Nat} (hn : n < 16) :
  hexValue? (hexDigit n) = some n
  := by
  have h : ∀ n : Fin 16, hexValue? (hexDigit n) = some n.val := by decide
  exact h ⟨n, hn⟩

/-- A control character is read back from its two hexadecimal digits. -/
theorem readEscape?_control {c : Char} (hc : c.toNat < 0x20) (rest : List Char) :
  readEscape? ('u' :: '0' :: '0' :: hexDigit (c.toNat / 16) :: hexDigit (c.toNat % 16) :: rest)
    = some (c, rest)
  := by
  have hzero : hexValue? '0' = some 0 := by decide
  have hsum : c.toNat / 16 * 16 + c.toNat % 16 = c.toNat := Nat.div_add_mod' _ _
  have hhigh : ¬ (0xD800 ≤ c.toNat ∧ c.toNat < 0xDC00) := by omega
  have hlow : ¬ (0xDC00 ≤ c.toNat ∧ c.toNat < 0xE000) := by omega
  simp only [readEscape?, readUnit?, hzero, hexValue?_hexDigit (show c.toNat / 16 < 16 by omega),
    hexValue?_hexDigit (Nat.mod_lt c.toNat (show 0 < 16 by decide)), Option.bind_eq_bind,
    Option.bind_some, Nat.zero_mul, Nat.zero_add, hsum, if_neg hhigh, if_neg hlow,
    Char.ofNat_toNat]

/-- A character is read back from what stands for it in a string. -/
theorem readString?_escaped (fuel : Nat) (read : List Char) (c : Char) (rest : List Char) :
  readString? (fuel + 1) read (escaped c ++ rest) = readString? fuel (c :: read) rest
  := by
  rw [escaped]
  split_ifs with hquote hbackslash hbackspace htab hnewline hfeed hreturn hcontrol
  · subst hquote
    rfl
  · subst hbackslash
    rfl
  · subst hbackspace
    rfl
  · subst htab
    rfl
  · subst hnewline
    rfl
  · subst hfeed
    rfl
  · subst hreturn
    rfl
  · simp only [List.cons_append, List.nil_append, readString?, readEscape?_control hcontrol]
  · rw [List.singleton_append, readString?, if_neg hcontrol]
    · exact hquote
    · exact hbackslash

theorem length_escaped_pos (c : Char) :
  0 < (escaped c).length
  := by
  rw [escaped]
  split_ifs <;> apply Nat.succ_pos

/-- A string is read up to its closing quotation mark. -/
theorem readString?_quoted {cs : List Char} {fuel : Nat} (hfuel : cs.length < fuel)
    (read rest : List Char) :
  readString? fuel read (cs.flatMap escaped ++ '"' :: rest)
    = some (String.ofList (read.reverse ++ cs), rest)
  := by
  induction cs generalizing fuel read with
  | nil =>
    obtain ⟨fuel, rfl⟩ := Nat.exists_eq_succ_of_ne_zero (Nat.ne_of_gt hfuel)
    rw [List.append_nil]
    rfl
  | cons c cs ih =>
    obtain ⟨fuel, rfl⟩ := Nat.exists_eq_succ_of_ne_zero (Nat.ne_zero_of_lt hfuel)
    rw [List.flatMap_cons, List.append_assoc, readString?_escaped,
      ih (Nat.lt_of_succ_lt_succ hfuel), List.reverse_cons, List.append_assoc,
      List.singleton_append]

theorem toList_quoted (s : String) :
  (quoted s).toList = '"' :: (s.toList.flatMap escaped ++ ['"'])
  := by
  simp [quoted]

/-- A string is read with as much fuel as there are characters. -/
theorem readString?_toList_quoted (s : String) (rest : List Char) :
  readString? (s.toList.flatMap escaped ++ '"' :: rest).length.succ []
      (s.toList.flatMap escaped ++ '"' :: rest)
    = some (s, rest)
  := by
  have hlength : s.toList.length ≤ (s.toList.flatMap escaped).length := by
    induction s.toList with
    | nil => exact Nat.le_refl _
    | cons c cs ih =>
      have hc := length_escaped_pos c
      rw [List.flatMap_cons, List.length_append, List.length_cons]
      omega
  rw [readString?_quoted, List.reverse_nil, List.nil_append, String.ofList_toList]
  rw [List.length_append]
  omega

/-! ### Numbers -/

/-- Nothing is left, or a comma or a closing bracket comes next. -/
def Closing (rest : List Char) : Prop :=
  ∀ c ∈ rest.head?, c = ',' ∨ c = ']' ∨ c = '\x7d'

theorem closing_cons {c : Char} {rest : List Char} (hc : c = ',' ∨ c = ']' ∨ c = '\x7d') :
  Closing (c :: rest)
  := by
  intro c' hc'
  rwa [← Option.some.inj hc']

theorem Closing.head?_not {rest : List Char} (h : Closing rest) {p : Char → Bool}
    (hp : p ',' = false ∧ p ']' = false ∧ p '\x7d' = false) :
  ∀ c ∈ rest.head?, p c = false
  := by
  intro c hc
  rcases h c hc with rfl | rfl | rfl
  · exact hp.1
  · exact hp.2.1
  · exact hp.2.2

/-- Digits are read up to the first character which is none. -/
theorem readDigits?_append {ds : List Char} {n : Nat} (hds : IsNumeral ds n) {rest : List Char}
    (hrest : ∀ c ∈ rest.head?, c.isDigit = false) :
  readDigits? (ds ++ rest) = some (ds, rest)
  := by
  have hnonempty : ds.isEmpty = false := by simpa using hds.ne_nil
  simp only [readDigits?, hds.takeWhile_append hrest, hnonempty, List.drop_left]
  rfl

/-- The first of several digits of a number is not zero. -/
theorem length_repr_of_head?_zero {n : Nat} (h : n.repr.toList.head? = some '0') :
  n.repr.toList.length = 1
  := by
  have hhead : ∀ n, (Nat.toDigits 10 n).head? = some '0' → n = 0 := by
    intro n
    induction n using Nat.strongRecOn with
    | ind n ih =>
      rw [Nat.toDigits_eq_if (by decide)]
      split
      · rename_i hlt
        have hdigit : ∀ d : Fin 10, some d.val.digitChar = some '0' → d.val = 0 := by decide
        exact hdigit ⟨n, hlt⟩
      · rename_i hge
        obtain ⟨c, ds, heq⟩ :=
          List.exists_cons_of_ne_nil (Nat.toDigits_ne_nil (n := n / 10) (b := 10))
        rw [heq]
        intro h
        have hzero := ih (n / 10) (by omega) (by rw [heq, ← h]; rfl)
        omega
  rw [Nat.repr_eq_ofList_toDigits, String.toList_ofList] at h ⊢
  rw [hhead n h]
  rfl

/-- A number is read up to a closing rest; a negative zero would be a decimal. -/
theorem readMagnitude?_repr (negative : Bool) {n : Nat} (hn : negative = true → n ≠ 0)
    {rest : List Char} (hrest : Closing rest) :
  readMagnitude? negative (n.repr.toList ++ rest)
    = some (integer (if negative then -n else n), rest)
  := by
  have hnot : ∀ p : Char → Bool, p ',' = false ∧ p ']' = false ∧ p '\x7d' = false →
      ∀ c ∈ rest.head?, p c = false := fun p hp => hrest.head?_not hp
  have hwhole := readDigits?_append (isNumeral_repr n) (hnot _ (by decide))
  have hzero : ¬ (n.repr.toList.head? = some '0' ∧ 1 < n.repr.toList.length) := by
    rintro ⟨hhead, hlength⟩
    rw [length_repr_of_head?_zero hhead] at hlength
    cases hlength with | step h => cases h
  have hfraction : readFraction? rest = some (none, rest) := by
    rw [readFraction?.eq_def]
    split
    · exact absurd (hnot (fun c => c = '.') (by decide) '.' rfl) (by decide)
    · rfl
  have hexponent : readExponent? rest = some (none, rest) := by
    cases rest with
    | nil => rfl
    | cons c cs =>
      have hc := hnot (fun c => c = 'e' ∨ c = 'E') (by decide) c rfl
      rw [readExponent?, if_neg (of_decide_eq_false hc)]
  simp only [readMagnitude?, hwhole, hfraction, hexponent, if_neg hzero, Option.bind_eq_bind,
    Option.bind_some, Option.getD_none, List.append_nil, (isNumeral_repr n).value]
  apply if_pos
  refine ⟨rfl, rfl, ?_⟩
  rintro ⟨hnegative, hzero⟩
  apply hn hnegative (Int.ofNat_eq_zero.mp hzero)

/-! ### Values -/

/-- The value is read off the front of any longer text whose rest is closing. -/
def ReadsBack (j : Json) : Prop :=
  ∀ (fuel : Nat) (rest : List Char), Closing rest → 2 * j.render.toList.length ≤ fuel →
    readValue? fuel (j.render.toList ++ rest) = some (j, rest)

/-- The character is neither white space nor the end of an array. -/
def isOpening (c : Char) : Bool :=
  c ≠ ' ' ∧ c ≠ '\n' ∧ c ≠ '\r' ∧ c ≠ '\t' ∧ c ≠ ']'

theorem dropSpace_cons {c : Char} (hc : isOpening c = true) (cs : List Char) :
  dropSpace (c :: cs) = c :: cs
  := by
  obtain ⟨hspace, hnewline, hreturn, htab, -⟩ := of_decide_eq_true hc
  apply List.dropWhile_cons_of_neg
  simp [hspace, hnewline, hreturn, htab]

/-- A text of an integer starts with a minus sign or a digit. -/
theorem render_integer_eq (n : Int) :
  ∃ c cs, (Integer.render n).toList = c :: cs ∧ (c = '-' ∨ c.isDigit = true)
  := by
  cases n with
  | ofNat m =>
    have h := isNumeral_repr m
    obtain ⟨c, cs, heq⟩ := List.exists_cons_of_ne_nil h.ne_nil
    exact ⟨c, cs, heq, Or.inr (h.isDigit c (heq ▸ List.mem_cons_self))⟩
  | negSucc m =>
    refine ⟨'-', (m + 1).repr.toList, ?_, Or.inl rfl⟩
    rw [Integer.render, String.toList_append]
    rfl

theorem isOpening_of_isDigit {c : Char} (hc : c.isDigit = true) :
  isOpening c = true
  := by
  apply decide_eq_true
  refine ⟨?_, ?_, ?_, ?_, ?_⟩ <;> (rintro rfl; exact absurd hc (by decide))

/-- The text of a value starts with an opening character. -/
theorem exists_opening (j : Json) :
  ∃ c cs, j.render.toList = c :: cs ∧ isOpening c = true
  := by
  have hinteger : ∀ n : Int, ∃ c cs, (Integer.render n).toList = c :: cs ∧ isOpening c = true := by
    intro n
    obtain ⟨c, cs, heq, rfl | hdigit⟩ := render_integer_eq n
    · exact ⟨_, cs, heq, by decide⟩
    · exact ⟨c, cs, heq, isOpening_of_isDigit hdigit⟩
  cases j with
  | null => exact ⟨'n', _, rfl, by decide⟩
  | bool b =>
    cases b with
    | false => exact ⟨'f', _, rfl, by decide⟩
    | true => exact ⟨'t', _, rfl, by decide⟩
  | integer n =>
    rw [render]
    apply hinteger
  | decimal coefficient exponent =>
    obtain ⟨c, cs, heq, hc⟩ := hinteger coefficient
    refine ⟨c, cs ++ ("e".toList ++ (Integer.render exponent).toList), ?_, hc⟩
    rw [render, String.toList_append, String.toList_append, heq, List.append_assoc]
    rfl
  | string s =>
    rw [render, toList_quoted]
    exact ⟨'"', _, rfl, by decide⟩
  | array items =>
    refine ⟨'[', (renderItems items).toList ++ [']'], ?_, by decide⟩
    rw [render, String.toList_append, String.toList_append, List.append_assoc]
    rfl
  | object members =>
    refine ⟨'\x7b', (renderMembers members).toList ++ ['\x7d'], ?_, by decide⟩
    rw [render, String.toList_append, String.toList_append, List.append_assoc]
    rfl

/-- There is fuel for the first step, since a text is not empty. -/
theorem readsBack_of_succ {j : Json}
    (h : ∀ (fuel : Nat) (rest : List Char), Closing rest → 2 * j.render.toList.length ≤ fuel + 1 →
      readValue? (fuel + 1) (j.render.toList ++ rest) = some (j, rest)) :
  ReadsBack j
  := by
  intro fuel rest hrest hfuel
  obtain ⟨c, cs, heq, -⟩ := exists_opening j
  obtain ⟨fuel, rfl⟩ : ∃ k, fuel = k + 1 := by
    rw [heq, List.length_cons] at hfuel
    exact ⟨fuel - 1, by omega⟩
  exact h fuel rest hrest hfuel

theorem readsBack_integer (n : Int) :
  ReadsBack (integer n)
  := by
  apply readsBack_of_succ
  intro fuel rest hrest _
  obtain ⟨c, cs, heq, hc⟩ := exists_opening (integer n)
  cases n with
  | negSucc m =>
    rw [render, Integer.render, String.toList_append]
    apply (readMagnitude?_repr true (fun _ => Nat.succ_ne_zero m) hrest).trans
    rfl
  | ofNat m =>
    have hm : (integer (Int.ofNat m)).render = m.repr := by rw [render, Integer.render]
    rw [hm] at heq ⊢
    have hdigit : c.isDigit = true := (isNumeral_repr m).isDigit c (heq ▸ List.mem_cons_self)
    have hread := readMagnitude?_repr false (n := m) (by simp) hrest
    rw [heq, List.cons_append] at hread ⊢
    rw [readValue?, dropSpace_cons hc]
    -- A digit starts none of the other kinds of values.
    split <;> try (rename_i h; cases h; exact absurd hdigit (by decide))
    exact hread

theorem readsBack_string (s : String) :
  ReadsBack (string s)
  := by
  apply readsBack_of_succ
  intro fuel rest _ _
  rw [render, toList_quoted, List.cons_append, List.append_assoc, List.singleton_append, readValue?,
    dropSpace_cons (by decide)]
  simp only [readString?_toList_quoted, Option.map_some]

/-! ### Arrays and objects -/

/-- The items of an array, of which there is at least one, are read up to its end. -/
theorem readItems?_render {j : Json} {items : List Json}
    (hitems : ∀ i ∈ j :: items, ReadsBack i) (fuel : Nat)
    (hfuel : 2 * (renderItems (j :: items)).toList.length + 1 ≤ fuel) (read : List Json)
    (rest : List Char) :
  readItems? fuel read ((renderItems (j :: items)).toList ++ ']' :: rest)
    = some (array (read.reverse ++ j :: items), rest)
  := by
  obtain ⟨fuel, rfl⟩ : ∃ k, fuel = k + 1 := ⟨fuel - 1, by omega⟩
  induction items generalizing fuel read j with
  | nil =>
    have hj := hitems j List.mem_cons_self
    rw [renderItems] at hfuel ⊢
    rw [readItems?, hj fuel _ (closing_cons (by decide)) (by omega), ← List.reverse_cons]
    rfl
  | cons j' items ih =>
    obtain ⟨hj, hitems⟩ := List.forall_mem_cons.mp hitems
    have hcomma : (renderItems (j :: j' :: items)).toList
        = j.render.toList ++ ',' :: (renderItems (j' :: items)).toList := by
      rw [renderItems, String.toList_append, String.toList_append, List.append_assoc]
      rfl
    rw [hcomma, List.length_append, List.length_cons] at hfuel
    obtain ⟨fuel, rfl⟩ : ∃ k, fuel = k + 1 := ⟨fuel - 1, by omega⟩
    have hrest := ih hitems (j :: read) fuel (by omega)
    rw [List.reverse_cons, List.append_assoc, List.singleton_append] at hrest
    rw [hcomma, List.append_assoc, List.cons_append, readItems?,
      hj _ _ (closing_cons (by decide)) (by omega), ← hrest]
    rfl

theorem putMember_of_not_mem {name : String} {read : List (String × Json)}
    (hname : name ∉ read.map Prod.fst) (j : Json) :
  putMember name j read = read ++ [(name, j)]
  := by
  rw [putMember, List.filter_eq_self.mpr]
  intro m hm
  apply decide_eq_true
  rintro rfl
  exact hname (List.mem_map_of_mem hm)

theorem renderMembers_cons_cons (m m' : String × Json) (members : List (String × Json)) :
  renderMembers (m :: m' :: members) = renderMembers [m] ++ "," ++ renderMembers (m' :: members)
  := by
  rw [renderMembers, renderMembers]

theorem toList_renderMembers_singleton (name : String) (j : Json) :
  (renderMembers [(name, j)]).toList
    = '"' :: (name.toList.flatMap escaped ++ '"' :: ':' :: j.render.toList)
  := by
  rw [renderMembers, String.toList_append, String.toList_append, toList_quoted]
  simp

/-- A member is read, and then a comma leads to the next one and a brace to the end. -/
theorem readMembers?_member {m : String × Json} (hm : ReadsBack m.2) {fuel : Nat}
    (hfuel : 2 * (renderMembers [m]).toList.length ≤ fuel) {read : List (String × Json)}
    (hname : m.1 ∉ read.map Prod.fst) (rest : List Char) :
  readMembers? (fuel + 1) read ((renderMembers [m]).toList ++ ',' :: rest)
      = readMembers? fuel (read ++ [m]) rest ∧
    readMembers? (fuel + 1) read ((renderMembers [m]).toList ++ '\x7d' :: rest)
      = some (object (read ++ [m]), rest)
  := by
  obtain ⟨name, j⟩ := m
  rw [← putMember_of_not_mem hname]
  rw [toList_renderMembers_singleton] at hfuel ⊢
  simp only [List.length_cons, List.length_append] at hfuel
  have hread : ∀ {c : Char} (hc : c = ',' ∨ c = ']' ∨ c = '\x7d'),
      readValue? fuel (j.render.toList ++ c :: rest) = some (j, c :: rest) :=
    fun hc => hm fuel _ (closing_cons hc) (by simp only; omega)
  constructor
  all_goals
    rw [List.cons_append, List.append_assoc, List.cons_append, List.cons_append, readMembers?,
      dropSpace_cons (by decide)]
    simp only [readString?_toList_quoted]
    rw [dropSpace_cons (by decide)]
    simp only [hread (Or.inl rfl), hread (Or.inr (Or.inr rfl))]
    rfl

theorem not_mem_of_nodup {m : String × Json} {read members : List (String × Json)}
    (hnames : ((read ++ m :: members).map Prod.fst).Nodup) :
  m.1 ∉ read.map Prod.fst
  := by
  rw [List.map_append, List.nodup_append] at hnames
  intro hmem
  exact hnames.2.2 m.1 hmem m.1 List.mem_cons_self rfl

/-- The members of an object, of which there is at least one, are read up to its end. -/
theorem readMembers?_render {m : String × Json} {members : List (String × Json)}
    (hmembers : ∀ n ∈ m :: members, ReadsBack n.2) (fuel : Nat)
    (hfuel : 2 * (renderMembers (m :: members)).toList.length + 1 ≤ fuel)
    (read : List (String × Json)) (hnames : ((read ++ m :: members).map Prod.fst).Nodup)
    (rest : List Char) :
  readMembers? fuel read ((renderMembers (m :: members)).toList ++ '\x7d' :: rest)
    = some (object (read ++ m :: members), rest)
  := by
  obtain ⟨fuel, rfl⟩ : ∃ k, fuel = k + 1 := ⟨fuel - 1, by omega⟩
  have hname := not_mem_of_nodup hnames
  induction members generalizing fuel read m with
  | nil =>
    exact (readMembers?_member (hmembers m List.mem_cons_self) (by omega) hname rest).2
  | cons m' members ih =>
    obtain ⟨hm, hmembers⟩ := List.forall_mem_cons.mp hmembers
    have hcomma : (renderMembers (m :: m' :: members)).toList
        = (renderMembers [m]).toList ++ ',' :: (renderMembers (m' :: members)).toList := by
      rw [renderMembers_cons_cons, String.toList_append, String.toList_append, List.append_assoc]
      rfl
    rw [hcomma, List.length_append, List.length_cons] at hfuel
    obtain ⟨fuel, rfl⟩ : ∃ k, fuel = k + 1 := ⟨fuel - 1, by omega⟩
    rw [List.append_cons] at hnames
    rw [hcomma, List.append_assoc, List.cons_append,
      (readMembers?_member hm (by omega) hname _).1,
      ih hmembers _ hnames fuel (by omega) (not_mem_of_nodup hnames), ← List.append_cons]

/-! ### Whole values -/

/-- The items of an array start as the first of them does. -/
theorem exists_opening_items (j : Json) (items : List Json) :
  ∃ c cs, (renderItems (j :: items)).toList = c :: cs ∧ isOpening c = true
  := by
  obtain ⟨c, cs, heq, hc⟩ := exists_opening j
  cases items with
  | nil => exact ⟨c, cs, by rw [renderItems, heq], hc⟩
  | cons j' items =>
    refine ⟨c, cs ++ ',' :: (renderItems (j' :: items)).toList, ?_, hc⟩
    rw [renderItems, String.toList_append, String.toList_append, heq, List.append_assoc]
    rfl

theorem exists_quote_members (m : String × Json) (members : List (String × Json)) :
  ∃ cs, (renderMembers (m :: members)).toList = '"' :: cs
  := by
  cases members with
  | nil => exact ⟨_, toList_renderMembers_singleton m.1 m.2⟩
  | cons m' members =>
    rw [renderMembers_cons_cons, String.toList_append, String.toList_append,
      toList_renderMembers_singleton, List.append_assoc, List.cons_append]
    exact ⟨_, rfl⟩

theorem readsBack_array {items : List Json} (hitems : ∀ j ∈ items, ReadsBack j) :
  ReadsBack (array items)
  := by
  apply readsBack_of_succ
  intro fuel rest _ hfuel
  have htext : (array items).render.toList = '[' :: ((renderItems items).toList ++ [']']) := by
    rw [render, String.toList_append, String.toList_append, List.append_assoc]
    rfl
  rw [htext] at hfuel ⊢
  rw [List.cons_append, List.append_assoc, List.singleton_append]
  cases items with
  | nil => rfl
  | cons j items =>
    obtain ⟨c, cs, heq, hc⟩ := exists_opening_items j items
    simp only [List.length_cons, List.length_append] at hfuel
    have hread := readItems?_render hitems fuel (by omega) [] rest
    rw [heq, List.cons_append] at hread ⊢
    rw [readValue?, dropSpace_cons (by decide)]
    simp only [dropSpace_cons hc]
    split
    · rename_i h
      cases h
      exact absurd hc (by decide)
    · exact hread

theorem readsBack_object {members : List (String × Json)}
    (hnames : (members.map Prod.fst).Nodup) (hmembers : ∀ m ∈ members, ReadsBack m.2) :
  ReadsBack (object members)
  := by
  apply readsBack_of_succ
  intro fuel rest _ hfuel
  have htext : (object members).render.toList
      = '\x7b' :: ((renderMembers members).toList ++ ['\x7d']) := by
    rw [render, String.toList_append, String.toList_append, List.append_assoc]
    rfl
  rw [htext] at hfuel ⊢
  rw [List.cons_append, List.append_assoc, List.singleton_append]
  cases members with
  | nil => rfl
  | cons m members =>
    obtain ⟨cs, heq⟩ := exists_quote_members m members
    simp only [List.length_cons, List.length_append] at hfuel
    have hread := readMembers?_render hmembers fuel (by omega) [] hnames rest
    rw [heq, List.cons_append] at hread ⊢
    exact hread

theorem Plain.readsBack {j : Json} (hj : Plain j) :
  ReadsBack j
  := by
  induction hj with
  | null => exact readsBack_of_succ fun _ _ _ _ => rfl
  | bool b => cases b <;> exact readsBack_of_succ fun _ _ _ _ => rfl
  | integer n => exact readsBack_integer n
  | string s => exact readsBack_string s
  | array _ ih => exact readsBack_array ih
  | object hnames _ ih => exact readsBack_object hnames ih

/-- A text which is written for a plain value is read as that value. -/
theorem parse?_render {j : Json} (hj : Plain j) :
  parse? j.render = some j
  := by
  have hend : Closing [] := fun _ hc => nomatch hc
  have hread := hj.readsBack (2 * j.render.toList.length + 2) [] hend (by omega)
  rw [List.append_nil] at hread
  simp only [parse?, hread]
  rfl

end ChunkDispatch.Json
