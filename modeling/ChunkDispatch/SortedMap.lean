import ChunkDispatch.SortedSet

/-!
# Sorted maps

A *sorted map* is a list of entries, each a key and its value, whose keys ascend strictly.
Looking a key up (`SortedMap.find?`) is the view through which the map is known: two maps
which agree at every key are equal (`SortedMap.ext`), and each operation has one equation
that says what can be looked up after it.
-/

namespace ChunkDispatch

universe u v w

/-! ### Entries in ascending order of their keys -/

/-- The value `a` put at the key `k`; an entry already at `k` is replaced. -/
def putAscending {κ : Type u} {α : Type v} [LT κ] [DecidableLT κ] (k : κ) (a : α) :
    List (κ × α) → List (κ × α)
  | [] => [(k, a)]
  | e :: rest =>
    if e.1 < k then e :: putAscending k a rest
    else if k < e.1 then (k, a) :: e :: rest
    else (k, a) :: rest

section Ascending

variable {κ : Type u} {α : Type v} [LT κ] [LE κ] [Std.IsLinearOrder κ] [Std.LawfulOrderLT κ]

theorem mem_putAscending_of_pairwise [DecidableLT κ] {k : κ} {a : α} {ℓ : List (κ × α)}
    (h : ℓ.Pairwise (fun e e' => e.1 < e'.1)) {e : κ × α} :
  e ∈ putAscending k a ℓ ↔ e = (k, a) ∨ e ∈ ℓ ∧ e.1 ≠ k
  := by
  induction ℓ with
  | nil => simp [putAscending]
  | cons d rest ih =>
    obtain ⟨hd, hrest⟩ := List.pairwise_cons.mp h
    rw [putAscending]
    split
    · rename_i hdk
      rw [List.mem_cons, ih hrest, List.mem_cons]
      have hne : d.1 ≠ k := fun heq => Std.lt_irrefl (heq ▸ hdk)
      constructor
      · rintro (rfl | rfl | ⟨hm, hk⟩)
        · exact Or.inr ⟨Or.inl rfl, hne⟩
        · exact Or.inl rfl
        · exact Or.inr ⟨Or.inr hm, hk⟩
      · rintro (rfl | ⟨rfl | hm, hk⟩)
        · exact Or.inr (Or.inl rfl)
        · exact Or.inl rfl
        · exact Or.inr (Or.inr ⟨hm, hk⟩)
    · split
      · rename_i hkd
        rw [List.mem_cons]
        refine or_congr_right ⟨fun hm => ⟨hm, ?_⟩, And.left⟩
        intro heq
        rcases List.mem_cons.mp hm with rfl | hm
        · exact Std.lt_irrefl (heq ▸ hkd)
        · exact Std.lt_irrefl (heq ▸ Std.lt_trans hkd (hd e hm))
      · rename_i hdk hkd
        have hk : k = d.1 := eq_of_not_lt_of_not_lt hkd hdk
        rw [List.mem_cons]
        refine or_congr_right ⟨fun hm => ⟨List.mem_cons_of_mem _ hm, ?_⟩, ?_⟩
        · intro heq
          exact Std.lt_irrefl ((heq.trans hk) ▸ hd e hm)
        · rintro ⟨hm, hne⟩
          rcases List.mem_cons.mp hm with rfl | hm
          · exact absurd hk.symm hne
          · exact hm

theorem pairwise_putAscending [DecidableLT κ] {k : κ} {a : α} {ℓ : List (κ × α)}
    (h : ℓ.Pairwise (fun e e' => e.1 < e'.1)) :
  (putAscending k a ℓ).Pairwise (fun e e' => e.1 < e'.1)
  := by
  induction ℓ with
  | nil => simp [putAscending]
  | cons d rest ih =>
    obtain ⟨hd, hrest⟩ := List.pairwise_cons.mp h
    rw [putAscending]
    split
    · rename_i hdk
      refine List.pairwise_cons.mpr ⟨?_, ih hrest⟩
      intro e he
      rcases (mem_putAscending_of_pairwise hrest).mp he with rfl | ⟨he, _⟩
      · exact hdk
      · exact hd e he
    · split
      · rename_i hkd
        refine List.pairwise_cons.mpr ⟨?_, h⟩
        intro e he
        rcases List.mem_cons.mp he with rfl | he
        · exact hkd
        · exact Std.lt_trans hkd (hd e he)
      · rename_i hdk hkd
        have hk : k = d.1 := eq_of_not_lt_of_not_lt hkd hdk
        refine List.pairwise_cons.mpr ⟨?_, hrest⟩
        intro e he
        exact hk ▸ hd e he

omit [Std.IsLinearOrder κ] in
/-- Two entries of an ascending list with one key are one entry. -/
theorem eq_of_mem_of_fst_eq {ℓ : List (κ × α)} (h : ℓ.Pairwise (fun e e' => e.1 < e'.1))
    {e e' : κ × α} (he : e ∈ ℓ) (he' : e' ∈ ℓ) (hfst : e.1 = e'.1) :
  e = e'
  := by
  induction ℓ with
  | nil => exact absurd he List.not_mem_nil
  | cons d rest ih =>
    obtain ⟨hd, hrest⟩ := List.pairwise_cons.mp h
    rcases List.mem_cons.mp he with rfl | hm
    · rcases List.mem_cons.mp he' with rfl | hm'
      · rfl
      · exact absurd (hfst ▸ hd e' hm') Std.lt_irrefl
    · rcases List.mem_cons.mp he' with rfl | hm'
      · exact absurd (hfst ▸ hd e hm) Std.lt_irrefl
      · exact ih hrest hm hm'

/-- Two ascending lists with the same entries are the same list. -/
theorem eq_of_pairwise_fst_lt {ℓ ℓ' : List (κ × α)}
    (h : ℓ.Pairwise (fun e e' => e.1 < e'.1)) (h' : ℓ'.Pairwise (fun e e' => e.1 < e'.1))
    (hmem : ∀ e, e ∈ ℓ ↔ e ∈ ℓ') :
  ℓ = ℓ'
  := by
  induction ℓ generalizing ℓ' with
  | nil =>
    cases ℓ' with
    | nil => rfl
    | cons b rest => exact absurd ((hmem b).mpr List.mem_cons_self) List.not_mem_nil
  | cons a rest ih =>
    cases ℓ' with
    | nil => exact absurd ((hmem a).mp List.mem_cons_self) List.not_mem_nil
    | cons b rest' =>
      obtain ⟨ha, hrest⟩ := List.pairwise_cons.mp h
      obtain ⟨hb, hrest'⟩ := List.pairwise_cons.mp h'
      have hab : a = b := by
        rcases List.mem_cons.mp ((hmem a).mp List.mem_cons_self) with hab | hab
        · exact hab
        · rcases List.mem_cons.mp ((hmem b).mpr List.mem_cons_self) with hba | hba
          · exact hba.symm
          · exact absurd (Std.lt_trans (hb a hab) (ha b hba)) Std.lt_irrefl
      subst hab
      congr 1
      apply ih hrest hrest'
      intro x
      constructor
      · intro hx
        rcases List.mem_cons.mp ((hmem x).mp (List.mem_cons_of_mem _ hx)) with rfl | hx'
        · exact absurd (ha x hx) Std.lt_irrefl
        · exact hx'
      · intro hx
        rcases List.mem_cons.mp ((hmem x).mpr (List.mem_cons_of_mem _ hx)) with rfl | hx'
        · exact absurd (hb x hx) Std.lt_irrefl
        · exact hx'

end Ascending

/-! ### Maps -/

/-- A finite map, held as the list of its entries in strictly ascending order of their keys. -/
structure SortedMap (κ : Type u) (α : Type v) [LT κ] where
  toList : List (κ × α)
  ascending : toList.Pairwise (fun e e' => e.1 < e'.1)

namespace SortedMap

section Basic

variable {κ : Type u} {α : Type v} [LT κ]

instance : EmptyCollection (SortedMap κ α) where
  emptyCollection := ⟨[], List.Pairwise.nil⟩

instance : Inhabited (SortedMap κ α) where
  default := ∅

/-- A map is determined by its list. -/
theorem toList_injective {m m' : SortedMap κ α} (h : m.toList = m'.toList) :
  m = m'
  := by
  cases m
  cases m'
  cases h
  rfl

instance [DecidableEq κ] [DecidableEq α] : DecidableEq (SortedMap κ α) :=
  fun _ _ => decidable_of_iff _ ⟨toList_injective, congrArg toList⟩

/-- The keys, ascending. -/
def keys (m : SortedMap κ α) : List κ :=
  m.toList.map Prod.fst

/-- The values, in ascending order of their keys. -/
def values (m : SortedMap κ α) : List α :=
  m.toList.map Prod.snd

/-- The number of entries. -/
def size (m : SortedMap κ α) : Nat :=
  m.toList.length

/-- Whether the map has no entry. -/
def isEmpty (m : SortedMap κ α) : Bool :=
  m.toList.isEmpty

/-- The value at `k`. -/
def find? [DecidableEq κ] (m : SortedMap κ α) (k : κ) : Option α :=
  (m.toList.find? (fun e => e.1 = k)).map Prod.snd

/-- Whether `k` has a value. -/
def contains [DecidableEq κ] (m : SortedMap κ α) (k : κ) : Bool :=
  (m.find? k).isSome

/-- The entries which satisfy `p`. -/
def filter (p : κ → α → Bool) (m : SortedMap κ α) : SortedMap κ α :=
  ⟨m.toList.filter (fun e => p e.1 e.2), m.ascending.filter _⟩

/-- The map without the key `k`. -/
def erase [DecidableEq κ] (k : κ) (m : SortedMap κ α) : SortedMap κ α :=
  m.filter (fun k' _ => k' ≠ k)

/-- The map with `f` applied to every value. -/
def map {β : Type w} (f : α → β) (m : SortedMap κ α) : SortedMap κ β :=
  ⟨m.toList.map (fun e => (e.1, f e.2)), List.Pairwise.map _ (fun _ _ h => h) m.ascending⟩

/-- The keys as a set. -/
def keySet (m : SortedMap κ α) : SortedSet κ :=
  ⟨m.keys, List.Pairwise.map _ (fun _ _ h => h) m.ascending⟩

theorem values_map {β : Type w} (f : α → β) (m : SortedMap κ α) :
  (m.map f).values = m.values.map f
  := by
  simp [values, map]

theorem keys_map {β : Type w} (f : α → β) (m : SortedMap κ α) :
  (m.map f).keys = m.keys
  := by
  simp [keys, map]

@[simp]
theorem find?_empty [DecidableEq κ] (k : κ) :
  (∅ : SortedMap κ α).find? k = none
  := rfl

end Basic

section Lookup

variable {κ : Type u} {α : Type v} [LT κ] [LE κ] [Std.LawfulOrderLT κ] [DecidableEq κ]

theorem find?_eq_some_iff {m : SortedMap κ α} {k : κ} {a : α} :
  m.find? k = some a ↔ (k, a) ∈ m.toList
  := by
  rw [find?, Option.map_eq_some_iff]
  constructor
  · rintro ⟨e, he, rfl⟩
    have hk : e.1 = k := by simpa using List.find?_some he
    exact hk ▸ List.mem_of_find?_eq_some he
  · intro h
    cases hf : m.toList.find? (fun e => e.1 = k) with
    | none => exact absurd (List.find?_eq_none.mp hf (k, a) h) (by simp)
    | some e =>
      refine ⟨e, rfl, ?_⟩
      have hk : e.1 = k := by simpa using List.find?_some hf
      exact congrArg Prod.snd
        (eq_of_mem_of_fst_eq m.ascending (List.mem_of_find?_eq_some hf) h hk)

theorem find?_filter {p : κ → α → Bool} {m : SortedMap κ α} {k : κ} :
  (m.filter p).find? k = (m.find? k).filter (p k)
  := by
  apply Option.ext
  intro a
  rw [find?_eq_some_iff, Option.filter_eq_some_iff, find?_eq_some_iff]
  exact List.mem_filter

theorem find?_erase {m : SortedMap κ α} {k k' : κ} :
  (m.erase k).find? k' = if k' = k then none else m.find? k'
  := by
  rw [erase, find?_filter]
  by_cases h : k' = k
  · simp [h]
  · cases hm : m.find? k' <;> simp [h]

theorem mem_keys_iff {m : SortedMap κ α} {k : κ} :
  k ∈ m.keys ↔ ∃ a, m.find? k = some a
  := by
  simp [keys, find?_eq_some_iff]

end Lookup

section Linear

variable {κ : Type u} {α : Type v} [LT κ] [LE κ] [Std.IsLinearOrder κ] [Std.LawfulOrderLT κ]
variable [DecidableEq κ]

/-- Two maps which agree at every key are equal. -/
theorem ext {m m' : SortedMap κ α} (h : ∀ k, m.find? k = m'.find? k) :
  m = m'
  := by
  apply toList_injective
  apply eq_of_pairwise_fst_lt m.ascending m'.ascending
  intro e
  rw [← find?_eq_some_iff (m := m) (k := e.1) (a := e.2), h, find?_eq_some_iff]

variable [DecidableLT κ]

/-- The map with the value `a` at the key `k`. -/
def insert (k : κ) (a : α) (m : SortedMap κ α) : SortedMap κ α :=
  ⟨putAscending k a m.toList, pairwise_putAscending m.ascending⟩

/-- The map with the value at `k` replaced by what `f` makes of it. -/
def alter (k : κ) (f : Option α → α) (m : SortedMap κ α) : SortedMap κ α :=
  m.insert k (f (m.find? k))

/-- The map of the entries of a list; of two entries with one key the later one stays. -/
def ofList (ℓ : List (κ × α)) : SortedMap κ α :=
  ℓ.foldl (fun m e => m.insert e.1 e.2) ∅

/-- The entries of both maps; where both have a key, the entry of `m'`. -/
def union (m m' : SortedMap κ α) : SortedMap κ α :=
  m'.toList.foldl (fun m e => m.insert e.1 e.2) m

theorem find?_insert {m : SortedMap κ α} {k k' : κ} {a : α} :
  (m.insert k a).find? k' = if k' = k then some a else m.find? k'
  := by
  apply Option.ext
  intro b
  rw [find?_eq_some_iff, insert, mem_putAscending_of_pairwise m.ascending]
  by_cases h : k' = k
  · simp [h, eq_comm]
  · simp [h, find?_eq_some_iff]

end Linear

end SortedMap

end ChunkDispatch
