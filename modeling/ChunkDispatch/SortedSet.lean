/-!
# Sorted sets

A *sorted set* over a linear order is a strictly ascending list.  The members of the list
are the members of the set, so a set has one form only: two sorted sets with the same
members are equal (`SortedSet.ext`), and listing a set gives its members in ascending order.
-/

namespace ChunkDispatch

universe u

/-! ### Ascending lists -/

/-- `a` put into its place in an ascending list; a member is not doubled. -/
def insertAscending {α : Type u} [LT α] [DecidableLT α] (a : α) : List α → List α
  | [] => [a]
  | b :: rest =>
    if b < a then b :: insertAscending a rest
    else if a < b then a :: b :: rest
    else b :: rest

section Ascending

variable {α : Type u} [LT α] [LE α] [Std.IsLinearOrder α] [Std.LawfulOrderLT α]

/-- Of two elements neither of which is below the other, both are the same. -/
theorem eq_of_not_lt_of_not_lt {a b : α} (hab : ¬ a < b) (hba : ¬ b < a) :
  a = b
  := by
  rcases Std.lt_trichotomy a b with h | h | h
  · exact absurd h hab
  · exact h
  · exact absurd h hba

theorem mem_insertAscending [DecidableLT α] {a x : α} {ℓ : List α} :
  x ∈ insertAscending a ℓ ↔ x = a ∨ x ∈ ℓ
  := by
  induction ℓ with
  | nil => simp [insertAscending]
  | cons b rest ih =>
    rw [insertAscending]
    split
    · rw [List.mem_cons, ih, List.mem_cons]
      constructor <;> (intro h; rcases h with h | h | h <;> simp [h])
    · split
      · simp
      · rename_i hb ha
        have hab : a = b := eq_of_not_lt_of_not_lt ha hb
        simp [hab]

theorem pairwise_insertAscending [DecidableLT α] {a : α} {ℓ : List α}
    (h : ℓ.Pairwise (· < ·)) :
  (insertAscending a ℓ).Pairwise (· < ·)
  := by
  induction ℓ with
  | nil => simp [insertAscending]
  | cons b rest ih =>
    obtain ⟨hb, hrest⟩ := List.pairwise_cons.mp h
    rw [insertAscending]
    split
    · rename_i hba
      refine List.pairwise_cons.mpr ⟨?_, ih hrest⟩
      intro x hx
      rcases mem_insertAscending.mp hx with rfl | hx
      · exact hba
      · exact hb x hx
    · split
      · rename_i hab
        refine List.pairwise_cons.mpr ⟨?_, h⟩
        intro x hx
        rcases List.mem_cons.mp hx with rfl | hx
        · exact hab
        · exact Std.lt_trans hab (hb x hx)
      · exact h

/-- Two strictly ascending lists with the same members are the same list. -/
theorem eq_of_pairwise_lt {ℓ ℓ' : List α}
    (h : ℓ.Pairwise (· < ·)) (h' : ℓ'.Pairwise (· < ·)) (hmem : ∀ x, x ∈ ℓ ↔ x ∈ ℓ') :
  ℓ = ℓ'
  := by
  induction ℓ generalizing ℓ' with
  | nil =>
    cases ℓ' with
    | nil => rfl
    | cons b rest => exact absurd ((hmem b).mpr List.mem_cons_self) List.not_mem_nil
  | cons a rest ih =>
    cases ℓ' with
    | nil => exact absurd ((hmem a).mp List.mem_cons_self) List.not_mem_nil
    | cons b rest' =>
      obtain ⟨ha, hrest⟩ := List.pairwise_cons.mp h
      obtain ⟨hb, hrest'⟩ := List.pairwise_cons.mp h'
      have hab : a = b := by
        rcases List.mem_cons.mp ((hmem a).mp List.mem_cons_self) with hab | hab
        · exact hab
        · rcases List.mem_cons.mp ((hmem b).mpr List.mem_cons_self) with hba | hba
          · exact hba.symm
          · exact absurd (Std.lt_trans (hb a hab) (ha b hba)) Std.lt_irrefl
      subst hab
      congr 1
      apply ih hrest hrest'
      intro x
      constructor
      · intro hx
        rcases List.mem_cons.mp ((hmem x).mp (List.mem_cons_of_mem _ hx)) with rfl | hx'
        · exact absurd (ha x hx) Std.lt_irrefl
        · exact hx'
      · intro hx
        rcases List.mem_cons.mp ((hmem x).mpr (List.mem_cons_of_mem _ hx)) with rfl | hx'
        · exact absurd (hb x hx) Std.lt_irrefl
        · exact hx'

end Ascending

/-! ### Sets -/

/-- A finite set, held as the strictly ascending list of its members. -/
structure SortedSet (α : Type u) [LT α] where
  toList : List α
  ascending : toList.Pairwise (· < ·)

namespace SortedSet

section Basic

variable {α : Type u} [LT α]

instance : Membership α (SortedSet α) where
  mem s a := a ∈ s.toList

instance [DecidableEq α] (a : α) (s : SortedSet α) : Decidable (a ∈ s) :=
  inferInstanceAs (Decidable (a ∈ s.toList))

instance : EmptyCollection (SortedSet α) where
  emptyCollection := ⟨[], List.Pairwise.nil⟩

instance : Inhabited (SortedSet α) where
  default := ∅

/-- A set is determined by its list. -/
theorem toList_injective {s t : SortedSet α} (h : s.toList = t.toList) :
  s = t
  := by
  cases s
  cases t
  cases h
  rfl

instance [DecidableEq α] : DecidableEq (SortedSet α) :=
  fun _ _ => decidable_of_iff _ ⟨toList_injective, congrArg toList⟩

theorem mem_iff {a : α} {s : SortedSet α} :
  a ∈ s ↔ a ∈ s.toList
  := Iff.rfl

/-- Whether the set has no member. -/
def isEmpty (s : SortedSet α) : Bool :=
  s.toList.isEmpty

/-- The number of members. -/
def size (s : SortedSet α) : Nat :=
  s.toList.length

/-- The least member. -/
def min? (s : SortedSet α) : Option α :=
  s.toList.head?

/-- The members which satisfy `p`. -/
def filter (p : α → Bool) (s : SortedSet α) : SortedSet α :=
  ⟨s.toList.filter p, s.ascending.filter p⟩

/-- The set without `a`. -/
def erase [DecidableEq α] (a : α) (s : SortedSet α) : SortedSet α :=
  s.filter (· ≠ a)

theorem mem_filter {p : α → Bool} {a : α} {s : SortedSet α} :
  a ∈ s.filter p ↔ a ∈ s ∧ p a
  := List.mem_filter

theorem mem_erase [DecidableEq α] {a b : α} {s : SortedSet α} :
  a ∈ s.erase b ↔ a ∈ s ∧ a ≠ b
  := by
  simp [erase, mem_filter]

theorem isEmpty_iff {s : SortedSet α} :
  s.isEmpty ↔ s = ∅
  := by
  simp only [isEmpty, List.isEmpty_iff]
  exact ⟨fun h => toList_injective h, fun h => h ▸ rfl⟩

end Basic

section Linear

variable {α : Type u} [LT α] [LE α] [Std.IsLinearOrder α] [Std.LawfulOrderLT α]

/-- Two sets with the same members are equal. -/
theorem ext {s t : SortedSet α} (h : ∀ a, a ∈ s ↔ a ∈ t) :
  s = t
  := toList_injective (eq_of_pairwise_lt s.ascending t.ascending h)

omit [Std.IsLinearOrder α] in
theorem nodup_toList (s : SortedSet α) :
  s.toList.Nodup
  := by
  apply s.ascending.imp
  rintro a _ hlt rfl
  exact Std.lt_irrefl hlt

variable [DecidableLT α]

/-- The set with `a` added. -/
def insert (a : α) (s : SortedSet α) : SortedSet α :=
  ⟨insertAscending a s.toList, pairwise_insertAscending s.ascending⟩

/-- The set of the members of a list. -/
def ofList (ℓ : List α) : SortedSet α :=
  ℓ.foldl (fun s a => s.insert a) ∅

/-- The members of either set. -/
def union (s t : SortedSet α) : SortedSet α :=
  t.toList.foldl (fun s a => s.insert a) s

theorem mem_insert {a b : α} {s : SortedSet α} :
  a ∈ s.insert b ↔ a = b ∨ a ∈ s
  := mem_insertAscending

theorem mem_foldl_insert {a : α} {ℓ : List α} {s : SortedSet α} :
  a ∈ ℓ.foldl (fun s a => s.insert a) s ↔ a ∈ s ∨ a ∈ ℓ
  := by
  induction ℓ generalizing s with
  | nil => simp
  | cons b rest ih =>
    rw [List.foldl_cons, ih, mem_insert, List.mem_cons, or_assoc, or_left_comm]

theorem mem_ofList {a : α} {ℓ : List α} :
  a ∈ ofList ℓ ↔ a ∈ ℓ
  := by
  rw [ofList, mem_foldl_insert]
  exact or_iff_right List.not_mem_nil

theorem mem_union {a : α} {s t : SortedSet α} :
  a ∈ s.union t ↔ a ∈ s ∨ a ∈ t
  := mem_foldl_insert

end Linear

end SortedSet

end ChunkDispatch
