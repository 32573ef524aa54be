import ChunkDispatch.Proofs.Grid
import Mathlib.Data.Fintype.Card
import Mathlib.Data.Set.Finite.Lattice
import Mathlib.Data.Set.Finite.List
import Mathlib.Logic.Relation

/-!
# Who waits for whom

In a grid a key *waits* for the members of the wait set of its tracker.  A key *reaches* those
which following wait sets leads to in one step or more, and the grid is *acyclic* if no key
reaches itself.  A tracker put into an acyclic grid closes a cycle exactly if one of the keys it
waits for is its own key or reaches it (`acyclic_insert_iff`).
-/

namespace ChunkDispatch

open Relation

/-! ### Paths -/

section Paths

variable {κ : Type} {r r' : κ → κ → Prop} {k x y : κ}

/-- A path to `k` needs only the steps which do not start at `k`. -/
theorem transGen_of_agree (h : ∀ a b, a ≠ k → r a b → r' a b) (hx : x ≠ k)
    (hxk : TransGen r x k) :
  TransGen r' x k
  := by
  induction hxk using TransGen.head_induction_on with
  | single hab => apply TransGen.single (h _ _ hx hab)
  | @head a c hac _ ih =>
    by_cases hc : c = k
    · subst hc
      apply TransGen.single (h _ _ hx hac)
    · apply TransGen.head (h _ _ hx hac) (ih hc)

/-- A path needs only the steps which do not start at `k`, or it comes by `k` before its end. -/
theorem transGen_or_by (h : ∀ a b, a ≠ k → r a b → r' a b) (hxy : TransGen r x y) :
  TransGen r' x y ∨ ReflTransGen r x k ∧ TransGen r k y
  := by
  induction hxy using TransGen.head_induction_on with
  | @single a hab =>
    by_cases ha : a = k
    · subst ha
      exact Or.inr ⟨ReflTransGen.refl, TransGen.single hab⟩
    · exact Or.inl (TransGen.single (h _ _ ha hab))
  | @head a c hac hcb ih =>
    by_cases ha : a = k
    · subst ha
      exact Or.inr ⟨ReflTransGen.refl, TransGen.head hac hcb⟩
    · rcases ih with ih | ⟨hck, hkb⟩
      · exact Or.inl (TransGen.head (h _ _ ha hac) ih)
      · exact Or.inr ⟨ReflTransGen.head hac hck, hkb⟩

/-- Where no path is closed, a finite set has a member from which a given one is reached, or which
it is, and to which no member leads by one step. -/
theorem exists_first (hr : ∀ a, ¬ TransGen r a a) {S : Set κ} (hS : S.Finite) (hx : x ∈ S) :
  ∃ m ∈ S, ReflTransGen r m x ∧ ∀ a ∈ S, ¬ r a m
  := by
  have : Finite S := hS.to_subtype
  have : IsTrans S (fun a b => TransGen r a b) := ⟨fun _ _ _ => TransGen.trans⟩
  have : Std.Irrefl (fun a b : S => TransGen r a b) := ⟨fun a => hr a⟩
  have hwf := Finite.wellFounded_of_trans_of_irrefl (fun a b : S => TransGen r a b)
  obtain ⟨⟨m, hm⟩, hmx, hfirst⟩ := hwf.has_min { a | ReflTransGen r a x }
    ⟨⟨x, hx⟩, ReflTransGen.refl⟩
  refine ⟨m, hm, hmx, ?_⟩
  intro a ha ham
  apply hfirst ⟨a, ha⟩ (ReflTransGen.head ham hmx) (TransGen.single ham)

/-- Where every step goes down, no path is closed. -/
theorem not_transGen_self_of_descending [LT κ] [LE κ] [Std.IsLinearOrder κ] [Std.LawfulOrderLT κ]
    (h : ∀ a b, r a b → b < a) (x : κ) :
  ¬ TransGen r x x
  := by
  have hlt : ∀ {a b}, TransGen r a b → b < a := by
    intro a b hab
    induction hab with
    | single hstep => apply h _ _ hstep
    | tail _ hstep ih => apply Std.lt_trans (h _ _ hstep) ih
  intro hx
  apply Std.lt_irrefl (hlt hx)

end Paths

namespace Grid

variable {p : Partitioner} {g : Grid p} {t : Tracker}

/-- The tracker of `k` has `j` in its wait set. -/
def Waits (g : Grid p) (k j : Key) : Prop :=
  ∃ t, g.find? k = some t ∧ j ∈ t.waitingOn

/-- Following wait sets leads from one key to the other, in one step or more. -/
def Reaches (g : Grid p) : Key → Key → Prop :=
  TransGen g.Waits

/-- No key reaches itself. -/
def Acyclic (g : Grid p) : Prop :=
  ∀ k, ¬ g.Reaches k k

/-- The keys a key waits for, in ascending order. -/
def waitSet (g : Grid p) (k : Key) : List Key :=
  (g.find? k).elim [] (fun t => t.waitingOn.toList)

theorem waits_iff_mem {k j : Key} :
  g.Waits k j ↔ j ∈ g.waitSet k
  := by
  unfold Waits waitSet
  cases g.find? k <;> simp [SortedSet.mem_iff]

instance (g : Grid p) (k j : Key) : Decidable (g.Waits k j) :=
  decidable_of_iff _ waits_iff_mem.symm

/-- Only finitely many keys are tracked. -/
theorem finite_tracked (g : Grid p) :
  { k | ∃ t, g.find? k = some t }.Finite
  := by
  have h : (⋃ i : Fin p.count, { k | k ∈ (g.partition i).keys }).Finite :=
    Set.finite_iUnion (fun i => List.finite_toSet (g.partition i).keys)
  apply h.subset
  rintro k ⟨t, ht⟩
  apply Set.mem_iUnion.mpr
  use p.home k
  apply SortedMap.mem_keys_iff.mpr ⟨t, ht⟩

/-! ### Putting a tracker in -/

theorem waits_insert_self {j : Key} :
  (g.insert t).Waits t.key j ↔ j ∈ t.waitingOn
  := by
  unfold Waits
  rw [find?_insert, if_pos rfl]
  simp

theorem waits_insert_of_ne {k j : Key} (hk : k ≠ t.key) :
  (g.insert t).Waits k j ↔ g.Waits k j
  := by
  unfold Waits
  rw [find?_insert, if_neg hk]

/-- Whether a key leads to the key of a tracker does not depend on that tracker. -/
theorem reaches_insert_key {j : Key} (hj : j ≠ t.key) :
  (g.insert t).Reaches j t.key ↔ g.Reaches j t.key
  := by
  constructor
  · apply transGen_of_agree _ hj
    exact fun _ _ hk => (waits_insert_of_ne hk).mp
  · apply transGen_of_agree _ hj
    exact fun _ _ hk => (waits_insert_of_ne hk).mpr

/-- What a key leads to does not depend on a tracker whose key it does not lead to. -/
theorem reaches_insert_of_not {j k : Key} (hj : j ≠ t.key) (hjt : ¬ g.Reaches j t.key) :
  (g.insert t).Reaches j k ↔ g.Reaches j k
  := by
  constructor
  · intro hjk
    rcases transGen_or_by (fun _ _ hk => (waits_insert_of_ne hk).mp) hjk with h | ⟨h, -⟩
    · apply h
    · rcases reflTransGen_iff_eq_or_transGen.mp h with h | h
      · exact absurd h.symm hj
      · exact absurd ((reaches_insert_key hj).mp h) hjt
  · intro hjk
    rcases transGen_or_by (fun _ _ hk => (waits_insert_of_ne hk).mpr) hjk with h | ⟨h, -⟩
    · apply h
    · rcases reflTransGen_iff_eq_or_transGen.mp h with h | h
      · exact absurd h.symm hj
      · exact absurd h hjt

/-- A tracker leads to the keys it waits for and to those these lead to. -/
theorem reaches_insert_self
    (ht : ∀ j ∈ t.waitingOn, j ≠ t.key ∧ ¬ g.Reaches j t.key) {k : Key} :
  (g.insert t).Reaches t.key k ↔ ∃ j ∈ t.waitingOn, j = k ∨ g.Reaches j k
  := by
  rw [Reaches, TransGen.head'_iff]
  simp only [waits_insert_self, reflTransGen_iff_eq_or_transGen]
  apply exists_congr
  intro j
  apply and_congr_right
  intro hj
  rw [eq_comm]
  apply or_congr_right
  apply reaches_insert_of_not (ht j hj).1 (ht j hj).2

/-- A tracker closes a cycle exactly if it waits for its own key or for one which reaches it. -/
theorem acyclic_insert_iff (hg : g.Acyclic) :
  (g.insert t).Acyclic ↔ ∀ j ∈ t.waitingOn, j ≠ t.key ∧ ¬ g.Reaches j t.key
  := by
  constructor
  · intro h j hj
    have hstep : (g.insert t).Waits t.key j := waits_insert_self.mpr hj
    have hne : j ≠ t.key := by
      rintro rfl
      apply h t.key (TransGen.single hstep)
    use hne
    intro hjt
    apply h t.key (TransGen.head hstep ((reaches_insert_key hne).mpr hjt))
  · intro ht k hk
    rcases transGen_or_by (fun _ _ hk => (waits_insert_of_ne hk).mp) hk with h | ⟨hkt, htk⟩
    · apply hg k h
    · have hloop : (g.insert t).Reaches t.key t.key := htk.trans_left hkt
      obtain ⟨j, hj, h⟩ := (reaches_insert_self ht).mp hloop
      rcases h with h | h
      · apply (ht j hj).1 h
      · apply (ht j hj).2 h

/-- A grid where everybody waits for smaller keys is acyclic. -/
theorem acyclic_of_descending (hg : g.WellFiled)
    (h : ∀ t ∈ g.trackers, ∀ j ∈ t.waitingOn.toList, j < t.key) :
  g.Acyclic
  := by
  apply not_transGen_self_of_descending
  rintro k j ⟨t, ht, hj⟩
  obtain rfl := hg.key ht
  apply h t _ j hj
  apply (mem_values hg).mpr ⟨ht, rfl⟩

/-- A grid whose wait sets are within those of an acyclic grid is acyclic. -/
theorem Acyclic.mono {g' : Grid p} (hg : g.Acyclic) (h : ∀ k j, g'.Waits k j → g.Waits k j) :
  g'.Acyclic
  := fun k hk => hg k (TransGen.mono h k k hk)

end Grid

end ChunkDispatch
