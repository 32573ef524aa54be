import ChunkDispatch.Grid
import Mathlib.Order.Defs.Unbundled

/-!
# Looking through the grid

A grid is *well filed* if every tracker lies under its own key, in the partition its key belongs
to.  What a query gathers from a well filed grid are the trackers which can be looked up and
satisfy the query, whatever the number of partitions.
-/

namespace ChunkDispatch

/-! ### Maps put together -/

namespace SortedMap

variable {κ α : Type} [LT κ] [LE κ] [Std.IsLinearOrder κ] [Std.LawfulOrderLT κ]
variable [DecidableEq κ] [DecidableLT κ]

/-- After entries were put, a key has the value of the last entry with this key, or else the one it
had before. -/
theorem find?_foldl_insert (ℓ : List (κ × α)) (m : SortedMap κ α) (k : κ) :
  (ℓ.foldl (fun m e => m.insert e.1 e.2) m).find? k
    = ((ℓ.reverse.find? (fun e => e.1 = k)).map Prod.snd).or (m.find? k)
  := by
  induction ℓ generalizing m with
  | nil => rfl
  | cons e rest ih =>
    rw [List.foldl_cons, ih, find?_insert, List.reverse_cons, List.find?_append, Option.map_or,
      Option.or_assoc]
    congr 1
    by_cases hk : e.1 = k
    · simp [hk]
    · simp [hk, Ne.symm hk]

omit [Std.IsLinearOrder κ] [DecidableLT κ] in
/-- It makes no difference in which direction the entries are looked through. -/
theorem find?_reverse (m : SortedMap κ α) (k : κ) :
  (m.toList.reverse.find? (fun e => e.1 = k)).map Prod.snd = m.find? k
  := by
  cases hf : m.toList.reverse.find? (fun e => e.1 = k) with
  | none =>
    symm
    apply Option.eq_none_iff_forall_ne_some.mpr
    intro a ha
    have hmem := List.mem_reverse.mpr (find?_eq_some_iff.mp ha)
    apply List.find?_eq_none.mp hf _ hmem
    exact decide_eq_true rfl
  | some e =>
    have hkey : e.1 = k := by simpa using List.find?_some hf
    symm
    apply find?_eq_some_iff.mpr
    rw [← hkey]
    apply List.mem_reverse.mp (List.mem_of_find?_eq_some hf)

theorem find?_alter (m : SortedMap κ α) (k k' : κ) (f : Option α → α) :
  (m.alter k f).find? k' = if k' = k then some (f (m.find? k)) else m.find? k'
  := find?_insert

/-- Where altering a value twice is altering it once, a key may stand on the list several times. -/
theorem find?_foldl_alter_of_idem {f : Option α → α} (hf : ∀ o, f (some (f o)) = f o)
    (ks : List κ) (m : SortedMap κ α) (k : κ) :
  (ks.foldl (fun m k => m.alter k f) m).find? k
    = if k ∈ ks then some (f (m.find? k)) else m.find? k
  := by
  induction ks generalizing m with
  | nil => rfl
  | cons k' rest ih =>
    rw [List.foldl_cons, ih, find?_alter]
    by_cases hk : k = k'
    · subst hk
      rw [if_pos rfl, if_pos List.mem_cons_self, hf, ite_self]
    · simp [hk]

/-- Each key of `m'` is altered once, by what `f` makes of its value and of the one there. -/
theorem find?_foldl_alter {β : Type} (f : β → Option α → α) (m' : SortedMap κ β)
    (m : SortedMap κ α) (k : κ) :
  (m'.toList.foldl (fun m e => m.alter e.1 (f e.2)) m).find? k
    = (m'.find? k).elim (m.find? k) (fun b => some (f b (m.find? k)))
  := by
  have h : ∀ ℓ : List (κ × β), ℓ.Pairwise (fun e e' => e.1 < e'.1) → ∀ m : SortedMap κ α,
      (ℓ.foldl (fun m e => m.alter e.1 (f e.2)) m).find? k
        = ((ℓ.find? (fun e => e.1 = k)).map Prod.snd).elim (m.find? k)
            (fun b => some (f b (m.find? k))) := by
    intro ℓ
    induction ℓ with
    | nil => exact fun _ _ => rfl
    | cons e rest ih =>
      intro hpairwise m
      obtain ⟨he, hrest⟩ := List.pairwise_cons.mp hpairwise
      rw [List.foldl_cons, ih hrest, find?_alter, List.find?_cons]
      by_cases hk : e.1 = k
      · have hnone : rest.find? (fun e => e.1 = k) = none := by
          apply List.find?_eq_none.mpr
          intro d hd heq
          have hlt := he d hd
          rw [hk, of_decide_eq_true heq] at hlt
          apply Std.lt_irrefl hlt
        simp [hnone, hk]
      · simp [hk, Ne.symm hk]
  apply h m'.toList m'.ascending

omit [Std.IsLinearOrder κ] [DecidableLT κ] in
theorem find?_map {β : Type} (m : SortedMap κ α) (f : α → β) (k : κ) :
  (m.map f).find? k = (m.find? k).map f
  := by
  apply Option.ext
  intro b
  rw [find?_eq_some_iff, Option.map_eq_some_iff]
  simp only [find?_eq_some_iff]
  rw [map, List.mem_map]
  constructor
  · rintro ⟨⟨k', a⟩, hmem, heq⟩
    cases heq
    exact ⟨a, hmem, rfl⟩
  · rintro ⟨a, hmem, rfl⟩
    exact ⟨(k, a), hmem, rfl⟩

theorem find?_union (m m' : SortedMap κ α) (k : κ) :
  (m.union m').find? k = (m'.find? k).or (m.find? k)
  := by
  rw [union, find?_foldl_insert, find?_reverse]

/-- The entries of a map made of a list are on the list, and each key on the list has one. -/
theorem find?_ofList (ℓ : List (κ × α)) :
  (∀ k a, (ofList ℓ).find? k = some a → (k, a) ∈ ℓ) ∧
    ∀ e ∈ ℓ, ∃ a, (ofList ℓ).find? e.1 = some a
  := by
  constructor
  · intro k a hk
    rw [ofList, find?_foldl_insert, find?_empty, Option.or_none, Option.map_eq_some_iff] at hk
    obtain ⟨e, he, rfl⟩ := hk
    have hkey : e.1 = k := by simpa using List.find?_some he
    rw [← hkey]
    apply List.mem_reverse.mp (List.mem_of_find?_eq_some he)
  · intro e he
    rw [ofList, find?_foldl_insert]
    cases hf : ℓ.reverse.find? (fun d => d.1 = e.1) with
    | none =>
      have hnot := List.find?_eq_none.mp hf e (List.mem_reverse.mpr he)
      exact absurd (decide_eq_true rfl) hnot
    | some d => exact ⟨d.2, rfl⟩

/-- If each key has one entry on a list at most, the map made of the list has the entries on it. -/
theorem find?_ofList_eq {ℓ : List (κ × α)} {f : κ → Option α}
    (h : ∀ k a, (k, a) ∈ ℓ ↔ f k = some a) (k : κ) :
  (ofList ℓ).find? k = f k
  := by
  obtain ⟨hfound, hkept⟩ := find?_ofList ℓ
  apply Option.ext
  intro a
  rw [← h]
  constructor
  · apply hfound
  · intro ha
    obtain ⟨a', ha'⟩ := hkept _ ha
    cases ((h k a').mp (hfound k a' ha')).symm.trans ((h k a).mp ha)
    apply ha'

omit [Std.IsLinearOrder κ] [DecidableLT κ] in
theorem mem_values_iff {m : SortedMap κ α} {a : α} :
  a ∈ m.values ↔ ∃ k, m.find? k = some a
  := by
  simp [values, find?_eq_some_iff]

/-- If every tracker lies under its own key, the values ascend by key. -/
theorem pairwise_values_key {m : Entries} (hm : ∀ k t, m.find? k = some t → t.key = k) :
  m.values.Pairwise (fun t u => t.key < u.key)
  := by
  have hkey : ∀ e ∈ m.toList, e.2.key = e.1 :=
    fun e he => hm e.1 e.2 (find?_eq_some_iff.mpr he)
  apply List.pairwise_map.mpr
  apply m.ascending.imp_of_mem
  intro e d he hd hlt
  rw [hkey e he, hkey d hd]
  exact hlt

/-- If every tracker lies under its own key, no two values have one key. -/
theorem pairwise_values {m : Entries} (hm : ∀ k t, m.find? k = some t → t.key = k) :
  m.values.Pairwise (fun t u => t.key ≠ u.key)
  := by
  apply (pairwise_values_key hm).imp
  intro t u hlt heq
  rw [heq] at hlt
  apply Std.lt_irrefl hlt

end SortedMap

namespace Grid

variable {p : Partitioner} {g : Grid p}

/-! ### Well filed grids -/

/-- Every tracker lies under its own key, in the partition its key belongs to. -/
structure WellFiled (g : Grid p) : Prop where
  key_eq : ∀ i k t, (g.partition i).find? k = some t → t.key = k
  home_eq : ∀ i k t, (g.partition i).find? k = some t → p.home k = i

theorem wellFiled_empty :
  (empty p).WellFiled
  := by
  have h : ∀ i k, ((empty p).partition i).find? k = none := by
    intro i k
    simp [partition, empty]
  constructor
  · intro i k t ht
    cases (h i k).symm.trans ht
  · intro i k t ht
    cases (h i k).symm.trans ht

namespace WellFiled

theorem key (hg : g.WellFiled) {k : Key} {t : Tracker} (ht : g.find? k = some t) :
  t.key = k
  := hg.key_eq _ k t ht

/-- A partition holds what can be looked up and belongs to it. -/
theorem find?_partition (hg : g.WellFiled) (i : Fin p.count) (k : Key) :
  (g.partition i).find? k = if p.home k = i then g.find? k else none
  := by
  by_cases hi : p.home k = i
  · rw [if_pos hi, Grid.find?, hi]
  · rw [if_neg hi]
    cases hk : (g.partition i).find? k with
    | none => rfl
    | some t => exact absurd (hg.home_eq i k t hk) hi

theorem insert (hg : g.WellFiled) (t : Tracker) :
  (g.insert t).WellFiled
  := by
  have h : ∀ i k u, ((g.insert t).partition i).find? k = some u →
      k = t.key ∧ u = t ∧ p.home k = i ∨ (g.partition i).find? k = some u := by
    intro i k u hu
    rw [Grid.insert, partition_mapPartition] at hu
    split at hu
    · rename_i hi
      rw [SortedMap.find?_insert] at hu
      split at hu
      · rename_i hk
        cases hu
        exact Or.inl ⟨hk, rfl, hk ▸ hi.symm⟩
      · exact Or.inr (hi ▸ hu)
    · exact Or.inr hu
  constructor
  · intro i k u hu
    rcases h i k u hu with ⟨rfl, rfl, -⟩ | hu
    · rfl
    · apply hg.key_eq i k u hu
  · intro i k u hu
    rcases h i k u hu with ⟨-, -, hi⟩ | hu
    · apply hi
    · apply hg.home_eq i k u hu

theorem erase (hg : g.WellFiled) (k : Key) :
  (g.erase k).WellFiled
  := by
  have h : ∀ i k' u, ((g.erase k).partition i).find? k' = some u →
      (g.partition i).find? k' = some u := by
    intro i k' u hu
    rw [Grid.erase, partition_mapPartition] at hu
    split at hu
    · rename_i hi
      rw [SortedMap.find?_erase] at hu
      split at hu
      · cases hu
      · apply hi ▸ hu
    · apply hu
  constructor
  · intro i k' u hu
    apply hg.key_eq i k' u (h i k' u hu)
  · intro i k' u hu
    apply hg.home_eq i k' u (h i k' u hu)

end WellFiled

theorem wellFiled_ofTrackers (ts : List Tracker) :
  (ofTrackers p ts).WellFiled
  := by
  have h : ∀ g : Grid p, g.WellFiled → (ts.foldl (fun g t => g.insert t) g).WellFiled := by
    induction ts with
    | nil => exact fun _ hg => hg
    | cons t rest ih => exact fun g hg => ih _ (hg.insert t)
  apply h _ wellFiled_empty

/-- A key of a grid of trackers has the last of the trackers with this key. -/
theorem find?_foldl_insert (ts : List Tracker) (g : Grid p) (k : Key) :
  (ts.foldl (fun g t => g.insert t) g).find? k
    = (ts.reverse.find? (fun t => t.key = k)).or (g.find? k)
  := by
  induction ts generalizing g with
  | nil => rfl
  | cons t rest ih =>
    rw [List.foldl_cons, ih, find?_insert, List.reverse_cons, List.find?_append, Option.or_assoc]
    congr 1
    by_cases hk : t.key = k
    · simp [hk]
    · simp [hk, Ne.symm hk]

/-- A tracker of a list which is the only one with its key is found in the grid made of it. -/
theorem find?_foldl_insert_of_mem {ts : List Tracker} {t : Tracker} (ht : t ∈ ts)
    (hunique : ∀ u ∈ ts, u.key = t.key → u = t) (g : Grid p) :
  (ts.foldl (fun g t => g.insert t) g).find? t.key = some t
  := by
  rw [find?_foldl_insert]
  cases hf : ts.reverse.find? (fun u => u.key = t.key) with
  | none =>
    have hnot := List.find?_eq_none.mp hf t (List.mem_reverse.mpr ht)
    exact absurd (decide_eq_true rfl) hnot
  | some u =>
    have hu : u ∈ ts := List.mem_reverse.mp (List.mem_of_find?_eq_some hf)
    have hkey : u.key = t.key := by simpa using List.find?_some hf
    rw [hunique u hu hkey]
    rfl

/-- A key which no tracker of a list has is left alone. -/
theorem find?_foldl_insert_of_forall_ne {ts : List Tracker} {k : Key}
    (h : ∀ u ∈ ts, u.key ≠ k) (g : Grid p) :
  (ts.foldl (fun g t => g.insert t) g).find? k = g.find? k
  := by
  have hnone : ts.reverse.find? (fun u => u.key = k) = none := by
    apply List.find?_eq_none.mpr
    intro u hu
    simpa using h u (List.mem_reverse.mp hu)
  rw [find?_foldl_insert, hnone]
  rfl

/-! ### Queries -/

/-- What is gathered from the partitions on a list: a key is found if its partition is listed. -/
private theorem find?_foldl_select (hg : g.WellFiled) (q : Tracker → Bool) (k : Key)
    (ℓ : List (Fin p.count)) :
  ∀ found : Entries,
    (p.home k ∈ ℓ →
      (ℓ.foldl (fun found i => found.union ((g.partition i).filter (fun _ t => q t))) found).find? k
        = ((g.find? k).filter q).or (found.find? k)) ∧
    (p.home k ∉ ℓ →
      (ℓ.foldl (fun found i => found.union ((g.partition i).filter (fun _ t => q t))) found).find? k
        = found.find? k)
  := by
  induction ℓ with
  | nil =>
    intro found
    constructor
    · intro hk
      cases hk
    · intro _
      rfl
  | cons i rest ih =>
    intro found
    obtain ⟨hmem, hnot⟩ := ih (found.union ((g.partition i).filter (fun _ t => q t)))
    rw [SortedMap.find?_union, SortedMap.find?_filter, hg.find?_partition i k] at hmem hnot
    constructor
    · intro hk
      rw [List.foldl_cons]
      by_cases hi : p.home k = i
      · rw [if_pos hi] at hmem hnot
        by_cases hrest : p.home k ∈ rest
        · rw [hmem hrest, ← Option.or_assoc, Option.or_self]
        · apply hnot hrest
      · rw [if_neg hi] at hmem
        have hrest : p.home k ∈ rest := (List.mem_cons.mp hk).resolve_left hi
        rw [hmem hrest, Option.filter_none, Option.none_or]
    · intro hk
      have hi : p.home k ≠ i := fun hi => hk (hi ▸ List.mem_cons_self)
      have hrest : p.home k ∉ rest := fun hrest => hk (List.mem_cons_of_mem i hrest)
      rw [if_neg hi] at hnot
      rw [List.foldl_cons, hnot hrest, Option.filter_none, Option.none_or]

theorem find?_select (hg : g.WellFiled) (q : Tracker → Bool) (k : Key) :
  (g.select q).find? k = (g.find? k).filter q
  := by
  have hmem : p.home k ∈ indices p := List.mem_finRange _
  rw [select, parts, List.foldl_map, (find?_foldl_select hg q k _ _).1 hmem,
    SortedMap.find?_empty, Option.or_none]

/-- A query finds the trackers which can be looked up and satisfy it. -/
theorem mem_values (hg : g.WellFiled) {q : Tracker → Bool} {t : Tracker} :
  t ∈ g.values q ↔ g.find? t.key = some t ∧ q t = true
  := by
  rw [values, SortedMap.mem_values_iff]
  constructor
  · rintro ⟨k, hk⟩
    rw [find?_select hg, Option.filter_eq_some_iff] at hk
    obtain rfl := hg.key hk.1
    apply hk
  · intro ht
    refine ⟨t.key, ?_⟩
    rw [find?_select hg, Option.filter_eq_some_iff]
    apply ht

/-- A query finds trackers in the order of their keys. -/
theorem pairwise_values (hg : g.WellFiled) (q : Tracker → Bool) :
  (g.values q).Pairwise (fun t u => t.key < u.key)
  := by
  apply SortedMap.pairwise_values_key
  intro k t ht
  rw [find?_select hg, Option.filter_eq_some_iff] at ht
  apply hg.key ht.1

/-- What can be looked up determines a well filed grid. -/
theorem WellFiled.ext {g' : Grid p} (hg : g.WellFiled) (hg' : g'.WellFiled)
    (h : ∀ k, g.find? k = g'.find? k) :
  g = g'
  := by
  have hpartition : ∀ i, g.partition i = g'.partition i := by
    intro i
    apply SortedMap.ext
    intro k
    rw [hg.find?_partition, hg'.find?_partition, h]
  obtain ⟨partitions⟩ := g
  obtain ⟨partitions'⟩ := g'
  congr 1
  apply Vector.ext
  intro i hi
  apply hpartition ⟨i, hi⟩

/-- What can be looked up determines the trackers, whatever the number of partitions. -/
theorem trackers_congr {p' : Partitioner} {g' : Grid p'} (hg : g.WellFiled) (hg' : g'.WellFiled)
    (h : ∀ k, g.find? k = g'.find? k) :
  g.trackers = g'.trackers
  := by
  apply congrArg SortedMap.values
  apply SortedMap.ext
  intro k
  rw [find?_select hg, find?_select hg', h]

/-- No two trackers have one key. -/
theorem pairwise_trackers (hg : g.WellFiled) :
  g.trackers.Pairwise (fun t u => t.key ≠ u.key)
  := by
  apply (pairwise_values hg _).imp
  intro t u hlt heq
  rw [heq] at hlt
  apply Std.lt_irrefl hlt

theorem nodup_trackers (hg : g.WellFiled) :
  g.trackers.Nodup
  := by
  apply (pairwise_trackers hg).imp
  exact fun hne heq => hne (congrArg Tracker.key heq)

theorem mem_trackers (hg : g.WellFiled) {t : Tracker} :
  t ∈ g.trackers ↔ g.find? t.key = some t
  := by
  rw [trackers, mem_values hg]
  simp

/-- The parts together hold the trackers, each once. -/
theorem perm_parts (hg : g.WellFiled) :
  (g.parts.map SortedMap.values).flatten.Perm g.trackers
  := by
  have hne : ∀ {ℓ : List Tracker}, ℓ.Pairwise (fun t u => t.key ≠ u.key) → ℓ.Nodup :=
    fun h => h.imp (fun hkey heq => hkey (congrArg Tracker.key heq))
  apply (List.perm_ext_iff_of_nodup _ (nodup_trackers hg)).mpr
  · intro t
    simp only [parts, List.mem_flatten, List.mem_map]
    rw [mem_trackers hg]
    constructor
    · rintro ⟨_, ⟨_, ⟨i, -, rfl⟩, rfl⟩, ht⟩
      obtain ⟨k, hk⟩ := SortedMap.mem_values_iff.mp ht
      obtain rfl := hg.key_eq i k t hk
      obtain rfl := hg.home_eq i _ t hk
      exact hk
    · intro ht
      refine ⟨_, ⟨_, ⟨p.home t.key, List.mem_finRange _, rfl⟩, rfl⟩, ?_⟩
      apply SortedMap.mem_values_iff.mpr ⟨t.key, ht⟩
  · apply List.pairwise_flatten.mpr
    constructor
    · rintro _ hpart
      simp only [parts, List.mem_map] at hpart
      obtain ⟨_, ⟨i, -, rfl⟩, rfl⟩ := hpart
      apply hne (SortedMap.pairwise_values (hg.key_eq i))
    · rw [parts, List.map_map]
      apply List.pairwise_map.mpr
      apply (List.nodup_finRange p.count).imp
      rintro i j hij t hti _ htj rfl
      obtain ⟨k, hk⟩ := SortedMap.mem_values_iff.mp hti
      obtain ⟨k', hk'⟩ := SortedMap.mem_values_iff.mp htj
      obtain rfl := hg.key_eq i k t hk
      obtain rfl := hg.key_eq j k' t hk'
      apply hij
      rw [← hg.home_eq i _ t hk, ← hg.home_eq j _ t hk']

theorem isLive_iff {k : Key} :
  g.isLive k = true ↔ ∃ t, g.find? k = some t ∧ t.isLive = true
  := Option.any_eq_true _ _

/-- Whether a key is tracked and its chunk neither completed nor blocked. -/
def isFree (g : Grid p) (k : Key) : Bool :=
  (g.find? k).any (fun t => t.isLive && t.status ≠ .blocked)

theorem isFree_iff {k : Key} :
  g.isFree k = true ↔ ∃ t, g.find? k = some t ∧ t.isLive = true ∧ t.status ≠ .blocked
  := by
  simp [isFree, Option.any_eq_true]

theorem isLive_insert (t : Tracker) (k : Key) :
  (g.insert t).isLive k = if k = t.key then t.isLive else g.isLive k
  := by
  rw [isLive]
  rw [find?_insert]
  split <;> rfl

/-! ### Trackers changed in place -/

section Rel

variable {R : Tracker → Tracker → Prop}

instance [Std.Refl R] : Std.Refl (Option.Rel R) where
  refl
    | none => .none
    | some t => .some (Std.Refl.refl t)

instance [IsTrans Tracker R] : IsTrans (Option Tracker) (Option.Rel R) where
  trans
    | _, _, _, .none, h => h
    | _, _, _, .some h, .some h' => .some (IsTrans.trans _ _ _ h h')

end Rel

/-- The same keys are tracked in both grids, and the trackers of a key are related by `R`. -/
def Each (R : Tracker → Tracker → Prop) (g g' : Grid p) : Prop :=
  ∀ k, Option.Rel R (g.find? k) (g'.find? k)

namespace Each

variable {R : Tracker → Tracker → Prop} {g' g'' : Grid p}

theorem of_eq [Std.Refl R] (h : ∀ k, g'.find? k = g.find? k) :
  Each R g g'
  := by
  intro k
  rw [h]
  apply Std.Refl.refl

/-- If every tracker is the one there was before, the same can be looked up. -/
theorem find?_eq (h : Each Eq g g') (k : Key) :
  g'.find? k = g.find? k
  := by
  have hk := h k
  generalize g.find? k = old at hk ⊢
  generalize g'.find? k = new at hk ⊢
  cases hk with
  | none => rfl
  | some hk => rw [hk]

theorem mono {S : Tracker → Tracker → Prop} (h : Each R g g') (hRS : ∀ t t', R t t' → S t t') :
  Each S g g'
  := by
  intro k
  have hk := h k
  generalize g.find? k = old at hk ⊢
  generalize g'.find? k = new at hk ⊢
  cases hk with
  | none => apply Option.Rel.none
  | some hk => apply Option.Rel.some (hRS _ _ hk)

theorem target {k : Key} {t : Tracker} (h : Each R g g') (ht : g.find? k = some t) :
  ∃ t', g'.find? k = some t' ∧ R t t'
  := by
  have hk := h k
  rw [ht] at hk
  generalize g'.find? k = found at hk ⊢
  cases hk with
  | some hk => exact ⟨_, rfl, hk⟩

theorem source {k : Key} {t' : Tracker} (h : Each R g g') (ht' : g'.find? k = some t') :
  ∃ t, g.find? k = some t ∧ R t t'
  := by
  have hk := h k
  rw [ht'] at hk
  generalize g.find? k = found at hk ⊢
  cases hk with
  | some hk => exact ⟨_, rfl, hk⟩

end Each

end Grid

end ChunkDispatch
