import ChunkDispatch.Proofs.OneMap

/-!
# What is written partition by partition

An action which goes through all partitions writes in each what belongs there.  All it writes
together is what the one map says, in the order of the partitions.  In which order trackers are
written makes a difference to the book alone, and to the book neither when trackers are removed, nor
when they are changed and are at most released into the queue.
-/

namespace ChunkDispatch

/-! ### The book after changes -/

namespace Book

variable {now : Instant}

/-- The book after `new` came in the place of `old`. -/
def afterChange (now : Instant) (old new : Option Tracker) (b : Book) : Book :=
  match EventKind.ofChange? old new with
  | none => b
  | some kind => b.observe ⟨0, now, kind⟩

theorem update_comm (b : Book) (sink sink' : Int32) {f f' : SinkStatus → SinkStatus}
    (h : ∀ s, f' (f s) = f (f' s)) :
  (b.update now sink f).update now sink' f' = (b.update now sink' f').update now sink f
  := by
  apply congrArg Book.mk
  change (b.sinks.alter sink (fun s => f (s.getD (.fresh now)))).alter sink'
    (fun s => f' (s.getD (.fresh now))) = _
  apply SortedMap.alter_comm
  exact fun s => h _

/-- Trackers may be removed in either order. -/
theorem afterChange_none_comm (b : Book) (old old' : Option Tracker) :
  (b.afterChange now old none).afterChange now old' none
    = (b.afterChange now old' none).afterChange now old none
  := by
  cases old with
  | none => rfl
  | some t =>
    cases old' with
    | none => rfl
    | some t' =>
      apply update_comm
      intro s
      cases t.status <;> cases t'.status <;> rfl

/-- The status is kept, or the tracker is released into the queue. -/
def Releases (t u : Tracker) : Prop :=
  u.status = t.status ∨ t.status = .blocked ∧ u.status = .queuedForProcessing

theorem releases_release (c : Change.Release) (t : Tracker) :
  Releases t (c.apply t).2
  := by
  rcases c.apply_status t with ⟨-, hblocked, hqueued⟩ | ⟨-, hsame⟩
  · exact Or.inr ⟨hblocked, hqueued⟩
  · exact Or.inl hsame

theorem afterChange_eq {t u : Tracker} (h : Releases t u) (b : Book) :
  b.afterChange now (some t) (some u)
    = if u.status = t.status then b
      else b.update now u.sink (fun s => (s.remove .blocked).add .queuedForProcessing)
  := by
  simp only [afterChange, EventKind.ofChange?, observe]
  rcases h with h | ⟨ht, hu⟩
  · simp [h]
  · simp [ht, hu]

/-- Trackers which are at most released may be changed in either order. -/
theorem afterChange_comm {t u t' u' : Tracker} (h : Releases t u) (h' : Releases t' u')
    (b : Book) :
  (b.afterChange now (some t) (some u)).afterChange now (some t') (some u')
    = (b.afterChange now (some t') (some u')).afterChange now (some t) (some u)
  := by
  simp only [afterChange_eq h, afterChange_eq h']
  split <;> split
  · rfl
  · rfl
  · rfl
  · apply update_comm
    exact fun _ => rfl

end Book

namespace Board

open Attempt

variable {p : Partitioner} {σ : Type} {b b' b'' : Board p σ} {now : Instant}

theorem emit_book (old new : Option Tracker) (b : Board p σ) :
  (emit now old new b).book = b.book.afterChange now old new
  := by
  rw [emit, Book.afterChange]
  cases EventKind.ofChange? old new <;> rfl

/-- Trackers with distinct keys come each in the place of what was there before. -/
theorem foldl_place_book {ts : List Tracker} (hdistinct : (ts.map Tracker.key).Nodup)
    {found : Key → Option Tracker} (b : Board p σ)
    (h : ∀ t ∈ ts, b.grid.find? t.key = found t.key) :
  (ts.foldl (fun b t => b.place now t) b).book
    = ts.foldl (fun book t => book.afterChange now (found t.key) (some t)) b.book
  := by
  induction ts generalizing b with
  | nil => rfl
  | cons t rest ih =>
    obtain ⟨hne, hrest⟩ := List.nodup_cons.mp hdistinct
    rw [List.foldl_cons, ih hrest, List.foldl_cons, place, emit_book, h t List.mem_cons_self]
    intro u hu
    rw [place_grid, Grid.find?_insert, if_neg, h u (List.mem_cons_of_mem t hu)]
    intro heq
    apply hne
    rw [← heq]
    apply List.mem_map_of_mem hu

/-- Keys which are distinct lose each what was there before. -/
theorem foldl_drop_book {ks : List Key} (hdistinct : ks.Nodup) {found : Key → Option Tracker}
    (b : Board p σ) (h : ∀ k ∈ ks, b.grid.find? k = found k) :
  (ks.foldl (fun b k => b.drop now k) b).book
    = ks.foldl (fun book k => book.afterChange now (found k) none) b.book
  := by
  induction ks generalizing b with
  | nil => rfl
  | cons k rest ih =>
    obtain ⟨hne, hrest⟩ := List.nodup_cons.mp hdistinct
    rw [List.foldl_cons, ih hrest, List.foldl_cons, drop, emit_book, h k List.mem_cons_self]
    intro k' hk'
    rw [drop_grid, Grid.find?_erase, if_neg, h k' (List.mem_cons_of_mem k hk')]
    rintro rfl
    apply hne hk'

/-! ### One write after another -/

section Store

variable {store : σ}

theorem foldl_place_withStore (ts : List Tracker) (b : Board p σ) :
  { ts.foldl (fun b t => b.place now t) b with store := store }
    = ts.foldl (fun b t => b.place now t) { b with store := store }
  := by
  induction ts generalizing b with
  | nil => rfl
  | cons t rest ih =>
    rw [List.foldl_cons, ih, List.foldl_cons, place, place, emit, emit]
    cases EventKind.ofChange? (b.grid.find? t.key) (some t) <;> rfl

theorem foldl_drop_withStore (ks : List Key) (b : Board p σ) :
  { ks.foldl (fun b k => b.drop now k) b with store := store }
    = ks.foldl (fun b k => b.drop now k) { b with store := store }
  := by
  induction ks generalizing b with
  | nil => rfl
  | cons k rest ih =>
    rw [List.foldl_cons, ih, List.foldl_cons, drop, drop, emit, emit]
    cases EventKind.ofChange? (b.grid.find? k) none <;> rfl

end Store

variable [Store σ] [LawfulStore σ]

theorem Puts.working {ts : List Tracker} (h : b.Puts now ts b') (hb : b.Working) :
  b'.Working
  := by
  use h.works hb.works
  rw [h.grid]
  apply hb.filed.insertAll

theorem Deletes.working {ks : List Key} (h : b.Deletes now ks b') (hb : b.Working) :
  b'.Working
  := by
  use h.works hb.works
  rw [h.grid]
  apply hb.filed.eraseAll

theorem Puts.book {ts : List Tracker} (h : b.Puts now ts b')
    (hdistinct : (ts.map Tracker.key).Nodup) :
  b'.book = ts.foldl (fun book t => book.afterChange now (b.grid.find? t.key) (some t)) b.book
  := by
  obtain ⟨s, -, -, rfl⟩ := h
  apply foldl_place_book hdistinct
  exact fun _ _ => rfl

/-- An adjusted tracker comes in the place of what it was. -/
theorem Puts.book_changedAt {α : Type} {f : Tracker → α × Tracker}
    (hf : ∀ t, (f t).2.key = t.key) (hb : b.grid.WellFiled) {k : Key}
    (h : b.Puts now (changedAt now f b.grid k) b') :
  b'.book = (b.grid.find? k).elim b.book
    (fun t => b.book.afterChange now (some t) (some (amend now f t)))
  := by
  rw [h.book (nodup_changedAt now f b.grid k), changedAt]
  cases ht : b.grid.find? k with
  | none => rfl
  | some t =>
    rw [Option.bind_some, Option.elim_some]
    cases hc : changed? now t (f t).2 with
    | none =>
      have hsame : Book.Releases t t := Or.inl rfl
      rw [amend_eq_of_unchanged hc, Book.afterChange_eq hsame, if_pos rfl]
      rfl
    | some u =>
      rw [amend_eq_of_changed? hc, Option.toList_some, List.foldl_cons, List.foldl_nil,
        key_of_changed? hf hc, hb.key ht, ht]

theorem Deletes.book {ks : List Key} (h : b.Deletes now ks b') (hdistinct : ks.Nodup) :
  b'.book = ks.foldl (fun book k => book.afterChange now (b.grid.find? k) none) b.book
  := by
  obtain ⟨s, -, -, rfl⟩ := h
  apply foldl_drop_book hdistinct
  exact fun _ _ => rfl

theorem Puts.append {ts ts' : List Tracker} (h : b.Puts now ts b') (h' : b'.Puts now ts' b'') :
  b.Puts now (ts ++ ts') b''
  := by
  obtain ⟨s, hrows', hworks', rfl⟩ := h'
  use s
  refine ⟨?_, fun hb => hworks' (h.works hb), ?_⟩
  · rw [hrows', h.rows, List.foldl_append]
  · obtain ⟨s', -, -, rfl⟩ := h
    rw [List.foldl_append, foldl_place_withStore]

theorem Deletes.append {ks ks' : List Key} (h : b.Deletes now ks b')
    (h' : b'.Deletes now ks' b'') :
  b.Deletes now (ks ++ ks') b''
  := by
  obtain ⟨s, hrows', hworks', rfl⟩ := h'
  use s
  refine ⟨?_, fun hb => hworks' (h.works hb), ?_⟩
  · rw [hrows', h.rows, List.foldl_append]
  · obtain ⟨s', -, -, rfl⟩ := h
    rw [List.foldl_append, foldl_drop_withStore]

/-- A partition none of the trackers belongs to stays as it is. -/
theorem Puts.partition {ts : List Tracker} (h : b.Puts now ts b') {j : Fin p.count}
    (hj : ∀ t ∈ ts, j ≠ p.home t.key) :
  b'.grid.partition j = b.grid.partition j
  := by
  rw [h.grid]
  clear h
  generalize b.grid = g
  induction ts generalizing g with
  | nil => rfl
  | cons t rest ih =>
    rw [List.foldl_cons, ih (fun u hu => hj u (List.mem_cons_of_mem t hu)), Grid.insert,
      Grid.partition_mapPartition, if_neg (hj t List.mem_cons_self)]

theorem Deletes.partition {ks : List Key} (h : b.Deletes now ks b') {j : Fin p.count}
    (hj : ∀ k ∈ ks, j ≠ p.home k) :
  b'.grid.partition j = b.grid.partition j
  := by
  rw [h.grid]
  clear h
  generalize b.grid = g
  induction ks generalizing g with
  | nil => rfl
  | cons k rest ih =>
    rw [List.foldl_cons, ih (fun k' hk' => hj k' (List.mem_cons_of_mem k hk')), Grid.erase,
      Grid.partition_mapPartition, if_neg (hj k List.mem_cons_self)]

/-- If each partition writes what `f` makes of its entries, all of them write that together. -/
theorem mapM_partitions_writes {α β : Type} {W : List β → Board p σ → Board p σ → Prop}
    (hnil : ∀ b, W [] b b)
    (happend : ∀ {rs rs' b b' b''}, W rs b b' → W rs' b' b'' → W (rs ++ rs') b b'')
    {f : Entries → List β} {x : Fin p.count → Attempt (Board p σ) (List α)}
    (hx : ∀ i (b : Board p σ), b.Working → (x i).Yields b (fun _ b' => b'.Working ∧
      W (f (b.grid.partition i)) b b' ∧ ∀ j, j ≠ i → b'.grid.partition j = b.grid.partition j))
    (hb : b.Working) :
  ((Grid.indices p).mapM x).Yields b (fun _ => W (b.grid.parts.flatMap f) b)
  := by
  -- The loop comes to the partitions of `ℓ`, which have the entries they had before it.
  have h : ∀ ℓ : List (Fin p.count), ℓ.Nodup → ∀ b : Board p σ, b.Working →
      (ℓ.mapM x).Yields b (fun _ => W ((ℓ.map b.grid.partition).flatMap f) b) := by
    intro ℓ
    induction ℓ with
    | nil =>
      intro _ b _
      rw [List.mapM_nil]
      apply hnil
    | cons i rest ih =>
      intro hnodup b hb
      obtain ⟨hi, hrest⟩ := List.nodup_cons.mp hnodup
      rw [List.mapM_cons, Yields, ends_bind]
      apply (hx i b hb).mono
      rintro _ b₁ ⟨hb₁, hwrites, hothers⟩
      rw [ends_bind]
      apply (ih hrest b₁ hb₁).mono
      intro _ b₂ hwrites'
      have hsame : rest.map b₁.grid.partition = rest.map b.grid.partition := by
        apply List.map_congr_left
        rintro j hj
        apply hothers
        rintro rfl
        apply hi hj
      rw [hsame] at hwrites'
      apply happend hwrites hwrites'
  apply h _ (List.nodup_finRange _) b hb

/-! ### What is written to all partitions -/

/-- The trackers which satisfy `q` and are changed by `f`, after the change. -/
def changedWhere {α : Type} (now : Instant) (q : Tracker → Bool) (f : Tracker → α × Tracker)
    (ts : List Tracker) : List Tracker :=
  (ts.filter q).filterMap (fun t => changed? now t (f t).2)

section ChangedWhere

variable {α : Type} {f : Tracker → α × Tracker} (hf : ∀ t, (f t).2.key = t.key)
  (q : Tracker → Bool)

include hf

/-- No two changed trackers have one key. -/
theorem nodup_changedWhere {g : Grid p} (hg : g.WellFiled) :
  ((changedWhere now q f g.trackers).map Tracker.key).Nodup
  := by
  apply List.pairwise_map.mpr
  apply ((Grid.pairwise_trackers hg).filter q).filterMap
  intro t t' hne u hu u' hu'
  rw [key_of_changed? hf hu, key_of_changed? hf hu']
  apply hne

/-- A changed tracker is what became of the one found under its key. -/
theorem exists_of_mem_changedWhere {g : Grid p} (hg : g.WellFiled) {u : Tracker}
    (hu : u ∈ changedWhere now q f g.trackers) :
  ∃ t, g.find? u.key = some t ∧ u = amend now f t
  := by
  obtain ⟨t, ht, hc⟩ := List.mem_filterMap.mp hu
  use t
  rw [key_of_changed? hf hc, amend_eq_of_changed? hc]
  exact ⟨((Grid.mem_values hg).mp (List.mem_filter.mp ht).1).1, rfl⟩

/-- If trackers are at most released, so is each which is changed. -/
theorem releases_of_mem_changedWhere (hreleases : ∀ t, Book.Releases t (f t).2) {g : Grid p}
    (hg : g.WellFiled) {u : Tracker} (hu : u ∈ changedWhere now q f g.trackers) :
  ∃ t, g.find? u.key = some t ∧ Book.Releases t u
  := by
  obtain ⟨t, ht, rfl⟩ := exists_of_mem_changedWhere hf q hg hu
  use t, ht
  rw [Book.Releases, amend_status]
  apply hreleases

end ChangedWhere

theorem flatMap_parts_changed {α : Type} (q : Tracker → Bool) (f : Tracker → α × Tracker)
    (g : Grid p) :
  g.parts.flatMap (fun es => changedWhere now q f es.values)
    = changedWhere now q f (g.parts.map SortedMap.values).flatten
  := by
  rw [changedWhere, List.filter_flatten, List.filterMap_flatten, List.map_map, List.map_map]
  rfl

/-- Adjusting puts the trackers it changes, in some order. -/
theorem adjustWhere_puts {α : Type} (hb : b.Working) (now : Instant) (q : Tracker → Bool)
    {f : Tracker → α × Tracker} (hf : ∀ t, (f t).2.key = t.key) :
  (adjustWhere now q f).Yields b (fun _ b' =>
    ∃ ts, ts.Perm (changedWhere now q f b.grid.trackers) ∧ b.Puts now ts b')
  := by
  rw [adjustWhere, Yields, ends_bind]
  apply (mapM_partitions_writes (f := fun es => changedWhere now q f es.values) (puts_nil now)
    Puts.append _ hb).mono
  · intro _ b' h
    rw [flatMap_parts_changed] at h
    refine ⟨_, ?_, h⟩
    apply List.Perm.filterMap
    apply (Grid.perm_parts hb.filed).filter
  · intro i b hb
    apply (hb.yields (adjustIn_ends b now q f i)).mono
    rintro _ b' ⟨-, h⟩
    refine ⟨h.working hb, ?_, ?_⟩
    · rw [changedWhere, ← SortedMap.values_filter]
      apply h
    · intro j hj
      apply h.partition
      intro u hu
      obtain ⟨t, -, hi, -⟩ := exists_of_mem_changedIn hf hb.filed hu
      rwa [hi]

theorem flatMap_parts_keys {g : Grid p} (hg : g.WellFiled) (q : Tracker → Bool) :
  g.parts.flatMap (fun es => (es.filter (fun _ t => q t)).keys)
    = ((g.parts.map SortedMap.values).flatten.filter q).map Tracker.key
  := by
  rw [List.filter_flatten, List.map_flatten, List.map_map, List.map_map, List.flatMap]
  congr 1
  apply List.map_congr_left
  intro es hes
  obtain ⟨i, -, rfl⟩ := List.mem_map.mp hes
  change _ = ((g.partition i).values.filter q).map Tracker.key
  rw [← SortedMap.values_filter, SortedMap.values, SortedMap.keys, List.map_map]
  apply List.map_congr_left
  rintro ⟨k, t⟩ he
  have ht := SortedMap.find?_eq_some_iff.mpr he
  rw [SortedMap.find?_filter, Option.filter_eq_some_iff] at ht
  apply (hg.key_eq i k t ht.1).symm

/-- Removing deletes the keys of the trackers which satisfy `q`, in some order. -/
theorem removeWhere_deletes (hb : b.Working) (now : Instant) (q : Tracker → Bool) :
  (removeWhere now q).Yields b (fun _ b' =>
    ∃ ks, ks.Perm ((b.grid.trackers.filter q).map Tracker.key) ∧ b.Deletes now ks b')
  := by
  rw [removeWhere, Yields, ends_bind]
  apply (mapM_partitions_writes (f := fun es => (es.filter (fun _ t => q t)).keys)
    (deletes_nil now) Deletes.append _ hb).mono
  · intro _ b' h
    rw [flatMap_parts_keys hb.filed] at h
    refine ⟨_, ?_, h⟩
    apply List.Perm.map
    apply (Grid.perm_parts hb.filed).filter
  · intro i b hb
    apply (hb.yields (removeFrom_ends b now q i)).mono
    rintro _ b' ⟨-, h⟩
    refine ⟨h.working hb, h, ?_⟩
    intro j hj
    apply h.partition
    intro k hk
    obtain ⟨hi, -⟩ := (mem_doomedIn hb.filed q i k).mp hk
    rwa [hi]

end Board

end ChunkDispatch
