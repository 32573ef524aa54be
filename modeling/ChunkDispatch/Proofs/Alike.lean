import ChunkDispatch.Proofs.Scatter
import Mathlib.Data.List.Nodup

/-!
# Boards which differ in their partitions

Two attempts, each made at a state of its own, are *alike* under a relation of the states if they
come to the same result, or fail with the same error, and leave related states.  Programs put
together from attempts which are alike are alike.  A board *mirrors* another if both work and have
the same rows, the same trackers and the same book, whatever their partitions are.  The actions of
boards which mirror one another are alike, and leave such boards.
-/

namespace ChunkDispatch

/-! ### Attempts which are alike -/

namespace Attempt

variable {σ τ α β : Type} {R : σ → τ → Prop} {s : σ} {s' : τ}

/-- Made at `s` and at `s'`, the attempts come to the same and leave states related by `R`. -/
def Alike (R : σ → τ → Prop) (x : Attempt σ α) (s : σ) (y : Attempt τ α) (s' : τ) : Prop :=
  x.outcome s = y.outcome s' ∧ R (x.stateAfter s) (y.stateAfter s')

/-- Either both succeed with one result, or both fail with one error. -/
theorem alike_iff {x : Attempt σ α} {y : Attempt τ α} :
  Alike R x s y s'
    ↔ (∃ a t t', x s = .ok a t ∧ y s' = .ok a t' ∧ R t t') ∨
      ∃ e t t', x s = .error e t ∧ y s' = .error e t' ∧ R t t'
  := by
  simp only [Alike, outcome, stateAfter]
  cases x s <;> cases y s' <;> simp [eq_comm]

theorem alike_of_yields {x : Attempt σ α} {y : Attempt τ α} {Q : α → σ → Prop}
    {Q' : α → τ → Prop} (hx : x.Yields s Q) (hy : y.Yields s' Q')
    (h : ∀ a t a' t', Q a t → Q' a' t' → a = a' ∧ R t t') :
  Alike R x s y s'
  := by
  obtain ⟨a, t, hxs, hq⟩ := yields_iff.mp hx
  obtain ⟨a', t', hys, hq'⟩ := yields_iff.mp hy
  obtain ⟨rfl, ht⟩ := h a t a' t' hq hq'
  exact alike_iff.mpr (Or.inl ⟨a, t, t', hxs, hys, ht⟩)

theorem alike_pure (a : α) (h : R s s') :
  Alike R (pure a) s (pure a) s'
  := ⟨rfl, h⟩

/-- Nothing comes after an error. -/
theorem alike_throw (e : Error) (f : α → Attempt σ β) (g : α → Attempt τ β) (h : R s s') :
  Alike R (throw e >>= f) s (throw e >>= g) s'
  := ⟨rfl, h⟩

/-- Attempts which succeed may come to different results, if what follows makes up for it. -/
theorem alike_bind_of_yields {α' : Type} {x : Attempt σ α} {y : Attempt τ α'}
    {f : α → Attempt σ β} {g : α' → Attempt τ β} {Q : α → σ → Prop} {Q' : α' → τ → Prop}
    (hx : x.Yields s Q) (hy : y.Yields s' Q')
    (hf : ∀ a t a' t', Q a t → Q' a' t' → Alike R (f a) t (g a') t') :
  Alike R (x >>= f) s (y >>= g) s'
  := by
  obtain ⟨a, t, hxs, hq⟩ := yields_iff.mp hx
  obtain ⟨a', t', hys, hq'⟩ := yields_iff.mp hy
  simp only [Alike, outcome, stateAfter, Bind.bind, EStateM.bind, hxs, hys]
  apply hf a t a' t' hq hq'

/-- What follows may use how the second attempt ends. -/
theorem Alike.bind_of_ends {x : Attempt σ α} {y : Attempt τ α} {f : α → Attempt σ β}
    {g : α → Attempt τ β} {Q : α → τ → Prop} {E : Error → τ → Prop} (h : Alike R x s y s')
    (hy : y.Ends s' Q E) (hf : ∀ a t t', R t t' → Q a t' → Alike R (f a) t (g a) t') :
  Alike R (x >>= f) s (y >>= g) s'
  := by
  rcases alike_iff.mp h with ⟨a, t, t', hx, hys, ht⟩ | ⟨e, t, t', hx, hys, ht⟩
  · simp only [Alike, outcome, stateAfter, Bind.bind, EStateM.bind, hx, hys]
    apply hf a t t' ht ((ends_of_ok hys).mp hy)
  · apply alike_iff.mpr
    simp only [Bind.bind, EStateM.bind, hx, hys]
    exact Or.inr ⟨e, t, t', rfl, rfl, ht⟩

theorem Alike.bind {x : Attempt σ α} {y : Attempt τ α} {f : α → Attempt σ β}
    {g : α → Attempt τ β} (h : Alike R x s y s')
    (hf : ∀ a t t', R t t' → Alike R (f a) t (g a) t') :
  Alike R (x >>= f) s (y >>= g) s'
  := by
  apply h.bind_of_ends (Q := fun _ _ => True) (E := fun _ _ => True)
  · apply ends_of_forall <;> exact fun _ _ => trivial
  · exact fun a t t' ht _ => hf a t t' ht

/-- Attempts on parts of the states are alike if they are so on the parts. -/
theorem alike_within {σ' τ' : Type} {get : σ → σ'} {set : σ' → σ → σ} {get' : τ → τ'}
    {set' : τ' → τ → τ} {R' : σ' → τ' → Prop} {x : Attempt σ' α} {y : Attempt τ' α}
    (h : Alike R' x (get s) y (get' s')) (hR : ∀ t t', R' t t' → R (set t s) (set' t' s')) :
  Alike R (x.within get set) s (y.within get' set') s'
  := by
  rcases alike_iff.mp h with ⟨a, t, t', hx, hy, ht⟩ | ⟨e, t, t', hx, hy, ht⟩
  · apply alike_iff.mpr
    simp only [within, hx, hy]
    exact Or.inl ⟨a, _, _, rfl, rfl, hR t t' ht⟩
  · apply alike_iff.mpr
    simp only [within, hx, hy]
    exact Or.inr ⟨e, _, _, rfl, rfl, hR t t' ht⟩

/-- What becomes of the result does not touch the states. -/
theorem Alike.bind_pure {x : Attempt σ α} {y : Attempt τ α} (h : Alike R x s y s')
    (f : α → β) :
  Alike R (x >>= fun a => pure (f a)) s (y >>= fun a => pure (f a)) s'
  := h.bind (fun a _ _ => alike_pure (f a))

theorem alike_get {f : σ → Attempt σ β} {g : τ → Attempt τ β} (h : Alike R (f s) s (g s') s') :
  Alike R (get >>= f) s (get >>= g) s'
  := h

theorem alike_modify {f : σ → σ} {g : τ → τ} (h : R (f s) (g s')) :
  Alike R (modify f : Attempt σ PUnit) s (modify g : Attempt τ PUnit) s'
  := ⟨rfl, h⟩

theorem alike_modifyGet {f : σ → α × σ} {g : τ → α × τ} (ha : (f s).1 = (g s').1)
    (h : R (f s).2 (g s').2) :
  Alike R (modifyGet f : Attempt σ α) s (modifyGet g : Attempt τ α) s'
  := ⟨congrArg Except.ok ha, h⟩

theorem alike_ite {c : Prop} [Decidable c] {x x' : Attempt σ α} {y y' : Attempt τ α}
    (hx : c → Alike R x s y s') (hx' : ¬ c → Alike R x' s y' s') :
  Alike R (if c then x else x') s (if c then y else y') s'
  := by
  split
  · apply hx ‹_›
  · apply hx' ‹_›

theorem alike_forM {f : β → Attempt σ PUnit} {g : β → Attempt τ PUnit} (ℓ : List β)
    (hf : ∀ b t t', R t t' → Alike R (f b) t (g b) t') (h : R s s') :
  Alike R (ℓ.forM f) s (ℓ.forM g) s'
  := by
  induction ℓ generalizing s s' with
  | nil => apply alike_pure _ h
  | cons b rest ih =>
    apply (hf b s s' h).bind
    intro _ t t' ht
    apply ih ht

theorem alike_mapM {f : β → Attempt σ α} {g : β → Attempt τ α} (ℓ : List β)
    (hf : ∀ b t t', R t t' → Alike R (f b) t (g b) t') (h : R s s') :
  Alike R (ℓ.mapM f) s (ℓ.mapM g) s'
  := by
  induction ℓ generalizing s s' with
  | nil => apply alike_pure [] h
  | cons b rest ih =>
    rw [List.mapM_cons, List.mapM_cons]
    apply (hf b s s' h).bind
    intro a t t' ht
    apply (ih ht).bind_pure

end Attempt

/-! ### Trackers with distinct keys -/

/-- Of trackers with distinct keys the one with a key is found in whatever order they are. -/
theorem Tracker.find?_perm {ts ts' : List Tracker} (h : ts.Perm ts')
    (hdistinct : (ts.map Tracker.key).Nodup) (k : Key) :
  ts.find? (fun t => t.key = k) = ts'.find? (fun t => t.key = k)
  := by
  cases ht : ts.find? (fun t => t.key = k) with
  | none =>
    symm
    apply List.find?_eq_none.mpr
    exact fun t ht' => List.find?_eq_none.mp ht t (h.mem_iff.mpr ht')
  | some t =>
    cases hu : ts'.find? (fun t => t.key = k) with
    | none =>
      have hmem := h.mem_iff.mp (List.mem_of_find?_eq_some ht)
      exact absurd (List.find?_some ht) (List.find?_eq_none.mp hu t hmem)
    | some u =>
      have htk : t.key = k := by simpa using List.find?_some ht
      have huk : u.key = k := by simpa using List.find?_some hu
      congr 1
      apply List.inj_on_of_nodup_map hdistinct
      · apply List.mem_of_find?_eq_some ht
      · apply h.mem_iff.mpr (List.mem_of_find?_eq_some hu)
      · rw [htk, huk]

/-- Nor does it matter if they are looked through from the end. -/
theorem Tracker.find?_reverse_perm {ts ts' : List Tracker} (h : ts.Perm ts')
    (hdistinct : (ts.map Tracker.key).Nodup) (k : Key) :
  ts.reverse.find? (fun t => t.key = k) = ts'.reverse.find? (fun t => t.key = k)
  := by
  apply find?_perm
  · apply (List.reverse_perm ts).trans (h.trans (List.reverse_perm ts').symm)
  · rw [List.map_reverse]
    apply List.nodup_reverse.mpr hdistinct

namespace Board

open Attempt

variable {p p' : Partitioner} {σ : Type} [Store σ] [LawfulStore σ]
variable {b b₁ : Board p σ} {b' b₁' : Board p' σ} {now : Instant}

/-- Both boards work and have the same rows, trackers and book; rows lie under their own keys. -/
structure Mirrors (b : Board p σ) (b' : Board p' σ) : Prop where
  working : b.Working
  working' : b'.Working
  keyed : ∀ k t, (LawfulStore.rows b.store).find? k = some t → t.key = k
  rows : LawfulStore.rows b.store = LawfulStore.rows b'.store
  find? : ∀ k, b.grid.find? k = b'.grid.find? k
  book : b.book = b'.book

namespace Mirrors

variable (h : b.Mirrors b')

include h

theorem oneMap :
  b.grid.oneMap = b'.grid.oneMap
  := by
  apply Grid.oneMap_eq h.working.filed
  intro k
  rw [h.find?, Grid.find?_oneMap h.working'.filed]

theorem select (q : Tracker → Bool) :
  b.grid.select q = b'.grid.select q
  := by
  rw [Grid.select_eq h.working.filed, Grid.select_eq h.working'.filed, h.oneMap]

theorem trackers :
  b.grid.trackers = b'.grid.trackers
  := congrArg SortedMap.values (h.select _)

/-- Whatever both boards put is the same but for its order, and the order does not matter. -/
theorem puts {ts ts' : List Tracker} (hb : b.Puts now ts b₁) (hb' : b'.Puts now ts' b₁')
    (hperm : ts.Perm ts') (hdistinct : (ts.map Tracker.key).Nodup)
    (hcomm : ∀ t ∈ ts, ∀ u ∈ ts, ∀ book : Book,
      (book.afterChange now (b.grid.find? t.key) (some t)).afterChange now
          (b.grid.find? u.key) (some u)
        = (book.afterChange now (b.grid.find? u.key) (some u)).afterChange now
          (b.grid.find? t.key) (some t)) :
  b₁.Mirrors b₁'
  := by
  have hfound := Tracker.find?_reverse_perm hperm hdistinct
  use hb.working h.working, hb'.working h.working'
  · intro k t ht
    rw [hb.find?_rows, Option.or_eq_some_iff] at ht
    rcases ht with ht | ⟨-, ht⟩
    · simpa using List.find?_some ht
    · apply h.keyed k t ht
  · apply SortedMap.ext
    intro k
    rw [hb.find?_rows, hb'.find?_rows, hfound, h.rows]
  · intro k
    rw [hb.find?_grid, hb'.find?_grid, hfound, h.find?]
  · rw [hb.book hdistinct, hb'.book ((hperm.map _).nodup_iff.mp hdistinct), ← h.book]
    simp only [← h.find?]
    apply hperm.foldl_eq' hcomm

/-- One tracker put is put in one order. -/
theorem puts_one {ts : List Tracker} (hb : b.Puts now ts b₁) (hb' : b'.Puts now ts b₁')
    (hone : ∀ t ∈ ts, ∀ u ∈ ts, t = u) (hdistinct : (ts.map Tracker.key).Nodup) :
  b₁.Mirrors b₁'
  := by
  apply h.puts hb hb' (List.Perm.refl ts) hdistinct
  rintro t ht u hu book
  rw [hone t ht u hu]

/-- Whatever both boards delete is the same but for its order, and the order does not matter. -/
theorem deletes {ks ks' : List Key} (hb : b.Deletes now ks b₁) (hb' : b'.Deletes now ks' b₁')
    (hperm : ks.Perm ks') (hdistinct : ks.Nodup) :
  b₁.Mirrors b₁'
  := by
  use hb.working h.working, hb'.working h.working'
  · intro k t ht
    rw [hb.find?_rows] at ht
    split at ht
    · cases ht
    · apply h.keyed k t ht
  · apply SortedMap.ext
    intro k
    rw [hb.find?_rows, hb'.find?_rows, h.rows]
    simp only [hperm.mem_iff]
  · intro k
    rw [hb.find?_grid, hb'.find?_grid, h.find?]
    simp only [hperm.mem_iff]
  · rw [hb.book hdistinct, hb'.book (hperm.nodup_iff.mp hdistinct), ← h.book]
    simp only [← h.find?]
    apply hperm.foldl_eq'
    intro k _ k' _ book
    apply Book.afterChange_none_comm

end Mirrors

/-! ### Actions which are alike -/

section Actions

variable (h : b.Mirrors b')

include h

theorem set_alike (now : Instant) (t : Tracker) :
  Alike Mirrors (set now t) b (set now t) b'
  := by
  apply alike_of_yields (h.working.yields (set_ends b now t))
    (h.working'.yields (set_ends b' now t))
  intro _ b₁ _ b₁' hb hb'
  use rfl
  apply h.puts_one hb hb'
  · intro u hu v hv
    rw [List.mem_singleton.mp hu, List.mem_singleton.mp hv]
  · apply List.pairwise_singleton

theorem remove_alike (now : Instant) (k : Key) :
  Alike Mirrors (remove now k) b (remove now k) b'
  := by
  apply alike_of_yields (h.working.yields (remove_ends b now k))
    (h.working'.yields (remove_ends b' now k))
  rintro _ b₁ _ b₁' ⟨rfl, hb⟩ ⟨rfl, hb'⟩
  use h.find? k
  apply h.deletes hb hb' (List.Perm.refl _)
  apply List.pairwise_singleton

theorem adjust_alike {α : Type} (now : Instant) (k : Key) (f : Tracker → α × Tracker) :
  Alike Mirrors (adjust now k f) b (adjust now k f) b'
  := by
  apply alike_of_yields (h.working.yields (adjust_ends b now k f))
    (h.working'.yields (adjust_ends b' now k f))
  rintro _ b₁ _ b₁' ⟨rfl, hb⟩ ⟨rfl, hb'⟩
  rw [changedAt, ← h.find?, ← changedAt] at hb'
  rw [h.find?]
  use rfl
  apply h.puts_one hb hb'
  · exact fun _ hu _ => eq_of_mem_changedAt hu
  · apply nodup_changedAt

theorem removeWhere_alike (now : Instant) (q : Tracker → Bool) :
  Alike Mirrors (removeWhere now q) b (removeWhere now q) b'
  := by
  apply alike_of_yields
    ((removeWhere_oneMap h.working now q).and (removeWhere_deletes h.working now q))
    ((removeWhere_oneMap h.working' now q).and (removeWhere_deletes h.working' now q))
  rintro _ b₁ _ b₁' ⟨⟨rfl, -⟩, ks, hks, hb⟩ ⟨⟨rfl, -⟩, ks', hks', hb'⟩
  constructor
  · rw [h.oneMap]
  · apply h.deletes hb hb'
    · rw [h.trackers] at hks
      apply hks.trans hks'.symm
    · apply hks.nodup_iff.mpr
      apply List.Nodup.sublist _ (List.pairwise_map.mpr (Grid.pairwise_trackers h.working.filed))
      apply List.filter_sublist.map

/-- Changes which at most release trackers may be made in any order of the partitions. -/
theorem adjustWhere_alike {α : Type} (now : Instant) (q : Tracker → Bool)
    {f : Tracker → α × Tracker} (hf : ∀ t, (f t).2.key = t.key)
    (hreleases : ∀ t, Book.Releases t (f t).2) :
  Alike Mirrors (adjustWhere now q f) b (adjustWhere now q f) b'
  := by
  apply alike_of_yields
    ((adjustWhere_oneMap h.working now q hf).and (adjustWhere_puts h.working now q hf))
    ((adjustWhere_oneMap h.working' now q hf).and (adjustWhere_puts h.working' now q hf))
  rintro _ b₁ _ b₁' ⟨⟨rfl, -⟩, ts, hts, hb⟩ ⟨⟨rfl, -⟩, ts', hts', hb'⟩
  have hfound : ∀ u ∈ ts, ∃ t, b.grid.find? u.key = some t ∧ Book.Releases t u :=
    fun u hu => releases_of_mem_changedWhere hf q hreleases h.working.filed (hts.mem_iff.mp hu)
  constructor
  · rw [h.oneMap]
  · apply h.puts hb hb'
    · rw [h.trackers] at hts
      apply hts.trans hts'.symm
    · apply (hts.map _).nodup_iff.mpr (nodup_changedWhere hf q h.working.filed)
    · intro u hu v hv book
      obtain ⟨t, ht, htu⟩ := hfound u hu
      obtain ⟨t', ht', htv⟩ := hfound v hv
      rw [ht, ht']
      apply Book.afterChange_comm htu htv

end Actions

/-! ### Loading -/

/-- As many trackers are loaded as there are rows. -/
theorem loadAll_counts [LoadsOnce σ] (hb : b.Working) :
  (loadAll : Attempt (Board p σ) Nat).Yields b
    (fun n _ => n = (LawfulStore.rows b.store).size)
  := by
  rw [loadAll, Yields, ends_bind]
  apply (onStore_ends (LawfulStore.loadKeys b.store)).mono
  · rintro keys _ ⟨s, ⟨hkeys, hrows⟩, hworks, rfl⟩
    have hnodup : keys.Nodup := by
      rw [hkeys]
      apply (LawfulStore.rows b.store).keySet.nodup_toList
    rw [ends_bind, onStore, ends_within]
    have hyields := (LawfulStore.loadAll keys s).yields (hworks hb.works)
    apply (Ends.and hyields (LoadsOnce.length_loadAll hnodup s)).mono
    · rintro ts s' ⟨-, hlength⟩
      change ts.length = _
      rw [hlength, hkeys, hrows, SortedMap.size, ← List.length_map Prod.fst]
      apply List.countP_eq_length.mpr
      intro k hk
      apply Option.isSome_iff_exists.mpr (SortedMap.mem_keys_iff.mp hk)
    · exact fun _ _ => And.left
  · rintro _ _ ⟨hnot, -⟩
    apply hnot hb.works

theorem loadAll_alike [LoadsOnce σ] (h : b.Mirrors b') :
  Alike Mirrors loadAll b loadAll b'
  := by
  apply alike_of_yields
    ((h.working.yields (loadAll_ends b)).and (loadAll_counts h.working))
    ((h.working'.yields (loadAll_ends b')).and (loadAll_counts h.working'))
  rintro n b₁ n' b₁' ⟨⟨s, ts, hrows, hworks, hts, -, rfl⟩, hn⟩
    ⟨⟨s', ts', hrows', hworks', hts', -, rfl⟩, hn'⟩
  have hkeyed' : ∀ k t, (LawfulStore.rows b'.store).find? k = some t → t.key = k := by
    rw [← h.rows]
    exact h.keyed
  constructor
  · rw [hn, hn', h.rows]
  · constructor
    · exact ⟨hworks h.working.works, Grid.wellFiled_ofTrackers ts⟩
    · exact ⟨hworks' h.working'.works, Grid.wellFiled_ofTrackers ts'⟩
    · rw [hrows]
      exact h.keyed
    · rw [hrows, hrows', h.rows]
    · intro k
      rw [find?_ofTrackers_rows h.keyed hts, find?_ofTrackers_rows hkeyed' hts', h.rows]
    · exact h.book

end Board

end ChunkDispatch
