import ChunkDispatch.Proofs.Commit

/-!
# Actions of the board

A board is *coherent* if its grid is well filed and holds the rows of its store, and *sound* if its
store works as well.  An action of the board *commits only* what `P` permits if it changes the board
by commits alone, however it ends, and fails only where the store refuses it.  Each action commits
only; if it succeeds, it changes what can be looked up as the theorem about it says.  So the actions
of a sound board succeed and leave a sound board.
-/

namespace ChunkDispatch.Board

open Attempt

variable {p : Partitioner} {σ : Type} {α : Type} [Store σ] [LawfulStore σ]
variable {b b' : Board p σ} {P : Option Tracker → Option Tracker → Prop}

/-! ### Coherent boards -/

/-- The grid is well filed and holds the rows of the store. -/
structure Coherent (b : Board p σ) : Prop where
  filed : b.grid.WellFiled
  agree : ∀ k, (LawfulStore.rows b.store).find? k = b.grid.find? k

theorem coherent_start {store : σ} (hrows : LawfulStore.rows store = ∅) :
  (start p store).Coherent
  := by
  constructor
  · apply Grid.wellFiled_empty
  · intro k
    rw [start, hrows, Grid.find?_empty]
    rfl

theorem Coherent.commit (hb : b.Coherent) (h : b.Commit P b') :
  b'.Coherent
  := by
  use h.filed hb.filed
  intro k
  obtain ⟨written, -, hgrid, hrows⟩ := h.exists_written
  rw [hrows, hgrid, hb.agree]

theorem Coherent.commits (hb : b.Coherent) (h : b.Commits P b') :
  b'.Coherent
  := by
  induction h with
  | refl => exact hb
  | tail _ hstep ih => apply ih.commit hstep

/-! ### Sound boards -/

/-- The store works, the grid is well filed, and both hold the same trackers. -/
structure Sound (b : Board p σ) : Prop where
  works : LawfulStore.works b.store
  filed : b.grid.WellFiled
  coherent : ∀ k, (LawfulStore.rows b.store).find? k = b.grid.find? k

theorem Coherent.sound (hb : b.Coherent) (hworks : LawfulStore.works b.store) :
  b.Sound
  := ⟨hworks, hb.filed, hb.agree⟩

/-- The board over a store without rows is sound. -/
theorem sound_start {store : σ} (hworks : LawfulStore.works store)
    (hrows : LawfulStore.rows store = ∅) :
  (start p store).Sound
  := (coherent_start hrows).sound hworks

/-- Commits keep a board sound. -/
theorem Sound.commits (hb : b.Sound) (h : b.Commits P b') :
  b'.Sound
  := by
  have hcoherent : b.Coherent := ⟨hb.filed, hb.coherent⟩
  apply (hcoherent.commits h).sound
  apply h.works hb.works

/-! ### Actions which commit only -/

/--
The action changes the board by commits alone, however it ends, and fails only where the store
refuses it.
-/
def CommitsOnly (P : Option Tracker → Option Tracker → Prop) (x : Attempt (Board p σ) α) : Prop :=
  x.Walks (fun b b' => b.grid.WellFiled → b.Commits P b')
    (fun b b' => b.grid.WellFiled → b.Commits P b' ∧ ¬ LawfulStore.works b.store)

instance : Composes (fun b b' : Board p σ => b.grid.WellFiled → b.Commits P b')
    (fun b b' => b.grid.WellFiled → b.Commits P b' ∧ ¬ LawfulStore.works b.store) where
  refl _ _ := Relation.ReflTransGen.refl
  trans h h' hb := (h hb).trans (h' ((h hb).filed hb))
  last h h' hb := by
    obtain ⟨hcommits, hnot⟩ := h' ((h hb).filed hb)
    use (h hb).trans hcommits
    intro hworks
    apply hnot ((h hb).works hworks)

/-- An action which ends in a write or a refusal commits only that. -/
theorem commitsOnly_of_ends {x : Attempt (Board p σ) α} {Q : Board p σ → α → Board p σ → Prop}
    (h : ∀ b, b.grid.WellFiled → x.Ends b (Q b) (fun _ => b.Refused))
    (hQ : ∀ b a b', b.grid.WellFiled → Q b a b' → b.Commit P b') :
  CommitsOnly P x
  := by
  intro b
  apply ends_imp
  intro hb
  apply (h b hb).mono
  · intro a b' hq
    apply Relation.ReflTransGen.single (hQ b a b' hb hq)
  · intro _ b' hrefused
    use Relation.ReflTransGen.single (.refused hrefused), hrefused.1

/-- An action of a sound board which commits only succeeds and leaves a sound board. -/
theorem CommitsOnly.yields {x : Attempt (Board p σ) α} {Q : α → Board p σ → Prop}
    {E : Error → Board p σ → Prop} (hx : CommitsOnly P x) (hb : b.Sound) (h : x.Ends b Q E) :
  x.Yields b (fun a b' => b'.Sound ∧ Q a b')
  := by
  apply ((hx b).and h).mono
  · rintro a b' ⟨hcommits, hq⟩
    exact ⟨hb.commits (hcommits hb.filed), hq⟩
  · rintro e b' ⟨hcommits, -⟩
    apply (hcommits hb.filed).2 hb.works

/-! ### Single writes -/

/-- An action of the store is whole or refused. -/
theorem onStore_ends {x : Attempt σ α} {R : α → Entries → Prop}
    (hx : x.Acts LawfulStore.rows LawfulStore.works b.store R) :
  (onStore x).Ends b
    (fun a b' => ∃ s, R a (LawfulStore.rows s) ∧
      (LawfulStore.works b.store → LawfulStore.works s) ∧ b' = { b with store := s })
    (fun _ => b.Refused)
  := by
  rw [onStore, ends_within]
  apply hx.mono
  · rintro a s ⟨hR, hworks⟩
    exact ⟨s, hR, hworks, rfl⟩
  · rintro e s ⟨hrows, hnot⟩
    exact ⟨hnot, s, hrows, rfl⟩

theorem set_ends (b : Board p σ) (now : Instant) (t : Tracker) :
  (set now t).Ends b (fun _ => b.Puts now [t]) (fun _ => b.Refused)
  := by
  rw [Board.set, ends_bind]
  apply (onStore_ends (LawfulStore.put t b.store)).mono
  · rintro _ _ ⟨s, hrows, hworks, rfl⟩
    rw [ends_modify]
    use s, hrows, hworks
    rfl
  · exact fun _ _ => id

theorem remove_ends (b : Board p σ) (now : Instant) (k : Key) :
  (remove now k).Ends b (fun old b' => old = b.grid.find? k ∧ b.Deletes now [k] b')
    (fun _ => b.Refused)
  := by
  rw [Board.remove, ends_bind]
  apply (onStore_ends (LawfulStore.delete k b.store)).mono
  · rintro _ _ ⟨s, hrows, hworks, rfl⟩
    rw [ends_bind, ends_get]
    use rfl, s, hrows, hworks
    rfl
  · exact fun _ _ => id

/-- A tracker may be put where `P` permits it. -/
theorem Puts.commit {now : Instant} {t : Tracker} (h : b.Puts now [t] b')
    (hP : P (b.grid.find? t.key) (some t)) :
  b.Commit P b'
  := by
  apply Commit.put h
  · apply List.pairwise_singleton
  · intro u hu
    rw [List.mem_singleton.mp hu]
    apply hP

theorem commitsOnly_remove (now : Instant) (k : Key) (hP : ∀ o, P o none) :
  CommitsOnly P (remove now k : Attempt (Board p σ) (Option Tracker))
  := by
  apply commitsOnly_of_ends (fun b _ => remove_ends b now k)
  rintro b _ b' - ⟨-, h⟩
  apply Commit.delete h
  exact fun _ _ => hP _

theorem remove_yields (hb : b.Sound) (now : Instant) (k : Key) :
  (remove now k).Yields b
    (fun old b' => b'.Sound ∧ old = b.grid.find? k ∧ b'.grid = b.grid.erase k)
  := by
  have hx := commitsOnly_remove (p := p) (σ := σ) now k (P := fun _ _ => True) (fun _ => trivial)
  apply (hx.yields hb (remove_ends b now k)).mono
  rintro old b' ⟨hb', hold, h⟩
  exact ⟨hb', hold, h.grid⟩

/-! ### Partition by partition -/

/--
The action on the partition `i` makes `F` of what can be looked up there and leaves the rest; it
comes to the list of what `M` says of the keys there.  It fails only where the store refuses it.
-/
def Visits {β : Type} (F : Option Tracker → Option Tracker)
    (M : Key → Option Tracker → β → Prop) (i : Fin p.count)
    (x : Attempt (Board p σ) (List β)) : Prop :=
  ∀ b, b.grid.WellFiled → x.Ends b
    (fun rs b' => b'.grid.WellFiled ∧ (LawfulStore.works b.store → LawfulStore.works b'.store) ∧
      (∀ r, r ∈ rs ↔ ∃ k, p.home k = i ∧ M k (b.grid.find? k) r) ∧
      ∀ k, b'.grid.find? k = if p.home k = i then F (b.grid.find? k) else b.grid.find? k)
    (fun _ _ => ¬ LawfulStore.works b.store)

/-- Visiting each partition in turn makes `F` of all that can be looked up. -/
theorem mapM_partitions_ends {β : Type} {F : Option Tracker → Option Tracker}
    {M : Key → Option Tracker → β → Prop} {x : Fin p.count → Attempt (Board p σ) (List β)}
    (hx : ∀ i, Visits F M i (x i)) (hb : b.grid.WellFiled) :
  ((Grid.indices p).mapM x).Ends b
    (fun rss b' => (∀ r, r ∈ rss.flatten ↔ ∃ k, M k (b.grid.find? k) r) ∧
      ∀ k, b'.grid.find? k = F (b.grid.find? k))
    (fun _ _ => ¬ LawfulStore.works b.store)
  := by
  -- The loop has come past the partitions of `ℓ`; those to come are as they were.
  have h : ∀ ℓ : List (Fin p.count), ℓ.Nodup → ∀ b : Board p σ, b.grid.WellFiled →
      (ℓ.mapM x).Ends b
        (fun rss b' => (∀ r, r ∈ rss.flatten ↔ ∃ k, p.home k ∈ ℓ ∧ M k (b.grid.find? k) r) ∧
          ∀ k, b'.grid.find? k = if p.home k ∈ ℓ then F (b.grid.find? k) else b.grid.find? k)
        (fun _ _ => ¬ LawfulStore.works b.store) := by
    intro ℓ
    induction ℓ with
    | nil =>
      intro _ b _
      rw [List.mapM_nil, ends_pure]
      simp
    | cons i rest ih =>
      intro hnodup b hb
      obtain ⟨hi, hrest⟩ := List.nodup_cons.mp hnodup
      rw [List.mapM_cons, ends_bind]
      apply (hx i b hb).mono
      · rintro rs b₁ ⟨hb₁, hworks, hrs, h₁⟩
        rw [ends_bind]
        apply (ih hrest b₁ hb₁).mono
        · rintro rss b₂ ⟨hrss, h₂⟩
          rw [ends_pure]
          constructor
          · intro r
            rw [List.flatten_cons, List.mem_append, hrs, hrss, ← exists_or]
            apply exists_congr
            intro k
            rw [h₁]
            by_cases hk : p.home k = i
            · simp [hk, hi]
            · simp [hk]
          · intro k
            rw [h₂, h₁]
            by_cases hk : p.home k = i
            · simp [hk, hi]
            · simp [hk]
        · exact fun _ _ hnot h => hnot (hworks h)
      · exact fun _ _ => id
  apply (h _ (List.nodup_finRange _) b hb).mono
  · rintro rss b' ⟨hrss, hfind⟩
    constructor
    · intro r
      rw [hrss]
      apply exists_congr
      intro k
      apply and_iff_right (List.mem_finRange _)
    · intro k
      rw [hfind, if_pos (List.mem_finRange _)]
  · exact fun _ _ => id

/-! ### Removing what satisfies a query -/

/-- The keys of a partition whose trackers satisfy `q`. -/
def doomedIn (q : Tracker → Bool) (g : Grid p) (i : Fin p.count) : List Key :=
  ((g.partition i).filter (fun _ t => q t)).keys

theorem mem_doomedIn {g : Grid p} (hg : g.WellFiled) (q : Tracker → Bool) (i : Fin p.count)
    (k : Key) :
  k ∈ doomedIn q g i ↔ p.home k = i ∧ ∃ t, g.find? k = some t ∧ q t = true
  := by
  rw [doomedIn, SortedMap.mem_keys_iff]
  simp only [SortedMap.find?_filter, hg.find?_partition, Option.filter_eq_some_iff]
  by_cases hi : p.home k = i <;> simp [hi]

theorem removeFrom_ends (b : Board p σ) (now : Instant) (q : Tracker → Bool) (i : Fin p.count) :
  (removeFrom now q i).Ends b
    (fun ks b' => ks = doomedIn q b.grid i ∧ b.Deletes now (doomedIn q b.grid i) b')
    (fun _ => b.Refused)
  := by
  rw [removeFrom, ends_bind, ends_get]
  simp only []
  rw [← doomedIn]
  generalize doomedIn q b.grid i = doomed
  split
  · rename_i hempty
    obtain rfl := List.isEmpty_iff.mp hempty
    exact ⟨rfl, deletes_nil now b⟩
  · rw [ends_bind]
    apply (onStore_ends (LawfulStore.deleteAll doomed b.store)).mono
    · rintro _ _ ⟨s, hrows, hworks, rfl⟩
      rw [ends_bind, ends_modify, ends_pure]
      exact ⟨rfl, s, hrows, hworks, rfl⟩
    · exact fun _ _ => id

theorem visits_removeFrom (now : Instant) (q : Tracker → Bool) (i : Fin p.count) :
  Visits (fun o => o.filter (fun t => !q t)) (fun k o k' => (∃ t, o = some t ∧ q t = true) ∧ k = k')
    i (removeFrom now q i : Attempt (Board p σ) (List Key))
  := by
  intro b hb
  apply (removeFrom_ends b now q i).mono
  · rintro ks b' ⟨rfl, h⟩
    refine ⟨?_, h.works, ?_, ?_⟩
    · rw [h.grid]
      apply hb.eraseAll
    · intro k
      rw [mem_doomedIn hb]
      simp only [← and_assoc, exists_eq_right]
    · intro k
      rw [h.find?_grid]
      simp only [mem_doomedIn hb]
      by_cases hi : p.home k = i
      · cases hk : b.grid.find? k with
        | none => simp [hi]
        | some t => cases hq : q t <;> simp [hi, hq, Option.filter]
      · simp [hi]
  · exact fun _ _ h => h.1

theorem commitsOnly_removeWhere (now : Instant) {q : Tracker → Bool}
    (hP : ∀ t, q t = true → P (some t) none) :
  CommitsOnly P (removeWhere now q : Attempt (Board p σ) (SortedSet Key))
  := by
  apply walks_bind_pure
  apply walks_mapM
  intro i
  apply commitsOnly_of_ends (fun b _ => removeFrom_ends b now q i)
  rintro b _ b' hb ⟨-, h⟩
  apply Commit.delete h
  intro k hk
  obtain ⟨-, t, ht, hq⟩ := (mem_doomedIn hb q i k).mp hk
  rw [ht]
  apply hP t hq

/-- The trackers which satisfy `q` are removed, and no others. -/
theorem removeWhere_ends (hb : b.grid.WellFiled) (now : Instant) (q : Tracker → Bool) :
  (removeWhere now q).Ends b
    (fun ks b' => (∀ k, k ∈ ks ↔ ∃ t, b.grid.find? k = some t ∧ q t = true) ∧
      ∀ k, b'.grid.find? k = (b.grid.find? k).filter (fun t => !q t))
    (fun _ _ => ¬ LawfulStore.works b.store)
  := by
  rw [removeWhere, ends_bind]
  apply (mapM_partitions_ends (visits_removeFrom now q) hb).mono
  · rintro kss b' ⟨hkss, hfind⟩
    rw [ends_pure]
    refine ⟨?_, hfind⟩
    intro k
    rw [SortedSet.mem_ofList, hkss]
    simp
  · exact fun _ _ => id

theorem removeWhere_yields (hb : b.Sound) (now : Instant) (q : Tracker → Bool) :
  (removeWhere now q).Yields b (fun _ b' => b'.Sound ∧
    ∀ k, b'.grid.find? k = (b.grid.find? k).filter (fun t => !q t))
  := by
  have hx := commitsOnly_removeWhere (p := p) (σ := σ) now (q := q) (P := fun _ _ => True)
    (fun _ _ => trivial)
  apply (hx.yields hb (removeWhere_ends hb.filed now q)).mono
  rintro _ b' ⟨hb', -, hfind⟩
  exact ⟨hb', hfind⟩

end ChunkDispatch.Board
