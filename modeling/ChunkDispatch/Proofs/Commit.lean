import ChunkDispatch.Board
import ChunkDispatch.Proofs.Grid
import ChunkDispatch.Proofs.Store
import Mathlib.Logic.Relation

/-!
# Commits

Whatever is done to a board, its store and its grid change by *commits*: the store takes one write
and the grid follows it, or the store refuses an action and the grid stays.  The relation
`b.Commit P b'` has one case for each; `P old new` says of every key written what may take the place
of what was found there.  Boards to which commits lead are related by `b.Commits P b'`.  All that is
true of the board along a sequence of actions is proved of one commit and follows for the sequence.
-/

namespace ChunkDispatch

/-! ### Rows and grids written together -/

namespace SortedMap

theorem find?_insertAll (ts : List Tracker) (m : Entries) (k : Key) :
  (ts.foldl (fun m t => m.insert t.key t) m).find? k
    = (ts.reverse.find? (fun t => t.key = k)).or (m.find? k)
  := by
  have h := find?_foldl_insert (ts.map (fun t => (t.key, t))) m k
  rw [List.foldl_map, ← List.map_reverse, List.find?_map, Option.map_map] at h
  rw [h]
  congr 1
  apply Option.map_id'

theorem find?_eraseAll {κ α : Type} [LT κ] [LE κ] [Std.IsLinearOrder κ] [Std.LawfulOrderLT κ]
    [DecidableEq κ] (ks : List κ) (m : SortedMap κ α) (k : κ) :
  (ks.foldl (fun m k => m.erase k) m).find? k = if k ∈ ks then none else m.find? k
  := by
  induction ks generalizing m with
  | nil => rfl
  | cons k' rest ih =>
    rw [List.foldl_cons, ih, find?_erase]
    by_cases hk : k = k' <;> simp [hk]

end SortedMap

namespace Grid

variable {p : Partitioner} {g : Grid p}

theorem find?_eraseAll (ks : List Key) (g : Grid p) (k : Key) :
  (ks.foldl (fun g k => g.erase k) g).find? k = if k ∈ ks then none else g.find? k
  := by
  induction ks generalizing g with
  | nil => rfl
  | cons k' rest ih =>
    rw [List.foldl_cons, ih, Grid.find?_erase]
    by_cases hk : k = k' <;> simp [hk]

theorem WellFiled.insertAll (hg : g.WellFiled) (ts : List Tracker) :
  (ts.foldl (fun g t => g.insert t) g).WellFiled
  := by
  induction ts generalizing g with
  | nil => exact hg
  | cons t rest ih => apply ih (hg.insert t)

theorem WellFiled.eraseAll (hg : g.WellFiled) (ks : List Key) :
  (ks.foldl (fun g k => g.erase k) g).WellFiled
  := by
  induction ks generalizing g with
  | nil => exact hg
  | cons k rest ih => apply ih (hg.erase k)

end Grid

namespace Board

variable {p : Partitioner} {σ : Type}

/-! ### What the grid follows with -/

section Followed

variable (now : Instant)

@[simp]
theorem emit_grid (old new : Option Tracker) (b : Board p σ) :
  (emit now old new b).grid = b.grid
  := by
  rw [emit]
  split <;> rfl

@[simp]
theorem emit_store (old new : Option Tracker) (b : Board p σ) :
  (emit now old new b).store = b.store
  := by
  rw [emit]
  split <;> rfl

@[simp]
theorem place_grid (t : Tracker) (b : Board p σ) :
  (place now t b).grid = b.grid.insert t
  := emit_grid now _ _ _

@[simp]
theorem place_store (t : Tracker) (b : Board p σ) :
  (place now t b).store = b.store
  := emit_store now _ _ _

@[simp]
theorem drop_grid (k : Key) (b : Board p σ) :
  (drop now k b).grid = b.grid.erase k
  := emit_grid now _ _ _

@[simp]
theorem drop_store (k : Key) (b : Board p σ) :
  (drop now k b).store = b.store
  := emit_store now _ _ _

theorem foldl_place (ts : List Tracker) (b : Board p σ) :
  (ts.foldl (fun b t => b.place now t) b).grid = ts.foldl (fun g t => g.insert t) b.grid ∧
    (ts.foldl (fun b t => b.place now t) b).store = b.store
  := by
  induction ts generalizing b with
  | nil => exact ⟨rfl, rfl⟩
  | cons t rest ih => simpa only [List.foldl_cons, place_grid, place_store] using ih (place now t b)

theorem foldl_drop (ks : List Key) (b : Board p σ) :
  (ks.foldl (fun b k => b.drop now k) b).grid = ks.foldl (fun g k => g.erase k) b.grid ∧
    (ks.foldl (fun b k => b.drop now k) b).store = b.store
  := by
  induction ks generalizing b with
  | nil => exact ⟨rfl, rfl⟩
  | cons k rest ih => simpa only [List.foldl_cons, drop_grid, drop_store] using ih (drop now k b)

end Followed

/-! ### Writes and refusals -/

variable [Store σ] [LawfulStore σ] {b b' b'' : Board p σ} {now : Instant}

/-- The store refused an action, and nothing came of it. -/
def Refused (b b' : Board p σ) : Prop :=
  ¬ LawfulStore.works b.store ∧
    ∃ s, LawfulStore.rows s = LawfulStore.rows b.store ∧ b' = { b with store := s }

/-- The store took the trackers of a list, and they were put into the grid one after another. -/
def Puts (now : Instant) (ts : List Tracker) (b b' : Board p σ) : Prop :=
  ∃ s, LawfulStore.rows s = ts.foldl (fun m t => m.insert t.key t) (LawfulStore.rows b.store) ∧
    (LawfulStore.works b.store → LawfulStore.works s) ∧
    b' = ts.foldl (fun b t => b.place now t) { b with store := s }

/-- The store deleted the keys of a list, and they were taken out of the grid one after another. -/
def Deletes (now : Instant) (ks : List Key) (b b' : Board p σ) : Prop :=
  ∃ s, LawfulStore.rows s = ks.foldl (fun m k => m.erase k) (LawfulStore.rows b.store) ∧
    (LawfulStore.works b.store → LawfulStore.works s) ∧
    b' = ks.foldl (fun b k => b.drop now k) { b with store := s }

/-- Nothing put is nothing done. -/
theorem puts_nil (now : Instant) (b : Board p σ) :
  b.Puts now [] b
  := ⟨b.store, rfl, id, rfl⟩

theorem deletes_nil (now : Instant) (b : Board p σ) :
  b.Deletes now [] b
  := ⟨b.store, rfl, id, rfl⟩

theorem Refused.grid (h : b.Refused b') :
  b'.grid = b.grid
  := by
  obtain ⟨-, s, -, rfl⟩ := h
  rfl

theorem Refused.rows (h : b.Refused b') :
  LawfulStore.rows b'.store = LawfulStore.rows b.store
  := by
  obtain ⟨-, s, hrows, rfl⟩ := h
  apply hrows

namespace Puts

variable {ts : List Tracker} (h : b.Puts now ts b')

include h

theorem grid :
  b'.grid = ts.foldl (fun g t => g.insert t) b.grid
  := by
  obtain ⟨s, -, -, rfl⟩ := h
  apply (foldl_place now ts _).1

theorem rows :
  LawfulStore.rows b'.store
    = ts.foldl (fun m t => m.insert t.key t) (LawfulStore.rows b.store)
  := by
  obtain ⟨s, hrows, -, rfl⟩ := h
  rw [(foldl_place now ts _).2]
  apply hrows

theorem works (hb : LawfulStore.works b.store) :
  LawfulStore.works b'.store
  := by
  obtain ⟨s, -, hworks, rfl⟩ := h
  rw [(foldl_place now ts _).2]
  apply hworks hb

theorem find?_grid (k : Key) :
  b'.grid.find? k = (ts.reverse.find? (fun t => t.key = k)).or (b.grid.find? k)
  := by
  rw [h.grid, Grid.find?_foldl_insert]

theorem find?_rows (k : Key) :
  (LawfulStore.rows b'.store).find? k
    = (ts.reverse.find? (fun t => t.key = k)).or ((LawfulStore.rows b.store).find? k)
  := by
  rw [h.rows, SortedMap.find?_insertAll]

end Puts

namespace Deletes

variable {ks : List Key} (h : b.Deletes now ks b')

include h

theorem grid :
  b'.grid = ks.foldl (fun g k => g.erase k) b.grid
  := by
  obtain ⟨s, -, -, rfl⟩ := h
  apply (foldl_drop now ks _).1

theorem rows :
  LawfulStore.rows b'.store = ks.foldl (fun m k => m.erase k) (LawfulStore.rows b.store)
  := by
  obtain ⟨s, hrows, -, rfl⟩ := h
  rw [(foldl_drop now ks _).2]
  apply hrows

theorem works (hb : LawfulStore.works b.store) :
  LawfulStore.works b'.store
  := by
  obtain ⟨s, -, hworks, rfl⟩ := h
  rw [(foldl_drop now ks _).2]
  apply hworks hb

theorem find?_grid (k : Key) :
  b'.grid.find? k = if k ∈ ks then none else b.grid.find? k
  := by
  rw [h.grid, Grid.find?_eraseAll]

theorem find?_rows (k : Key) :
  (LawfulStore.rows b'.store).find? k
    = if k ∈ ks then none else (LawfulStore.rows b.store).find? k
  := by
  rw [h.rows, SortedMap.find?_eraseAll]

end Deletes

/-! ### Commits -/

/-- One thing done to the store, and what it means for the rest of the board. -/
inductive Commit (P : Option Tracker → Option Tracker → Prop) (b b' : Board p σ) : Prop where
  /-- The store refused an action. -/
  | refused (h : b.Refused b')
  /-- Trackers with distinct keys were put. -/
  | put {now : Instant} {ts : List Tracker} (h : b.Puts now ts b')
      (hdistinct : (ts.map Tracker.key).Nodup) (hP : ∀ t ∈ ts, P (b.grid.find? t.key) (some t))
  /-- Keys were deleted. -/
  | delete {now : Instant} {ks : List Key} (h : b.Deletes now ks b')
      (hP : ∀ k ∈ ks, P (b.grid.find? k) none)
  /-- The book was written to. -/
  | book (h : ∃ book, b' = { b with book := book })

/-- Commits lead from one board to the other. -/
def Commits (P : Option Tracker → Option Tracker → Prop) : Board p σ → Board p σ → Prop :=
  Relation.ReflTransGen (Commit P)

section Commits

variable {P P' : Option Tracker → Option Tracker → Prop}

theorem Commit.filed (h : b.Commit P b') (hb : b.grid.WellFiled) :
  b'.grid.WellFiled
  := by
  cases h with
  | refused h =>
    rw [h.grid]
    apply hb
  | put h _ _ =>
    rw [h.grid]
    apply hb.insertAll
  | delete h _ =>
    rw [h.grid]
    apply hb.eraseAll
  | book h =>
    obtain ⟨book, rfl⟩ := h
    apply hb

/-- A store which works goes on working. -/
theorem Commit.works (h : b.Commit P b') (hb : LawfulStore.works b.store) :
  LawfulStore.works b'.store
  := by
  cases h with
  | refused h => exact absurd hb h.1
  | put h _ _ => apply h.works hb
  | delete h _ => apply h.works hb
  | book h =>
    obtain ⟨book, rfl⟩ := h
    apply hb

/-- What is written to a key is written to the rows and to the grid, and is as it may be. -/
theorem Commit.exists_written (h : b.Commit P b') :
  ∃ written : Key → Option (Option Tracker),
    (∀ k new, written k = some new → P (b.grid.find? k) new) ∧
    (∀ k, b'.grid.find? k = (written k).getD (b.grid.find? k)) ∧
    ∀ k, (LawfulStore.rows b'.store).find? k
      = (written k).getD ((LawfulStore.rows b.store).find? k)
  := by
  cases h with
  | refused h =>
    use fun _ => none
    rw [h.grid, h.rows]
    simp
  | @put now ts h _ hP =>
    have hget : ∀ o o' : Option Tracker, (o.map some).getD o' = o.or o' := by
      intro o o'
      cases o <;> rfl
    use fun k => (ts.reverse.find? (fun t => t.key = k)).map some
    refine ⟨?_, ?_, ?_⟩
    · intro k new hnew
      obtain ⟨t, ht, rfl⟩ := Option.map_eq_some_iff.mp hnew
      obtain rfl : t.key = k := by simpa using List.find?_some ht
      apply hP t
      apply List.mem_reverse.mp (List.mem_of_find?_eq_some ht)
    · intro k
      rw [h.find?_grid, hget]
    · intro k
      rw [h.find?_rows, hget]
  | @delete now ks h hP =>
    use fun k => if k ∈ ks then some none else none
    refine ⟨?_, ?_, ?_⟩
    · intro k new hnew
      obtain ⟨hk, rfl⟩ : k ∈ ks ∧ none = new := by simpa using hnew
      apply hP k hk
    · intro k
      rw [h.find?_grid]
      by_cases hk : k ∈ ks <;> simp [hk]
    · intro k
      rw [h.find?_rows]
      by_cases hk : k ∈ ks <;> simp [hk]
  | book h =>
    use fun _ => none
    obtain ⟨book, rfl⟩ := h
    simp

/-- Every key is written as it may be. -/
theorem Commit.rel [Std.Refl P] (h : b.Commit P b') (k : Key) :
  P (b.grid.find? k) (b'.grid.find? k)
  := by
  obtain ⟨written, hP, hgrid, -⟩ := h.exists_written
  rw [hgrid]
  cases hk : written k with
  | none => apply Std.Refl.refl
  | some new => apply hP k new hk

theorem Commit.mono (h : b.Commit P b') (hP : ∀ old new, P old new → P' old new) :
  b.Commit P' b'
  := by
  cases h with
  | refused h => exact .refused h
  | put h hdistinct hput => exact .put h hdistinct (fun t ht => hP _ _ (hput t ht))
  | delete h hdelete => exact .delete h (fun k hk => hP _ _ (hdelete k hk))
  | book h => exact .book h

theorem Commits.mono (h : b.Commits P b') (hP : ∀ old new, P old new → P' old new) :
  b.Commits P' b'
  := by
  induction h with
  | refl => apply Relation.ReflTransGen.refl
  | tail _ hstep ih => apply ih.tail (hstep.mono hP)

theorem Commits.filed (h : b.Commits P b') (hb : b.grid.WellFiled) :
  b'.grid.WellFiled
  := by
  induction h with
  | refl => exact hb
  | tail _ hstep ih => apply hstep.filed ih

theorem Commits.works (h : b.Commits P b') (hb : LawfulStore.works b.store) :
  LawfulStore.works b'.store
  := by
  induction h with
  | refl => exact hb
  | tail _ hstep ih => apply hstep.works ih

theorem Commits.rel [Std.Refl P] [IsTrans (Option Tracker) P] (h : b.Commits P b') (k : Key) :
  P (b.grid.find? k) (b'.grid.find? k)
  := by
  induction h with
  | refl => apply Std.Refl.refl
  | tail _ hstep ih => apply IsTrans.trans _ _ _ ih (hstep.rel k)

end Commits

end Board

end ChunkDispatch
