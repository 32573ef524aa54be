import ChunkDispatch.Proofs.Operation
import ChunkDispatch.Proofs.Run
import ChunkDispatch.Proofs.Tally
import ChunkDispatch.Scheduler.Action

/-!
# The grid and the store

A scheduler is *opened* if its store has no rows, or if it has loaded them.  From then on its board
is coherent after every action, whatever actions fail and however many of their writes and loads
the store refuses.  So another scheduler over the same rows, with any number of partitions, has the
same trackers once it has loaded them, and counts them by sink and status.
-/

namespace ChunkDispatch

open Attempt

variable {p : Partitioner} {σ : Type} [Store σ] [LawfulStore σ]

namespace Board

variable {b : Board p σ}

/-! ### Putting a list of trackers -/

/-- The trackers of a list with some key, put partition by partition, are in the order of the
list. -/
theorem filter_flatMap_inPartition (ts : List Tracker) (k : Key) :
  ((Grid.indices p).flatMap (fun i => inPartition i ts)).filter (fun t => t.key = k)
    = ts.filter (fun t => t.key = k)
  := by
  have hpart : ∀ i : Fin p.count, (inPartition i ts).filter (fun t => t.key = k)
      = if p.home k = i then ts.filter (fun t => t.key = k) else [] := by
    intro i
    rw [inPartition, List.filter_filter]
    split
    · rename_i hi
      apply List.filter_congr
      intro t _
      by_cases ht : t.key = k
      · simp [ht, hi]
      · simp [ht]
    · rename_i hi
      apply List.filter_eq_nil_iff.mpr
      intro t _
      by_cases ht : t.key = k
      · simp [ht, hi]
      · simp [ht]
  have h : ∀ ℓ : List (Fin p.count), ℓ.Nodup →
      ℓ.flatMap (fun i => if p.home k = i then ts.filter (fun t => t.key = k) else [])
        = if p.home k ∈ ℓ then ts.filter (fun t => t.key = k) else [] := by
    intro ℓ
    induction ℓ with
    | nil => exact fun _ => rfl
    | cons i rest ih =>
      intro hnodup
      obtain ⟨hi, hrest⟩ := List.nodup_cons.mp hnodup
      rw [List.flatMap_cons, ih hrest]
      by_cases hk : p.home k = i
      · simp [hk, hi]
      · simp [hk]
  rw [List.filter_flatMap]
  simp only [hpart]
  apply (h _ (List.nodup_finRange _)).trans
  apply if_pos (List.mem_finRange _)

/-- All trackers of the list are put, of those with one key the last, or none is. -/
theorem setAll_coherent (hb : b.Coherent) (now : Instant) (ts : List Tracker) :
  (setAll now ts).Ends b (fun _ => Coherent) (fun _ => b.Refused)
  := by
  rw [setAll]
  split
  · apply hb
  · rw [ends_bind]
    apply (onStore_ends (LawfulStore.putAll ts b.store)).mono
    · rintro _ _ ⟨s, hrows, -, rfl⟩
      have hlast := filter_flatMap_inPartition (p := p) ts
      rw [ends_modify]
      generalize (Grid.indices p).flatMap (fun i => inPartition i ts) = placed at hlast ⊢
      obtain ⟨hgrid, hstore⟩ := foldl_place now placed { b with store := s }
      constructor
      · rw [hgrid]
        apply hb.filed.insertAll
      · intro k
        rw [hgrid, hstore, hrows, SortedMap.find?_insertAll, Grid.find?_foldl_insert, hb.agree,
          ← List.head?_filter, ← List.head?_filter, List.filter_reverse, List.filter_reverse, hlast]
    · exact fun _ _ => id

/-! ### Actions of a coherent board -/

theorem Refused.coherent {b' : Board p σ} (h : b.Refused b') (hb : b.Coherent) :
  b'.Coherent
  := hb.commit (P := fun _ _ => True) (.refused h)

/-- What commits only leaves a coherent board, however it ends. -/
theorem CommitsOnly.coherent {α : Type} {P : Option Tracker → Option Tracker → Prop}
    {x : Attempt (Board p σ) α} (hx : CommitsOnly P x) (hb : b.Coherent) :
  x.Ends b (fun _ => Coherent) (fun _ => Coherent)
  := by
  apply (hx b).mono
  · exact fun _ _ h => hb.commits (h hb.filed)
  · exact fun _ _ h => hb.commits (h hb.filed).1

end Board

/-- Every mutation leaves a coherent board, however it ends. -/
theorem Mutation.perform_coherent {b : Board p σ} (hb : b.Coherent) (now : Instant)
    (m : Mutation) :
  (m.perform now).Ends b (fun _ => Board.Coherent) (fun _ => Board.Coherent)
  := by
  cases m with
  | set t =>
    rw [perform, ends_bind]
    apply (Board.set_ends b now t).mono
    · intro _ b' h
      apply hb.commit (h.commit (P := fun _ _ => True) trivial)
    · exact fun _ _ h => h.coherent hb
  | setAll ts =>
    rw [perform, ends_bind]
    apply (Board.setAll_coherent hb now ts).mono
    · exact fun _ _ => id
    · exact fun _ _ h => h.coherent hb
  | remove k =>
    rw [perform, ends_bind]
    apply (Board.commitsOnly_remove now k (P := fun _ _ => True) _).coherent hb
    exact fun _ => trivial
  | removeWhere q =>
    rw [perform, ends_bind]
    apply (Board.commitsOnly_removeWhere now (P := fun _ _ => True) _).coherent hb
    exact fun _ _ => trivial
  | adjust k c =>
    rw [perform, ends_bind]
    apply (Board.commitsOnly_adjust now k c.apply_key (P := fun _ _ => True) _).coherent hb
    exact fun _ _ => trivial
  | adjustKeys ks c =>
    rw [perform, ends_bind]
    apply (Board.commitsOnly_adjustWhere now c.apply_key (P := fun _ _ => True) _).coherent hb
    exact fun _ _ => trivial
  | adjustWhere q c =>
    rw [perform, ends_bind]
    apply (Board.commitsOnly_adjustWhere now c.apply_key (P := fun _ _ => True) _).coherent hb
    exact fun _ _ => trivial
  | loadAll =>
    rw [perform, ends_bind]
    apply (Board.loadAll_coherent hb.keyed).mono
    · exact fun _ _ h => h.1
    · exact fun _ _ h => h.coherent hb

namespace Scheduler

/-- The scheduler shows the rows of its store, each in its partition, and has counted them. -/
theorem load_coherent {s : Scheduler p σ} (now : Instant)
    (hkeyed : ∀ k t, (LawfulStore.rows s.board.store).find? k = some t → t.key = k) :
  (load now).Ends s
    (fun _ s' => s'.board.Coherent ∧
      (∀ k, s'.grid.find? k = (LawfulStore.rows s.board.store).find? k) ∧
      ∀ now' sink status, (s'.book.get now' sink).count status
        = s'.grid.trackers.countP (fun t => t.sink = sink ∧ t.status = status))
    (fun _ s' => s.board.Refused s'.board)
  := by
  rw [load, ends_bind, ends_onBoard]
  apply (Board.loadAll_coherent hkeyed).mono
  · rintro n b ⟨hb, -, hfind⟩
    rw [ends_bind, ends_modify, ends_pure]
    refine ⟨hb.commit (P := fun _ _ => True) (.book ⟨_, rfl⟩), hfind, ?_⟩
    intro now' sink status
    apply count_recount (s := { s with board := b }) hb.filed
  · exact fun _ _ => id

end Scheduler

/-- Every action leaves a coherent board, however it ends. -/
theorem Action.perform_coherent {s : Scheduler p σ} (hs : s.board.Coherent) (now : Instant)
    (a : Action) :
  (a.perform now).Ends s (fun _ s' => s'.board.Coherent) (fun _ s' => s'.board.Coherent)
  := by
  cases a with
  | operation o =>
    rw [perform, ends_bind]
    by_cases ho : o = .load
    · subst ho
      rw [Operation.perform, ends_bind]
      apply (Scheduler.load_coherent now hs.keyed).mono
      · exact fun _ _ h => h.1
      · exact fun _ _ h => h.coherent hs
    · apply (Operation.perform_commitsOnly now ho s).mono
      · exact fun _ _ h => hs.commits (h hs.filed)
      · exact fun _ _ h => hs.commits (h hs.filed).1
  | mutation m =>
    rw [perform, ends_bind, Scheduler.ends_onBoard]
    apply Mutation.perform_coherent hs

/-! ### Runs -/

/-- The store of the scheduler has no rows, or the scheduler has loaded them. -/
inductive Scheduler.Opened : Scheduler p σ → Prop
  | empty {s : Scheduler p σ} (hgrid : s.grid = .empty p)
      (hrows : LawfulStore.rows s.board.store = ∅) : Opened s
  | loaded {s s' : Scheduler p σ} {now : Instant} {n : Nat}
      (hkeyed : ∀ k t, (LawfulStore.rows s.board.store).find? k = some t → t.key = k)
      (h : Scheduler.load now s = .ok n s') : Opened s'

theorem Scheduler.Opened.coherent {s : Scheduler p σ} (h : s.Opened) :
  s.board.Coherent
  := by
  cases h with
  | empty hgrid hrows =>
    constructor
    · rw [show s.board.grid = .empty p from hgrid]
      apply Grid.wellFiled_empty
    · intro k
      rw [hrows, show s.board.grid = .empty p from hgrid, Grid.find?_empty]
      rfl
  | @loaded s₀ _ now n hkeyed h => apply ((ends_of_ok h).mp (load_coherent now hkeyed)).1

theorem Action.run_coherent {s : Scheduler p σ} (hs : s.board.Coherent)
    (as : List (Instant × Action)) :
  (run s as).board.Coherent
  := by
  induction as generalizing s with
  | nil => exact hs
  | cons a rest ih =>
    apply ih
    apply (perform_coherent hs a.1 a.2).stateAfter

/--
After any actions the partitions hold the rows of the store, each under its own key in the partition
of the key and so in no other one; and whoever loads these rows, with any number of partitions,
has the same trackers, counted by sink and status.
-/
theorem partitions_hold_rows {s₀ : Scheduler p σ} (h₀ : s₀.Opened)
    (as : List (Instant × Action)) :
  let s := Action.run s₀ as
  (∀ k t, (LawfulStore.rows s.board.store).find? k = some t
    ↔ ∃ i, (s.grid.partition i).find? k = some t) ∧
    (∀ i k t, (s.grid.partition i).find? k = some t → t.key = k ∧ p.home k = i) ∧
    ∀ (settings : Settings) (listening : Bool) (store : σ) (now : Instant),
      LawfulStore.rows store = LawfulStore.rows s.board.store →
      (Scheduler.load now).Ends (Scheduler.start settings listening store)
        (fun _ s' => (∀ k, s'.grid.find? k = s.grid.find? k) ∧
          s'.grid.trackers = s.grid.trackers ∧
          ∀ now' sink status, (s'.book.get now' sink).count status
            = s.grid.trackers.countP (fun t => t.sink = sink ∧ t.status = status))
        (fun _ _ => ¬ LawfulStore.works store)
  := by
  intro s
  have hs : s.board.Coherent := Action.run_coherent h₀.coherent as
  clear_value s
  refine ⟨?_, ?_, ?_⟩
  · intro k t
    rw [hs.agree]
    constructor
    · intro ht
      use p.home k
      apply ht
    · rintro ⟨i, ht⟩
      obtain rfl := hs.filed.home_eq i k t ht
      apply ht
  · intro i k t ht
    exact ⟨hs.filed.key_eq i k t ht, hs.filed.home_eq i k t ht⟩
  · intro settings listening store now hrows
    have hkeyed : ∀ k t, (LawfulStore.rows store).find? k = some t → t.key = k := by
      rw [hrows]
      apply hs.keyed
    apply (Scheduler.load_coherent (s := Scheduler.start settings listening store) now hkeyed).mono
    · rintro _ s' ⟨hs', hfind, hcounts⟩
      have hsame : ∀ k, s'.grid.find? k = s.grid.find? k := by
        intro k
        rw [hfind]
        change (LawfulStore.rows store).find? k = _
        rw [hrows, hs.agree]
        rfl
      have htrackers := Grid.trackers_congr hs'.filed hs.filed hsame
      refine ⟨hsame, htrackers, ?_⟩
      intro now' sink status
      rw [hcounts]
      congr 1
    · exact fun _ _ h => h.1

/-- In the store of a list every tracker lies under its own key. -/
theorem Memory.keyed_ofList (ts : List Tracker) (k : Key) (t : Tracker)
    (ht : (ofList ts).rows.find? k = some t) :
  t.key = k
  := (mem_of_find?_ofList ht).2

/-- Chunk 1 waits for 0, which is not completed as its removal is refused; two trackers are put for
chunk 2; loading is refused. -/
def interrupted : List (Instant × Action) := [
  (default, .operation (.register (.sample 1 1 ["a"]) none)),
  (default, .operation (.complete ⟨1, 0⟩)),
  (default, .mutation (.setAll [
    (Chunk.sample 1 2 ["b"]).track default, (Chunk.sample 1 2 ["c"]).track default])),
  (default, .operation .load)]

/-- Of the two trackers the second is kept, and all three chunks come back over three partitions. -/
theorem partitions_hold_rows_of_stubborn :
  ∃ n s₀, Scheduler.load default (Scheduler.start .standard true Scripted.stubborn) = .ok n s₀ ∧
    let s := Action.run s₀ interrupted
    (∃ i, (s.grid.partition i).find? ⟨1, 2⟩ = some ((Chunk.sample 1 2 ["c"]).track default)) ∧
      (Scheduler.load default).Yields
        (Scheduler.start ⟨3, .purge, 0, 0⟩ true (Scripted.of s.board.store.inner))
        (fun _ s' => s'.grid.trackers = s.grid.trackers ∧
          s'.grid.trackers.map Tracker.status
            = [.readyForProcessing, .blocked, .readyForProcessing])
  := by
  obtain ⟨n, s₀, h⟩ : ∃ n s₀,
      Scheduler.load default (Scheduler.start .standard true Scripted.stubborn) = .ok n s₀ :=
    ⟨_, _, rfl⟩
  have hafter : (Scheduler.load default).stateAfter
      (Scheduler.start .standard true Scripted.stubborn) = s₀ := by
    rw [stateAfter, h]
  have hrow : (LawfulStore.rows (Action.run ((Scheduler.load default).stateAfter
      (Scheduler.start .standard true Scripted.stubborn)) interrupted).board.store).find? ⟨1, 2⟩
      = some ((Chunk.sample 1 2 ["c"]).track default) := by decide +kernel
  have hstatus : (Action.run ((Scheduler.load default).stateAfter
      (Scheduler.start .standard true Scripted.stubborn)) interrupted).grid.trackers.map
      Tracker.status = [.readyForProcessing, .blocked, .readyForProcessing] := by decide +kernel
  rw [hafter] at hrow hstatus
  obtain ⟨hrows, -, hagain⟩ :=
    partitions_hold_rows (.loaded (Memory.keyed_ofList _) h) interrupted
  refine ⟨n, s₀, h, (hrows _ _).mp hrow, ?_⟩
  apply (hagain ⟨3, .purge, 0, 0⟩ true (Scripted.of _) default rfl).mono
  · rintro _ s' ⟨-, htrackers, -⟩
    rw [htrackers]
    exact ⟨rfl, hstatus⟩
  · rintro _ _ hnot
    apply hnot
    exact ⟨trivial, fun _ _ => rfl, fun _ _ => rfl⟩

end ChunkDispatch
