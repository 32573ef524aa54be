import ChunkDispatch.Proofs.Counters
import ChunkDispatch.Proofs.Entry

/-!
# The counts of completed chunks

A completed chunk is registered again in the place of its tracker, and the event of that names the
sink of the new tracker alone.  A registration *moves* a completed chunk if the chunk is completed
for one sink and registered for another; the sink it is taken from goes on counting it.  Every other
operation keeps the completed counts right, so they are right along a run exactly if it moves no
completed chunk.
-/

namespace ChunkDispatch

open Attempt

variable {p : Partitioner} {σ : Type}

/-- A chunk which is completed for one sink is registered for another. -/
def Operation.MovesCompleted (s : Scheduler p σ) : Operation → Prop
  | register c _ => ∃ t, s.grid.find? c.key = some t ∧ t.status = .completed ∧ t.sink ≠ c.sink
  | _ => False

variable [Store σ] [LawfulStore σ]

/-! ### Registrations -/

namespace Scheduler

variable {s : Scheduler p σ} {c : Chunk}

/-- The events of a registration account for the completed trackers, unless it moves one. -/
theorem register_accounts (hs : s.board.Sound) (now : Instant) (barrier : Option String)
    (hstays : ∀ t, s.grid.find? c.key = some t → t.status = .completed → t.sink = c.sink) :
  s.board.Accounts .completed ((register now c barrier).stateAfter s).board
  := by
  apply Ends.stateAfter (P := fun s' : Scheduler p σ => s.board.Accounts .completed s'.board)
  cases hlive : s.grid.isLive c.key with
  | true =>
    obtain ⟨t, ht, hlive⟩ := Grid.isLive_iff.mp hlive
    have hrenew := commitsOnly_renew (F := True) t (s.goneFrom t)
      (fun j u => (allows_keepsSink now .completed).release ⟨j⟩ u) s
    rw [register, ends_bind, ends_modifyGet, plan_of_live ht hlive]
    apply hrenew.mono
    · exact fun _ _ h => (h hs.filed).accounts (fun _ _ => id) hs.filed
    · exact fun _ _ h => (h hs.filed).1.accounts (fun _ _ => id) hs.filed
  | false =>
    apply (register_ends_of_not_live hs.filed now barrier hlive).mono
    · rintro t s' ⟨henrols, book, b, h, rfl⟩
      have hkeeps : EventKind.KeepsSink .completed (s.grid.find? t.key) (some t) := by
        intro u _ hu ht hstatus
        cases ht
        rw [henrols.key, newcomer_key] at hu
        rw [henrols.sink, hstays u hu hstatus]
      have haccounts : s.board.Accounts .completed b := by
        apply (Board.accounts_of_eq rfl rfl).trans
        apply (h.commit hkeeps).accounts (fun _ _ => id) hs.filed
      split
      · rwa [send_board]
      · exact haccounts
    · exact fun _ _ hnot => absurd hs.works hnot

/-- The registration of a chunk which is not live tells of its tracker alone. -/
theorem register_log (hs : s.board.Sound) (now : Instant) (barrier : Option String)
    (hnew : s.grid.isLive c.key = false) :
  ∃ t, s.Enrols now c barrier t ∧
    ((register now c barrier).stateAfter s).grid = s.grid.insert t ∧
    ∃ es, ((register now c barrier).stateAfter s).board.log = s.board.log ++ es ∧
      es.map Event.kind = (EventKind.ofChange? (s.grid.find? c.key) (some t)).toList
  := by
  apply Ends.stateAfter (P := fun s' : Scheduler p σ => ∃ t, s.Enrols now c barrier t ∧
    s'.grid = s.grid.insert t ∧ ∃ es, s'.board.log = s.board.log ++ es ∧
      es.map Event.kind = (EventKind.ofChange? (s.grid.find? c.key) (some t)).toList)
  apply (register_ends_of_not_live hs.filed now barrier hnew).mono
  · rintro t s' ⟨henrols, book, b, h, rfl⟩
    have hgrid : b.grid = s.grid.insert t := h.grid
    have hlog : ∃ es, b.log = s.board.log ++ es ∧
        es.map Event.kind = (EventKind.ofChange? (s.grid.find? c.key) (some t)).toList := by
      obtain ⟨store, -, -, rfl⟩ := h
      rw [show c.key = t.key by rw [henrols.key, newcomer_key]]
      apply Board.emit_log
    use t, henrols
    rw [apply_ite Scheduler.board, apply_ite Scheduler.grid]
    simp only [grid, send_board, ite_self]
    exact ⟨hgrid, hlog⟩
  · exact fun _ _ hnot => absurd hs.works hnot

/-- A completed chunk which is moved to another sink is still counted for the one it leaves. -/
theorem register_miscounts (hs : s.board.Sound) (now : Instant) (barrier : Option String)
    (h : s.book.Counts .completed s.grid) {u : Tracker} (hu : s.grid.find? c.key = some u)
    (hstatus : u.status = .completed) (hsink : u.sink ≠ c.sink) :
  ((register now c barrier).stateAfter s).book.count u.sink .completed
    = ((register now c barrier).stateAfter s).grid.census u.sink .completed + 1
  := by
  have hnew : s.grid.isLive c.key = false := by
    rw [Grid.isLive, hu, Option.any_some, Tracker.isLive, hstatus]
    rfl
  obtain ⟨t, henrols, hgrid, es, hlog, hkinds⟩ := register_log hs now barrier hnew
  have hload : Operation.register c barrier ≠ .load := Operation.noConfusion
  have hrecount : ∀ sinks, Operation.register c barrier ≠ .recount sinks :=
    fun _ => Operation.noConfusion
  obtain ⟨es', hlog', hbook⟩ := Operation.perform_follows now hload hrecount s
  rw [Operation.perform, stateAfter_bind_pure] at hlog' hbook
  obtain rfl : es = es' := List.append_cancel_left (hlog.symm.trans hlog')
  rw [hu] at hkinds
  obtain ⟨e, rfl, hkind⟩ := List.map_eq_singleton_iff.mp hkinds
  have hfiled : s.grid.WellFiled := hs.filed
  have hkey : t.key = c.key := by rw [henrols.key, newcomer_key]
  -- The event names the new sink, so it takes nothing from the old one.
  have htakes : e.kind.takes u.sink .completed = false := by
    simp [hkind, EventKind.takes, henrols.sink, Ne.symm hsink]
  have hgives : e.kind.gives u.sink .completed = false := by
    simp [hkind, EventKind.gives, henrols.sink, Ne.symm hsink]
  have hother : t.isOf u.sink .completed = false := by
    simp [Tracker.isOf, henrols.sink, Ne.symm hsink]
  have hsame : u.isOf u.sink .completed = true := by
    simp [Tracker.isOf, hstatus]
  calc ((register now c barrier).stateAfter s).book.count u.sink .completed
      = (s.book.observe e).count u.sink .completed := hbook u.sink .completed
    _ = s.book.count u.sink .completed := by
      rw [Book.count_observe, htakes, hgives]
      rfl
    _ = (s.grid.erase c.key).census u.sink .completed + 1 := by
      rw [h, Grid.census_erase hfiled c.key, hu, Option.any_some, hsame]
      rfl
    _ = ((register now c barrier).stateAfter s).grid.census u.sink .completed + 1 := by
      rw [hgrid, Grid.census_insert hfiled, hkey, hother]
      rfl

end Scheduler

/-! ### Operations and runs -/

namespace Operation

variable {s : Scheduler p σ} {o : Operation}

/-- The events of an operation account for the completed trackers, unless it moves one. -/
theorem perform_accounts_completed (hs : s.board.Sound) (now : Instant) (hload : o ≠ load)
    (hstays : ¬ o.MovesCompleted s) :
  s.board.Accounts .completed ((o.perform now).stateAfter s).board
  := by
  by_cases hregister : ∃ c barrier, o = register c barrier
  · obtain ⟨c, barrier, rfl⟩ := hregister
    rw [perform, stateAfter_bind_pure]
    apply Scheduler.register_accounts hs
    intro t ht hstatus
    by_contra hsink
    exact hstays ⟨t, ht, hstatus, hsink⟩
  · have hcommits := commitsOnly_of_allows (p := p) (σ := σ) (allows_keepsSink now .completed)
      hload (fun c barrier heq => hregister ⟨c, barrier, heq⟩) s
    apply Ends.stateAfter (P := fun s' : Scheduler p σ => s.board.Accounts .completed s'.board)
    apply hcommits.mono
    · exact fun _ _ h => (h hs.filed).accounts (fun _ _ => id) hs.filed
    · exact fun _ _ h => (h hs.filed).1.accounts (fun _ _ => id) hs.filed

/-- Right completed counts stay right, unless a completed chunk is moved. -/
theorem perform_counts_completed (hs : s.board.Sound) (h : s.book.Counts .completed s.grid)
    (now : Instant) (hstays : ¬ o.MovesCompleted s) :
  ((o.perform now).stateAfter s).book.Counts .completed ((o.perform now).stateAfter s).grid
  := by
  by_cases hload : o = load
  · subst hload
    rw [perform, stateAfter_bind_pure]
    apply (Scheduler.load_counts hs.filed now).2.2 _ h
  · by_cases hrecount : ∃ sinks, o = recount sinks
    · obtain ⟨sinks, rfl⟩ := hrecount
      apply Scheduler.counts_recount hs.filed now sinks h
    · obtain ⟨es, hlog, hbook⟩ := perform_follows now hload (not_exists.mp hrecount) s
      obtain ⟨es', hlog', haccounts⟩ := perform_accounts_completed hs now hload hstays
      obtain rfl : es = es' := List.append_cancel_left (hlog.symm.trans hlog')
      intro sink
      rw [hbook]
      apply (haccounts _ h).2

/-- From right completed counts, an operation keeps them right exactly if it moves no chunk. -/
theorem perform_counts_completed_iff (hs : s.board.Sound) (h : s.book.Counts .completed s.grid)
    (now : Instant) :
  ((o.perform now).stateAfter s).book.Counts .completed ((o.perform now).stateAfter s).grid
    ↔ ¬ o.MovesCompleted s
  := by
  constructor
  · intro hcounts hmoves
    cases o with
    | register c barrier =>
      obtain ⟨u, hu, hstatus, hsink⟩ := hmoves
      have hmore := Scheduler.register_miscounts hs now barrier h hu hstatus hsink
      rw [perform, stateAfter_bind_pure] at hcounts
      rw [hcounts] at hmore
      omega
    | _ => exact hmoves
  · apply perform_counts_completed hs h now

/-- The completed counts are right all along a run exactly if it moves no completed chunk. -/
theorem run_counts_completed_iff (hs : s.board.Sound) (h : s.book.Counts .completed s.grid)
    (os : List (Instant × Operation)) :
  (∀ os', os' <+: os → (run s os').2.book.Counts .completed (run s os').2.grid)
    ↔ Permits (fun s o => ¬ o.MovesCompleted s) s os
  := by
  apply along_run_iff (J := fun s => s.board.Sound) (I := fun s => s.book.Counts .completed s.grid)
  · exact fun s now o hs => (perform_effect hs now o).1
  · exact fun s now o hs h => perform_counts_completed_iff hs h now
  · exact hs
  · exact h

end Operation

omit [Store σ] [LawfulStore σ] in
/-- A full recount changes no completed count exactly if all of them are right. -/
theorem Scheduler.recount_completed_iff {s : Scheduler p σ} (hs : s.grid.WellFiled)
    (now : Instant) :
  (∀ sink, (s.recount now ∅).book.count sink .completed = s.book.count sink .completed)
    ↔ s.book.Counts .completed s.grid
  := by
  have hcounts := counts_recount_all hs now .completed
  constructor
  · intro hsame sink
    rw [← hsame, hcounts]
  · intro hright sink
    rw [hcounts, hright]

/--
Along a run from an empty store which works, the book counts for every sink as many completed chunks
as there are completed trackers of the sink, and a full recount changes none of these counts, in
every state exactly if no chunk which is completed for one sink is registered for another.
-/
theorem book_counts_completed_iff {settings : Settings} {listening : Bool} {store : σ}
    (hworks : LawfulStore.works store) (hrows : LawfulStore.rows store = ∅)
    (os : List (Instant × Operation)) :
  (∀ os' s, os' <+: os → (Operation.run (Scheduler.start settings listening store) os').2 = s →
      ∀ now sink,
        (s.book.get now sink).count .completed
          = s.grid.trackers.countP (fun t => t.sink = sink ∧ t.status = .completed) ∧
        ((s.recount now ∅).book.get now sink).count .completed
          = (s.book.get now sink).count .completed)
    ↔ Operation.Permits (fun s o => ¬ o.MovesCompleted s)
        (Scheduler.start settings listening store) os
  := by
  rw [← Operation.run_counts_completed_iff (Board.sound_start hworks hrows)
    (Scheduler.counts_start settings listening store .completed)]
  constructor
  · intro hall os' hos' sink
    rw [← Book.count_get _ default]
    apply (hall os' _ hos' rfl default sink).1
  · rintro hall os' s hos' rfl now sink
    have hcounts := hall os' hos'
    have hs := Operation.reachable_run (Scheduler.start settings listening store) os'
    have hfiled := (hs.tidy hworks hrows).1.filed
    rw [Book.count_get, Book.count_get]
    use hcounts sink
    apply (Scheduler.recount_completed_iff hfiled now).mpr hcounts

/-- Chunk 0 is completed, retained, and registered again for its sink. -/
theorem book_counts_completed_iff_of_retained :
  let store := Memory.ofList []
  let os := [(default, .register (.sample 1 0 []) none), (default, .complete ⟨1, 0⟩),
    (default, .register (.sample 1 0 []) none)]
  LawfulStore.works store ∧ LawfulStore.rows store = ∅ ∧
    ∀ os', os' <+: os → ∀ sink,
      ((Operation.run (Scheduler.start .retaining true store) os').2.book.get default sink).count
          .completed
        = (Operation.run (Scheduler.start .retaining true store) os').2.grid.trackers.countP
          (fun t => t.sink = sink ∧ t.status = .completed)
  := by
  intro store os
  have hworks : LawfulStore.works store := trivial
  have hrows : LawfulStore.rows store = ∅ := rfl
  use hworks, hrows
  have hsink : ((Operation.run (Scheduler.start .retaining true store)
      (os.take 2)).2.grid.find? ⟨1, 0⟩).map Tracker.sink = some 1 := by
    decide +kernel
  have hstays : Operation.Permits (fun s o => ¬ o.MovesCompleted s)
      (Scheduler.start .retaining true store) os := by
    refine ⟨?_, id, ?_, trivial⟩
    · rintro ⟨t, ht, -⟩
      cases (Grid.find?_empty _).symm.trans ht
    · rintro ⟨t, ht, -, hne⟩
      have hsame : (some t).map Tracker.sink = some 1 :=
        (congrArg (Option.map Tracker.sink) ht).symm.trans hsink
      apply hne (Option.some.inj hsame)
  intro os' hos' sink
  apply ((book_counts_completed_iff hworks hrows os).mpr hstays os' _ hos' rfl default sink).1

/--
Chunk 0 is completed for sink 1, retained, and registered again for sink 2.  The book goes on
counting a completed chunk of sink 1, where there is none left.
-/
theorem register_leaves_completed_count :
  let s := (Operation.run (Scheduler.start .retaining true (Memory.ofList [])) [
    (default, .register (.sample 1 0 []) none), (default, .complete ⟨1, 0⟩),
    (default, .register ((Chunk.sample 1 0 []).to 2) none)]).2
  (s.book.get default 1).count .completed = 1 ∧
    s.grid.trackers.countP (fun t => t.sink = 1 ∧ t.status = .completed) = 0 ∧
    ((s.recount default ∅).book.get default 1).count .completed = 0
  := by
  decide +kernel

end ChunkDispatch
