import ChunkDispatch.Proofs.Invariant

/-!
# Blocked exactly when waiting

Whatever operations replace, they replace by something consistent, and each write is taken or
refused as a whole.  So if the rows of a store are consistent to begin with, every tracker and every
row is blocked exactly when it waits for something, after any operations and whatever the store
refuses.
-/

namespace ChunkDispatch

open Attempt

variable {p : Partitioner} {σ : Type} [Store σ] [LawfulStore σ]

namespace Board

variable {b : Board p σ}

/-- All that is found in the grid and in the rows is consistent. -/
structure Consistent (b : Board p σ) : Prop where
  filed : b.grid.WellFiled
  tracked : ∀ k t, b.grid.find? k = some t → t.isConsistent = true
  stored : ∀ k t, (LawfulStore.rows b.store).find? k = some t → t.isConsistent = true

theorem consistent_iff :
  b.Consistent ↔ b.All (fun t => t.isConsistent = true)
  := ⟨fun h => ⟨h.filed, h.tracked, h.stored⟩, fun h => ⟨h.filed, h.tracked, h.stored⟩⟩

end Board

/-- Whatever an operation writes leaves trackers consistent. -/
theorem Operation.passesOn_consistent (now : Instant) {o : Operation} (ho : o ≠ load) :
  Scheduler.CommitsOnly (PassesOn (fun t => t.isConsistent = true)) True
    (o.perform now : Attempt (Scheduler p σ) Answer)
  := by
  apply (perform_commitsOnly now ho).mono
  exact fun _ _ h => h.consistent

/-- Every operation leaves what is consistent consistent, however it ends. -/
theorem Operation.perform_consistent {s : Scheduler p σ} (hs : s.board.Consistent) (now : Instant)
    (o : Operation) :
  (o.perform now).Ends s (fun _ s' => s'.board.Consistent) (fun _ s' => s'.board.Consistent)
  := by
  simp only [Board.consistent_iff] at hs ⊢
  exact perform_all hs (passesOn_consistent now)

/-- Over consistent rows the board stays consistent, whatever operations are permitted. -/
theorem Reachable.consistent {settings : Settings} {listening : Bool} {store : σ}
    {permitted : Scheduler (.ofCount settings.partitions) σ → Operation → Prop}
    {s : Scheduler (.ofCount settings.partitions) σ}
    (hrows : ∀ k t, (LawfulStore.rows store).find? k = some t → t.isConsistent = true)
    (hs : Reachable permitted (Scheduler.start settings listening store) s) :
  s.board.Consistent
  := Board.consistent_iff.mpr (hs.all (fun now _ => Operation.passesOn_consistent now) hrows)

/--
Over a store with consistent rows, whatever of its actions it refuses, every tracker and every row
is blocked exactly when it waits for something, after any operations.
-/
theorem blocked_iff_waits {settings : Settings} {listening : Bool} {store : σ}
    {s : Scheduler (.ofCount settings.partitions) σ}
    (hrows : ∀ k t, (LawfulStore.rows store).find? k = some t → t.isConsistent = true)
    (hs : Reachable (fun _ _ => True) (Scheduler.start settings listening store) s) :
  (∀ t ∈ s.grid.trackers, t.status = .blocked ↔ ∃ j, j ∈ t.waitingOn) ∧
    ∀ k t, (LawfulStore.rows s.board.store).find? k = some t →
      (t.status = .blocked ↔ ∃ j, j ∈ t.waitingOn)
  := by
  have hconsistent : s.board.Consistent := by
    induction hs with
    | start =>
      use Grid.wellFiled_empty
      · intro k t ht
        cases (Grid.find?_empty k).symm.trans ht
      · apply hrows
    | step now o _ _ ih => apply (Operation.perform_consistent ih now o).stateAfter
  constructor
  · intro t ht
    apply Tracker.isConsistent_iff.mp
    apply hconsistent.tracked t.key t ((Grid.mem_values hconsistent.filed).mp ht).1
  · intro k t ht
    apply Tracker.isConsistent_iff.mp (hconsistent.stored k t ht)

/-- Chunk 1 waits for chunk 0, whose removal the store refuses. -/
theorem blocked_iff_waits_of_stubborn :
  let s := (Operation.run (Scheduler.start .standard true Scripted.stubborn) [
    (default, .load), (default, .register (.sample 1 1 ["a"]) none),
    (default, .complete ⟨1, 0⟩)]).2
  (∀ k t, (LawfulStore.rows Scripted.stubborn).find? k = some t → t.isConsistent = true) ∧
    ∃ t ∈ s.grid.trackers, t.status = .blocked ∧ ∃ j, j ∈ t.waitingOn
  := by
  intro s
  have hrows : ∀ k t, (LawfulStore.rows Scripted.stubborn).find? k = some t →
      t.isConsistent = true := by
    intro k t ht
    obtain rfl := List.mem_singleton.mp (Memory.mem_of_find?_ofList ht).1
    rfl
  have hs : Reachable (fun _ _ => True) (Scheduler.start .standard true Scripted.stubborn) s :=
    Reachable.start.run ⟨trivial, trivial, trivial, trivial⟩
  have hblocked : ∃ t ∈ s.grid.trackers, t.status = .blocked := by decide +kernel
  clear_value s
  use hrows
  obtain ⟨t, ht, hstatus⟩ := hblocked
  use t, ht, hstatus
  apply ((blocked_iff_waits hrows hs).1 t ht).mp hstatus

end ChunkDispatch
