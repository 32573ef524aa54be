import ChunkDispatch.Proofs.Handover

/-!
# Queues which drain

A chunk is *pending* if it is ready or queued for processing.  When a queued chunk is processed it
is pending no more, and every other chunk is pending just if it was before.  So as long as a chunk
is ready, a sink which flows can be *drained*: its queued chunks are processed one after another,
fewer are pending every time, and in the end the ready chunk is queued as well.
-/

namespace ChunkDispatch

open Attempt

variable {p : Partitioner} {σ : Type} {sink : Int32}

/-! ### Pending chunks -/

/-- The tracker is that of a chunk of the sink which is ready or queued for processing. -/
def Tracker.isPending (sink : Int32) (t : Tracker) : Bool :=
  t.isOf sink .readyForProcessing || t.isOf sink .queuedForProcessing

/-- A chunk of the sink is pending exactly if one was before. -/
def SamePending (sink : Int32) (old new : Option Tracker) : Prop :=
  new.any (Tracker.isPending sink) = old.any (Tracker.isPending sink)

instance (sink : Int32) : Std.Refl (SamePending sink) where
  refl _ := rfl

instance (sink : Int32) : IsTrans (Option Tracker) (SamePending sink) where
  trans _ _ _ h h' := h'.trans h

/-- A ready chunk which moves into the queue is pending before and after. -/
theorem samePending_move (now : Instant) (t : Tracker) :
  SamePending sink (some t) (some (Board.amend now
    (Change.Move.apply ⟨.readyForProcessing, .queuedForProcessing⟩) t))
  := by
  obtain ⟨m, hm⟩ := Board.exists_amend_eq now
    (Change.Move.apply ⟨.readyForProcessing, .queuedForProcessing⟩) t
  rw [hm, Change.Move.apply]
  split
  · rfl
  · rename_i hmoved
    have hready : t.status = .readyForProcessing := by simpa using hmoved
    simp [SamePending, Tracker.isPending, Tracker.isOf, hready]

namespace Grid

variable {g g' : Grid p}

/-- The keys of the chunks of the sink which are pending. -/
def pending (g : Grid p) (sink : Int32) : List Key :=
  (g.trackers.filter (Tracker.isPending sink)).map Tracker.key

theorem nodup_pending (hg : g.WellFiled) :
  (g.pending sink).Nodup
  := by
  apply List.pairwise_map.mpr
  apply (pairwise_trackers hg).filter

theorem mem_pending (hg : g.WellFiled) {k : Key} :
  k ∈ g.pending sink ↔ (g.find? k).any (Tracker.isPending sink) = true
  := by
  simp only [pending, List.mem_map, List.mem_filter, mem_trackers hg, Option.any_eq_true]
  constructor
  · rintro ⟨t, ⟨ht, hpending⟩, rfl⟩
    exact ⟨t, ht, hpending⟩
  · rintro ⟨t, ht, hpending⟩
    obtain rfl := hg.key ht
    exact ⟨t, ⟨ht, hpending⟩, rfl⟩

/-- A pending chunk is ready or queued. -/
theorem any_isPending {k : Key} :
  (g.find? k).any (Tracker.isPending sink) = true
    ↔ g.IsOf sink .readyForProcessing k ∨ g.IsOf sink .queuedForProcessing k
  := by
  rw [IsOf, IsOf]
  cases g.find? k with
  | none => simp
  | some t => simp [Tracker.isPending]

/-- If one chunk leaves and nobody enters, fewer chunks are pending. -/
theorem length_pending_lt (hg : g.WellFiled) (hg' : g'.WellFiled) {j : Key}
    (hj : (g.find? j).any (Tracker.isPending sink) = true)
    (hj' : (g'.find? j).any (Tracker.isPending sink) = false)
    (h : ∀ i, i ≠ j → SamePending sink (g.find? i) (g'.find? i)) :
  (g'.pending sink).length < (g.pending sink).length
  := by
  have hnot : j ∉ g'.pending sink := by
    rw [mem_pending hg', hj']
    exact Bool.false_ne_true
  have hnodup : (j :: g'.pending sink).Nodup := List.nodup_cons.mpr ⟨hnot, nodup_pending hg'⟩
  apply (List.subperm_of_subset hnodup _).length_le
  intro i hi
  rw [mem_pending hg]
  obtain heq | hi := List.mem_cons.mp hi
  · rw [heq]
    exact hj
  · have hij : i ≠ j := by
      intro heq
      rw [heq] at hi
      exact hnot hi
    rw [← h i hij, ← mem_pending hg']
    exact hi

end Grid

namespace Scheduler

variable [Store σ] [LawfulStore σ] {s : Scheduler p σ}

/-- A processed chunk is pending no more, and it is all the same with the others. -/
theorem processingDone_pending (hs : s.Counted) (now : Instant) {j : Key}
    (hj : s.grid.IsOf sink .queuedForProcessing j) :
  (processingDone now j).Ends s
    (fun _ s' => (s'.grid.find? j).any (Tracker.isPending sink) = false ∧
      ∀ i, i ≠ j → SamePending sink (s.grid.find? i) (s'.grid.find? i))
    (fun _ _ => ¬ LawfulStore.works s.board.store)
  := by
  have hmove : CommitsOnly (fun _ _ => True) False
      (transition now j .queuedForProcessing .readyForDelivery : Attempt (Scheduler p σ) Bool) := by
    apply commitsOnly_transition
    · exact fun hstatus => hstatus.elim (by decide) (by decide)
    · exact fun _ _ _ => trivial
  rw [processingDone_eq, ends_bind]
  apply ((transition_ends hs.filed now j (by decide) (by decide)).and (hmove s)).mono
  · rintro moved s₁ ⟨⟨-, hfind⟩, hcommits⟩
    have hdone := isOf_of_moved (by decide) (by decide) (by decide) hj hfind
    have hgone : (s₁.grid.find? j).any (Tracker.isPending sink) = false := by
      obtain ⟨t, ht, -, hstatus⟩ := Grid.isOf_iff.mp hdone
      simp [ht, Tracker.isPending, Tracker.isOf, hstatus]
    have hrefill := commitsOnly_refill (p := p) (σ := σ) (P := SamePending sink) (F := False) now j
      moved (samePending_move now)
    apply (hrefill s₁).mono
    · intro _ s₂ h
      have hsame := (h ((hcommits hs.filed).filed hs.filed)).rel
      constructor
      · rw [← hgone]
        apply hsame j
      · intro i hi
        have hother : s₁.grid.find? i = s.grid.find? i := by rw [hfind, if_neg hi]
        rw [← hother]
        apply hsame i
    · intro _ _ h hworks
      apply (h ((hcommits hs.filed).filed hs.filed)).2 ((hcommits hs.filed).works hworks)
  · rintro _ _ ⟨-, h⟩ hworks
    apply (h hs.filed).2 hworks

end Scheduler

/-! ### Draining -/

section Drain

variable [Store σ] [LawfulStore σ]

/-- A queued chunk of the sink is processed. -/
def Operation.Drains (sink : Int32) (s : Scheduler p σ) (o : Operation) : Prop :=
  ∃ j, o = .processingDone j ∧ s.grid.IsOf sink .queuedForProcessing j

variable {settings : Settings} {listening : Bool} {store : σ}
variable {s : Scheduler (.ofCount settings.partitions) σ}

/-- Fewer are pending each time a queued chunk is processed, so a ready chunk is queued in the
end. -/
theorem Reachable.drains (hmax : 0 < settings.maxEnqueued) (hworks : LawfulStore.works store)
    (hrows : LawfulStore.rows store = ∅) {k : Key} {n : Nat}
    (hs : Reachable (fun s o => o.IsServing s) (Scheduler.start settings listening store) s)
    (hn : (s.grid.pending sink).length ≤ n) (hk : s.grid.IsOf sink .readyForProcessing k) :
  ∃ s', Reachable (Operation.Drains sink) s s' ∧ s'.grid.IsOf sink .queuedForProcessing k
  := by
  induction n generalizing s with
  | zero =>
    obtain ⟨hsound, -⟩ := hs.tidy hworks hrows
    have hmem := (Grid.mem_pending hsound.filed).mpr (Grid.any_isPending.mpr (Or.inl hk))
    exact absurd (List.length_pos_of_mem hmem) (Nat.not_lt_of_ge hn)
  | succ n ih =>
    obtain ⟨hworks', hcounted, hsettings, hflows⟩ := hs.flows hmax hworks hrows
    obtain ⟨j, hj⟩ := hflows sink ⟨k, hk⟩
    have hne : k ≠ j := by
      rintro rfl
      obtain ⟨t, ht, -, hready⟩ := Grid.isOf_iff.mp hk
      obtain ⟨u, hu, -, hqueued⟩ := Grid.isOf_iff.mp hj
      cases ht.symm.trans hu
      cases hready.symm.trans hqueued
    have hdrains : Reachable (Operation.Drains sink) s
        ((Operation.perform default (.processingDone j)).stateAfter s) :=
      Reachable.start.step default _ ⟨j, rfl, hj⟩
    have hserves := hs.step default (.processingDone j) trivial
    have hafter := (hserves.tidy hworks hrows).1.filed
    have hyields : (Scheduler.processingDone default j).Yields s (fun _ s' => _) :=
      ((Scheduler.processingDone_pending hcounted default hj).mono (fun _ _ => id)
        (fun _ _ hnot => hnot hworks'))
    rw [Operation.perform, stateAfter_bind_pure] at hdrains hserves hafter
    obtain ⟨hgone, hothers⟩ := hyields.stateAfter
    have hlt := Grid.length_pending_lt hcounted.filed hafter
      (Grid.any_isPending.mpr (Or.inr hj)) hgone hothers
    have hk' := Grid.any_isPending.mp ((hothers k hne).trans (Grid.any_isPending.mpr (Or.inl hk)))
    obtain hready | hqueued := hk'
    · obtain ⟨s', hs', hqueued⟩ := ih hserves (Nat.le_of_lt_succ (Nat.lt_of_lt_of_le hlt hn)) hready
      exact ⟨s', hdrains.trans hs', hqueued⟩
    · exact ⟨_, hdrains, hqueued⟩

/--
From an empty store operations which serve lead only to schedulers where another chunk of the sink
is queued if one is ready, and the ready one will be when enough of those queued are processed.
-/
theorem ready_is_not_stranded (hmax : 0 < settings.maxEnqueued) (hworks : LawfulStore.works store)
    (hrows : LawfulStore.rows store = ∅)
    (hs : Reachable (fun s o => o.IsServing s) (Scheduler.start settings listening store) s)
    {t : Tracker} (ht : t ∈ s.grid.trackers) (hready : t.status = .readyForProcessing) :
  (∃ u ∈ s.grid.trackers, u.sink = t.sink ∧ u.status = .queuedForProcessing) ∧
    ∃ s', Reachable (Operation.Drains t.sink) s s' ∧
      ∃ t' ∈ s'.grid.trackers, t'.key = t.key ∧ t'.sink = t.sink ∧ t'.status = .queuedForProcessing
  := by
  obtain ⟨hworks', hcounted, -, hflows⟩ := hs.flows hmax hworks hrows
  have hfind := (Grid.mem_trackers hcounted.filed).mp ht
  have hk : s.grid.IsOf t.sink .readyForProcessing t.key :=
    Grid.isOf_iff.mpr ⟨t, hfind, rfl, hready⟩
  have hmem : ∀ {s' : Scheduler (.ofCount settings.partitions) σ} {j : Key},
      s'.grid.WellFiled → s'.grid.IsOf t.sink .queuedForProcessing j →
      ∃ u ∈ s'.grid.trackers, u.key = j ∧ u.sink = t.sink ∧ u.status = .queuedForProcessing := by
    intro s' j hfiled hj
    obtain ⟨u, hu, hsink, hqueued⟩ := Grid.isOf_iff.mp hj
    obtain rfl := hfiled.key hu
    exact ⟨u, (Grid.mem_trackers hfiled).mpr hu, rfl, hsink, hqueued⟩
  constructor
  · obtain ⟨j, hj⟩ := hflows t.sink ⟨t.key, hk⟩
    obtain ⟨u, hu, -, hqueued⟩ := hmem hcounted.filed hj
    exact ⟨u, hu, hqueued⟩
  · obtain ⟨s', hs', hqueued⟩ := hs.drains hmax hworks hrows (Nat.le_refl _) hk
    have hserves : Reachable (fun s o => o.IsServing s) s s' := by
      apply hs'.mono
      rintro _ _ ⟨j, rfl, -⟩
      trivial
    exact ⟨s', hs', hmem ((hs.trans hserves).tidy hworks hrows).1.filed hqueued⟩

end Drain

/-- Chunk 0 is processed after a reload; chunk 1 is queued in its place, and chunk 2 still ready. -/
theorem ready_is_not_stranded_of_narrow :
  let s := (Operation.run (Scheduler.start Scheduler.narrow true (Memory.ofList [])) [
    (default, .register (.sample 1 0 []) none), (default, .register (.sample 1 1 []) none),
    (default, .forceMode 1 .processing .direct), (default, .load),
    (default, .register (.sample 1 2 []) none), (default, .processingDone ⟨1, 0⟩)]).2
  ∃ t ∈ s.grid.trackers, t.status = .readyForProcessing ∧
    ∃ u ∈ s.grid.trackers, u.sink = t.sink ∧ u.status = .queuedForProcessing
  := by
  intro s
  have hs : Reachable (fun s o => o.IsServing s)
      (Scheduler.start Scheduler.narrow true (Memory.ofList [])) s :=
    Reachable.start.run ⟨trivial, trivial, trivial, trivial, trivial, trivial, trivial⟩
  have hready : ∃ t ∈ s.grid.trackers, t.status = .readyForProcessing := by decide +kernel
  clear_value s
  obtain ⟨t, ht, hready⟩ := hready
  use t, ht, hready
  exact (ready_is_not_stranded (by decide) trivial rfl hs ht hready).1

end ChunkDispatch
