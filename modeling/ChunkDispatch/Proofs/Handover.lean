import ChunkDispatch.Proofs.Interruption
import ChunkDispatch.Proofs.Refill

/-!
# Places which are handed over

A processed chunk leaves its place in the queue, and the place is *handed over* when a ready chunk
of its sink moves into it.  If the store fails in between, the chunk has moved and the place is
empty.  Processed again, once the store is mended, the chunk is found moved already and nothing is
done, so its sink stops to flow unless another chunk of it is still queued.
-/

namespace ChunkDispatch

open Attempt

variable {p : Partitioner} {σ : Type}

namespace Scheduler

/-! ### The writes of a move -/

theorem length_changedAt_move (now : Instant) {source target : Status} (hne : source ≠ target)
    (g : Grid p) (k : Key) :
  (Board.changedAt now (Change.Move.apply ⟨source, target⟩) g k).length
    = ((g.find? k).any (fun t => t.status = source)).toNat
  := by
  rw [Board.changedAt]
  cases g.find? k with
  | none => rfl
  | some t =>
    rw [Option.bind_some, Option.any_some, Board.changed?]
    obtain ⟨heq, hsource⟩ | ⟨-, hsource, -, htarget⟩ := Change.Move.apply_status ⟨source, target⟩ t
    · have hstatus : t.status ≠ source := fun h => hne (hsource h)
      rw [heq, if_pos rfl, decide_eq_false hstatus]
      rfl
    · have hother : (Change.Move.apply ⟨source, target⟩ t).2 ≠ t := by
        intro heq
        rw [heq] at htarget
        exact hne (hsource.symm.trans htarget)
      rw [if_neg hother, decide_eq_true hsource]
      rfl

variable [Store σ] [LawfulStore σ] {s : Scheduler p (Scripted σ)}

/-- A chunk which moves spends a write. -/
theorem transition_spends (now : Instant) (k : Key) {source target : Status}
    (hsource : source ≠ .blocked) (htarget : target ≠ .blocked) (hne : source ≠ target) :
  Spends Allows ((s.grid.find? k).any (fun t => t.status = source)).toNat
    (transition now k source target) s
  := by
  intro m hm
  rw [transition, if_neg (not_or.mpr ⟨hsource, htarget⟩), ends_bind,
    ← length_changedAt_move now hne]
  apply (spends_onBoard (Board.adjust_spends now k _ s.board) m hm).mono
  · rintro moved s' ⟨hle, hallows⟩
    split
    · split
      · rw [ends_bind, ends_modify, ends_pure, Allows, send_board]
        exact ⟨hle, hallows⟩
      · exact ⟨hle, hallows⟩
    · exact ⟨hle, hallows⟩
  · exact fun _ _ => id

/-- A chunk in the status it is to leave spends just one write. -/
theorem transition_spends_one (now : Instant) {sink : Int32} {k : Key} {source target : Status}
    (hk : s.grid.IsOf sink source k) (hsource : source ≠ .blocked) (htarget : target ≠ .blocked)
    (hne : source ≠ target) :
  Spends Allows 1 (transition now k source target) s
  := by
  have hleaves : (s.grid.find? k).any (fun t => t.status = source) = true := by
    obtain ⟨u, hu, -, hstatus⟩ := Grid.isOf_iff.mp hk
    rw [hu]
    exact decide_eq_true hstatus
  have hspends := transition_spends (s := s) now k hsource htarget hne
  rwa [hleaves] at hspends

/-- A ready chunk moves into the queue if a write is allowed. -/
theorem transition_ready_ends {m : Nat} (hm : s.Allows m) (now : Instant) {sink : Int32} {j : Key}
    (hj : s.grid.IsOf sink .readyForProcessing j) :
  (transition now j .readyForProcessing .queuedForProcessing).Ends s (fun _ _ => 0 < m)
    (fun _ _ => ¬ 0 < m)
  := by
  have hspends : Spends Allows 1 (transition now j .readyForProcessing .queuedForProcessing) s :=
    transition_spends_one now hj (by decide) (by decide) (by decide)
  apply (hspends m hm).mono
  · exact fun _ _ => And.left
  · exact fun _ _ h => Nat.not_lt_of_ge (Nat.le_of_lt_succ h.1)

/-! ### Processed, and interrupted -/

/-- While its place is filled a processed chunk waits for its delivery. -/
theorem refill_leaves_processed (hs : s.grid.WellFiled) (now : Instant) {k : Key} {t : Tracker}
    (ht : s.grid.find? k = some t) (hstatus : t.status = .readyForDelivery) :
  (refill now k true).Ends s (fun _ s' => isQueued (s'.grid.find? k) = false)
    (fun _ s' => isQueued (s'.grid.find? k) = false)
  := by
  have hkeeps : CommitsOnly
      (Keeps (fun found => found.any (fun t => t.status = .readyForDelivery) = true)) True
      (refill now k true : Attempt (Scheduler p (Scripted σ)) Bool) :=
    commitsOnly_refill now k true (keeps_delivery now)
  have hend : ∀ s' : Scheduler p (Scripted σ), s.board.Commits
      (Keeps (fun found => found.any (fun t => t.status = .readyForDelivery) = true)) s'.board →
      isQueued (s'.grid.find? k) = false := by
    intro s' h
    have hwaits := (h.rel k).keeps (by
      rw [← grid, ht]
      exact decide_eq_true hstatus)
    obtain ⟨u, hu, hu'⟩ := (Option.any_eq_true _ _).mp hwaits
    rw [grid, hu]
    apply isQueued_of_status _ u (of_decide_eq_true hu')
    decide
  apply (hkeeps s).mono
  · exact fun _ s' h => hend s' (h hs)
  · exact fun _ s' h => hend s' (h hs).1

/--
If the place of a processed chunk is not handed over to the end, nothing is done, or the chunk has
moved and nobody into its place, or somebody has, and then all sinks flow.
-/
theorem processingDone_interrupted (hs : s.Counted) (hmax : 0 < s.settings.maxEnqueued)
    (hflows : ∀ sink, s.grid.Flows sink) (now : Instant) (k : Key) {n : Nat} (hn : s.Allows n) :
  (processingDone now k).Ends s (fun _ s' => ∀ sink, s'.grid.Flows sink)
    (fun _ s₁ =>
      n = 0 ∧ s₁.Counted ∧ s₁.settings = s.settings ∧ s₁.grid = s.grid ∧
        LawfulStore.works s₁.board.store.inner ∨
      isQueued (s₁.grid.find? k) = false ∧
        (2 ≤ n ∧ (∀ sink, s₁.grid.Flows sink) ∨
          n = 1 ∧ ∃ t t', Processed k t t' s.grid s₁.grid ∧ s₁.grid.Has t.sink .readyForProcessing))
  := by
  rw [processingDone_eq, ends_bind]
  apply ((transition_processed hs now k).and
    (transition_spends now k (by decide) (by decide) (by decide) n hn)).mono
  · rintro moved s₁ ⟨⟨hcounted, hsettings, hstay, hmoved⟩, hle, hallows⟩
    cases moved with
    | false =>
      rw [refill, if_neg Bool.false_ne_true, ends_pure, hstay rfl]
      exact hflows
    | true =>
      obtain ⟨t, t', hprocessed⟩ := hmoved rfl
      have hqueued : (s.grid.find? k).any (fun t => t.status = .queuedForProcessing) = true := by
        rw [hprocessed.before]
        exact decide_eq_true hprocessed.queued
      rw [hqueued, Bool.toNat_true] at hle hallows
      have hmax₁ : 0 < s₁.settings.maxEnqueued := by rwa [hsettings]
      have hothers : ∀ sink, sink ≠ t'.sink → s₁.grid.Flows sink := by
        intro sink hsink
        rw [hprocessed.sink] at hsink
        apply hprocessed.flows (hflows sink) hsink
      have hallows' : (s₁.updateMode now t'.sink .processing).2.Allows (n - 1) := hallows
      have hends := refill_ends hcounted hmax₁ now hprocessed.after hothers
        (fun _ => transition_ready_ends hallows' now)
      apply (hends.and (refill_leaves_processed hcounted.filed now hprocessed.after
        hprocessed.waits)).mono
      · exact fun _ _ => And.left
      · rintro _ s₂ ⟨⟨htaken, hrefused⟩, hnot⟩
        refine Or.inr ⟨hnot, ?_⟩
        -- The chunk took one write, so with another the first move into its place was made.
        by_cases hmore : 0 < n - 1
        · exact Or.inl ⟨by omega, htaken hmore⟩
        · obtain ⟨hgrid, hready⟩ := hrefused hmore
          rw [hprocessed.sink] at hready
          rw [hgrid]
          exact Or.inr ⟨by omega, t, t', hprocessed, hready⟩
  · rintro _ s₁ ⟨⟨hcounted, hsettings, hrefused⟩, hlt, hallows⟩
    have hone := Bool.toNat_le ((s.grid.find? k).any (fun t => t.status = .queuedForProcessing))
    exact Or.inl ⟨by omega, hcounted, hsettings, hrefused.grid, hallows.1⟩

/-! ### Processed again -/

/-- A sink with a ready chunk flows after one of its chunks was processed if another is queued. -/
theorem Processed.flows_iff {k : Key} {t t' : Tracker} {g g' : Grid p} (h : Processed k t t' g g')
    (hflows : ∀ sink, g.Flows sink) (hready : g'.Has t.sink .readyForProcessing) :
  (∀ sink, g'.Flows sink) ↔ (g.erase k).Has t.sink .queuedForProcessing
  := by
  have hother : ∀ {j}, j ≠ k → (g.erase k).find? j = g'.find? j := by
    intro j hj
    rw [Grid.find?_erase, if_neg hj, h.others j hj]
  constructor
  · intro hflows'
    obtain ⟨j, hj⟩ := hflows' t.sink hready
    use j
    rw [Grid.IsOf, hother]
    · exact hj
    · rintro rfl
      obtain ⟨u, hu, -, hstatus⟩ := Grid.isOf_iff.mp hj
      obtain rfl := Option.some.inj (h.after.symm.trans hu)
      cases h.waits.symm.trans hstatus
  · rintro ⟨j, hj⟩ sink
    by_cases hsink : sink = t.sink
    · have hne : j ≠ k := by
        rintro rfl
        obtain ⟨u, hu, -⟩ := Grid.isOf_iff.mp hj
        rw [Grid.find?_erase, if_pos rfl] at hu
        cases hu
      rw [hsink]
      rw [Grid.IsOf, hother hne] at hj
      exact fun _ => ⟨j, hj⟩
    · apply h.flows (hflows sink) hsink

/--
From an empty store operations which serve lead to a scheduler where processing a chunk leaves all
sinks flowing.  If the store fails after `n` writes and the chunk is processed again once it is
mended, all sinks flow unless just one write was taken and no other chunk of the sink was queued.
-/
theorem processingDone_again_flows {settings : Settings} {listening : Bool} {store : Scripted σ}
    (hmax : 0 < settings.maxEnqueued) (hworks : LawfulStore.works store)
    (hrows : LawfulStore.rows store = ∅)
    {s : Scheduler (.ofCount settings.partitions) (Scripted σ)}
    (hs : Reachable (fun s o => o.IsServing s) (start settings listening store) s)
    (now now' : Instant) (k : Key) (n : Nat) :
  (processingDone now k).Yields s.mended (fun _ s' => ∀ sink, s'.grid.Flows sink) ∧
    (processingDone now k).Ends (s.refusing n) (fun _ s' => ∀ sink, s'.grid.Flows sink)
      (fun _ s₁ => (processingDone now' k).Yields s₁.mended (fun _ s₂ =>
        (∀ sink, s₂.grid.Flows sink) ↔ (n = 1 → ∃ t, s.grid.find? k = some t ∧
          (s.grid.erase k).Has t.sink .queuedForProcessing)))
  := by
  obtain ⟨hworks, hcounted, hsettings, hflows⟩ := hs.flows hmax hworks hrows
  have hinner : LawfulStore.works s.board.store.inner := hworks.1
  have hmax : 0 < s.settings.maxEnqueued := by rwa [hsettings]
  constructor
  · apply processingDone_flows (s := s.mended) (works_mended hinner) _ hmax hflows
    exact ⟨hcounted.filed, hcounted.counts⟩
  · apply (processingDone_interrupted (s := s.refusing n) ⟨hcounted.filed, hcounted.counts⟩ hmax
      hflows now k (allows_refusing hinner n)).mono
    · exact fun _ _ => id
    -- Either nothing was done before, or the chunk is found moved and left alone.
    · rintro _ s₁ (⟨hn, hcounted₁, hsettings₁, hgrid₁, hinner₁⟩ | ⟨hnot, hrest⟩)
      · have hmax₁ : 0 < s₁.mended.settings.maxEnqueued := by
          change 0 < s₁.settings.maxEnqueued
          rwa [hsettings₁]
        have hflows₁ : ∀ sink, s₁.mended.grid.Flows sink := by
          change ∀ sink, s₁.grid.Flows sink
          rwa [hgrid₁]
        apply (processingDone_flows (works_mended hinner₁)
          ⟨hcounted₁.filed, hcounted₁.counts⟩ hmax₁ hflows₁ now' k).mono
        intro _ s₂ hflows₂
        apply iff_of_true hflows₂
        intro hone
        omega
      · apply (processingDone_idle (s := s₁.mended) hnot now').mono
        rintro _ _ ⟨-, rfl⟩
        change (∀ sink, s₁.grid.Flows sink) ↔ _
        obtain ⟨hn, hflows₁⟩ | ⟨hn, t, t', hprocessed, hready⟩ := hrest
        · apply iff_of_true hflows₁
          intro hone
          omega
        · rw [hprocessed.flows_iff hflows hready]
          constructor
          · exact fun hother _ => ⟨t, hprocessed.before, hother⟩
          · intro hother
            obtain ⟨u, hu, hother⟩ := hother hn
            obtain rfl := Option.some.inj (hprocessed.before.symm.trans hu)
            exact hother

/-- The queue of every sink has room for one chunk. -/
def narrow : Settings :=
  { Settings.standard with maxEnqueued := 1, directMark := 0 }

/-- Chunk 0 is queued, and chunk 1 is ready. -/
def crowded : Scheduler (.ofCount narrow.partitions) (Scripted Memory) :=
  (Operation.run (start narrow true (Scripted.of (Memory.ofList []))) [
    (default, .register (.sample 1 0 []) none), (default, .register (.sample 1 1 []) none)]).2

/-- With one write the place of chunk 0 is not handed over to chunk 1, and sink 1 does not flow. -/
theorem processingDone_again_flows_of_crowded :
  (processingDone default ⟨1, 0⟩).Yields crowded.mended (fun _ s' => s'.grid.Flows 1) ∧
    (processingDone default ⟨1, 0⟩).Ends (crowded.refusing 1) (fun _ _ => False)
      (fun _ s₁ => (processingDone default ⟨1, 0⟩).Yields s₁.mended (fun _ s₂ =>
        ¬ ∀ sink, s₂.grid.Flows sink))
  := by
  have hs : Reachable (fun s o => o.IsServing s)
      (start narrow true (Scripted.of (Memory.ofList []))) crowded :=
    Reachable.start.run ⟨trivial, trivial, trivial⟩
  have hworks : LawfulStore.works (Scripted.of (Memory.ofList [])) :=
    ⟨trivial, fun _ _ => rfl, fun _ _ => rfl⟩
  have hfiled : crowded.grid.WellFiled := (hs.tidy hworks rfl).1.filed
  have hfails : (processingDone default ⟨1, 0⟩).outcome (crowded.refusing 1)
      = .error .writeRefused := by decide +kernel
  have hsink : (crowded.grid.find? ⟨1, 0⟩).map Tracker.sink = some 1 := by decide +kernel
  have hnone : (crowded.grid.erase ⟨1, 0⟩).census 1 .queuedForProcessing = 0 := by decide +kernel
  generalize crowded = s at hs hfiled hfails hsink hnone ⊢
  obtain ⟨hsingle, hends⟩ :=
    processingDone_again_flows (by decide) hworks rfl hs default default ⟨1, 0⟩ 1
  constructor
  · apply hsingle.mono
    exact fun _ _ h => h 1
  · apply ((ends_of_outcome hfails).and hends).mono
    · exact fun _ _ => And.left
    · rintro _ s₁ ⟨-, hagain⟩
      apply hagain.mono
      intro _ s₂ hiff hflows
      obtain ⟨t, ht, hother⟩ := hiff.mp hflows rfl
      rw [ht] at hsink
      rw [Option.some.inj hsink, Grid.has_iff (hfiled.erase _), hnone] at hother
      exact absurd hother (Nat.lt_irrefl 0)

/-- Processed again, chunk 0 is found moved, and chunk 1 stays ready with nobody in the queue. -/
theorem processingDone_again_strands :
  let s₁ := (processingDone default ⟨1, 0⟩).stateAfter (crowded.refusing 1)
  let s₂ := (processingDone default ⟨1, 0⟩).stateAfter s₁.mended
  let single := (processingDone default ⟨1, 0⟩).stateAfter crowded.mended
  (processingDone default ⟨1, 0⟩).outcome (crowded.refusing 1) = .error .writeRefused ∧
    (processingDone default ⟨1, 0⟩).outcome s₁.mended = .ok false ∧
    s₂.grid.trackers.map Tracker.status = [.readyForDelivery, .readyForProcessing] ∧
    single.grid.trackers.map Tracker.status = [.readyForDelivery, .queuedForProcessing]
  := by
  decide +kernel

end Scheduler

end ChunkDispatch
