import ChunkDispatch.Proofs.Handover

/-!
# Room in the queues

What is done *fills* a status of a sink with `n` chunks if no more than `n` trackers of the sink
come into that status, and none come into any other of any sink.  A chunk which is moved fills its
target with one, so filling a queue up fills it with no more than there is room for.  A new chunk
enters at once only into a queue which is not full, as the mark at which a queue is left to direct
mode again lies below the limit.  So no queue gets longer than the limit by what is *admitted* to
it, unless it was longer already.
-/

namespace ChunkDispatch

open Attempt

variable {p : Partitioner} {σ : Type}

/-! ### Filling -/

namespace Grid

variable {g g' g'' : Grid p} {sink : Int32} {status : Status}

/-- The census changes just by what happens to the one key at which two grids differ. -/
theorem census_of_others (hg : g.WellFiled) (hg' : g'.WellFiled) {k : Key}
    (h : ∀ j, j ≠ k → g'.find? j = g.find? j) (sink : Int32) (status : Status) :
  g'.census sink status + ((g.find? k).any (Tracker.isOf sink status)).toNat
    = g.census sink status + ((g'.find? k).any (Tracker.isOf sink status)).toNat
  := by
  have hsame : g'.erase k = g.erase k := by
    apply (hg'.erase k).ext (hg.erase k)
    intro j
    rw [find?_erase, find?_erase]
    split
    · rfl
    · rename_i hj
      apply h j hj
  rw [census_erase hg k, census_erase hg' k, hsame]
  omega

/--
No more than `n` trackers come to those of the sink in the status, none to any others, and no
tracker goes to another sink.
-/
structure Fills (sink : Int32) (status : Status) (n : Nat) (g g' : Grid p) : Prop where
  filed : g'.WellFiled
  sinks : ∀ k, (g'.find? k).map Tracker.sink = (g.find? k).map Tracker.sink
  census : ∀ sink' status', g'.census sink' status'
    ≤ g.census sink' status' + if sink' = sink ∧ status' = status then n else 0

theorem Fills.refl (hg : g.WellFiled) (n : Nat) :
  Fills sink status n g g
  := ⟨hg, fun _ => rfl, fun _ _ => Nat.le_add_right _ _⟩

theorem Fills.trans {m n : Nat} (h : Fills sink status m g g') (h' : Fills sink status n g' g'') :
  Fills sink status (m + n) g g''
  := by
  use h'.filed
  · intro k
    rw [h'.sinks, h.sinks]
  · intro sink' status'
    have hle := h.census sink' status'
    have hle' := h'.census sink' status'
    split at hle
    · rename_i hsame
      rw [if_pos hsame] at hle' ⊢
      omega
    · rename_i hother
      rw [if_neg hother] at hle' ⊢
      omega

end Grid

/-- A tracker which is moved comes to those of its sink in the target, and to no others. -/
theorem isOf_amend_move_le {source target : Status} (hsource : source ≠ .blocked)
    (htarget : target ≠ .blocked) (now : Instant) (t : Tracker) (sink : Int32)
    (status : Status) :
  ((Board.amend now (Change.Move.apply ⟨source, target⟩) t).isOf sink status).toNat
    ≤ (t.isOf sink status).toNat + if sink = t.sink ∧ status = target then 1 else 0
  := by
  cases hof : (Board.amend now (Change.Move.apply ⟨source, target⟩) t).isOf sink status with
  | false => apply Nat.zero_le
  | true =>
    obtain ⟨hsink, hstatus⟩ := Tracker.isOf_iff.mp hof
    have hsame := congrArg Lane.sink ((Board.amend_lane now _ t).trans
      (Change.Move.trims (c := ⟨source, target⟩) hsource htarget t).lane)
    rw [Board.amend_status] at hstatus
    obtain ⟨heq, -⟩ | ⟨-, -, -, hmoved⟩ := Change.Move.apply_status ⟨source, target⟩ t
    · rw [heq] at hstatus
      rw [Tracker.isOf_iff.mpr ⟨hsame.symm.trans hsink, hstatus⟩]
      apply Nat.le_add_right
    · rw [if_pos ⟨hsink.symm.trans hsame, hstatus.symm.trans hmoved⟩]
      apply Nat.le_add_left

namespace Scheduler

variable [Store σ] [LawfulStore σ] {s : Scheduler p σ} {sink : Int32} {source target : Status}

/-- A chunk which is moved fills its target with one. -/
theorem transition_fills (hs : s.grid.WellFiled) (now : Instant) {k : Key}
    (hk : (s.grid.find? k).all (fun t => t.sink = sink) = true) (hsource : source ≠ .blocked)
    (htarget : target ≠ .blocked) :
  (transition now k source target).Ends s
    (fun _ s' => Grid.Fills sink target 1 s.grid s'.grid)
    (fun _ s' => Grid.Fills sink target 1 s.grid s'.grid)
  := by
  apply ((transition_ends hs now k hsource htarget).and
    (transition_filed hs now k source target)).mono
  · rintro _ s' ⟨⟨-, hfind⟩, hs'⟩
    have hothers : ∀ j, j ≠ k → s'.grid.find? j = s.grid.find? j := by
      intro j hj
      rw [hfind, if_neg hj]
    have hmoved : s'.grid.find? k
        = (s.grid.find? k).map (Board.amend now (Change.Move.apply ⟨source, target⟩)) := by
      rw [hfind, if_pos rfl]
    use hs'
    · intro j
      by_cases hj : j = k
      · rw [hj, hmoved, Option.map_map]
        congr 1
        funext t
        exact congrArg Lane.sink
          ((Board.amend_lane now _ t).trans (Change.Move.trims hsource htarget t).lane)
      · rw [hothers j hj]
    · intro sink' status'
      have hcensus := Grid.census_of_others hs hs' hothers sink' status'
      rw [hmoved] at hcensus
      cases ht : s.grid.find? k with
      | none =>
        rw [ht] at hcensus
        change _ + 0 = _ + 0 at hcensus
        omega
      | some t =>
        have hle := isOf_amend_move_le hsource htarget now t sink' status'
        rw [ht] at hcensus hk
        obtain rfl : t.sink = sink := of_decide_eq_true hk
        rw [Option.any_some, Option.map_some, Option.any_some] at hcensus
        omega
  · rintro _ s' ⟨hrefused, -⟩
    have hgrid : s'.grid = s.grid := hrefused.grid
    rw [hgrid]
    apply Grid.Fills.refl hs

/-- Chunks of the sink which are moved fill their target with no more than there are of them. -/
theorem transitionAll_fills (hs : s.grid.WellFiled) (now : Instant) {ks : List Key}
    (hks : ∀ k ∈ ks, (s.grid.find? k).all (fun t => t.sink = sink) = true)
    (hsource : source ≠ .blocked) (htarget : target ≠ .blocked) :
  (transitionAll now source target ks).Ends s
    (fun _ s' => Grid.Fills sink target ks.length s.grid s'.grid)
    (fun _ s' => Grid.Fills sink target ks.length s.grid s'.grid)
  := by
  induction ks generalizing s with
  | nil => apply Grid.Fills.refl hs
  | cons k rest ih =>
    rw [transitionAll, ends_bind, List.length_cons, Nat.add_comm]
    apply (transition_fills hs now (hks k List.mem_cons_self) hsource htarget).mono
    · intro moved s₁ h
      have hrest : ∀ j ∈ rest, (s₁.grid.find? j).all (fun t => t.sink = sink) = true := by
        intro j hj
        have hall := hks j (List.mem_cons_of_mem k hj)
        have hsink := h.sinks j
        cases hu : s₁.grid.find? j with
        | none => rfl
        | some u =>
          rw [hu] at hsink
          obtain ⟨t, ht, hsink⟩ := Option.map_eq_some_iff.mp hsink.symm
          rw [ht] at hall
          rw [Option.all_some, ← hsink]
          exact hall
      rw [ends_bind]
      apply (ih h.filed hrest).mono
      · exact fun _ _ h' => h.trans h'
      · exact fun _ _ h' => h.trans h'
    · intro _ s₁ h
      apply h.trans (Grid.Fills.refl h.filed rest.length)

end Scheduler

/-! ### Queues within the limit -/

namespace Grid

variable {g g' g'' : Grid p} {limit : Nat}

/-- No queue is longer than the limit, unless it was as long before. -/
def Admits (limit : Nat) (g g' : Grid p) : Prop :=
  ∀ sink (phase : Phase), g'.census sink phase.queued ≤ max limit (g.census sink phase.queued)

theorem Admits.refl (limit : Nat) (g : Grid p) :
  g.Admits limit g
  := fun _ _ => Nat.le_max_right _ _

theorem Admits.trans (h : g.Admits limit g') (h' : g'.Admits limit g'') :
  g.Admits limit g''
  := by
  intro sink phase
  have hle := h sink phase
  have hle' := h' sink phase
  omega

/-- A queue may be filled with as many as there is room for. -/
theorem Fills.admits {sink : Int32} {phase : Phase} {n : Nat}
    (h : Fills sink phase.queued n g g') (hn : n ≤ limit - g.census sink phase.queued) :
  g.Admits limit g'
  := by
  intro sink' phase'
  have hle := h.census sink' phase'.queued
  split at hle
  · rename_i hsame
    obtain ⟨rfl, hstatus⟩ := hsame
    rw [hstatus] at hle ⊢
    omega
  · omega

/-- What is not in a queue may be filled with any number. -/
theorem Fills.admits_of_ne {sink : Int32} {status : Status} {n : Nat}
    (h : Fills sink status n g g') (hstatus : ∀ phase : Phase, phase.queued ≠ status) :
  g.Admits limit g'
  := by
  intro sink' phase
  have hle := h.census sink' phase.queued
  rw [if_neg (fun hsame => hstatus phase hsame.2)] at hle
  omega

end Grid

/-- A queue which admits chunks at once is not full, if the mark lies below the limit. -/
theorem Queue.enqueued_lt {max mark : Nat} (hmark : mark < max) (now : Instant) {q : Queue}
    (hdirect : (q.updateMode max mark now).2.admitsDirectly = true) :
  q.enqueued < max
  := by
  have hmode : q.dueMode max mark now ≠ .bulk := by
    simpa [updateMode, admitsDirectly] using hdirect
  rw [dueMode] at hmode
  split at hmode <;> split at hmode <;> first | omega | exact absurd rfl hmode

namespace Scheduler

variable {s : Scheduler p σ}

/-- The book knows how many chunks are in the queue of either phase. -/
theorem Counted.enqueued_queue (hs : s.Counted) (now : Instant) (sink : Int32) (phase : Phase) :
  ((s.book.get now sink).queue phase).enqueued = s.grid.census sink phase.queued
  := by
  cases phase with
  | processing => apply hs.enqueued
  | delivering => apply (s.book.count_get now sink .queuedForDelivery).trans (hs.counts rfl sink)

/-- Chunks may enter the queue at once only while there is room in it. -/
theorem Counted.has_room (hs : s.Counted)
    (hmark : s.settings.directMark < s.settings.maxEnqueued) (now : Instant) {sink : Int32}
    (hdirect : (s.admitsDirectly now sink).1 = true) :
  s.grid.census sink .queuedForProcessing < s.settings.maxEnqueued
  := by
  have hget := s.book.get_updateMode s.settings.maxEnqueued s.settings.directMark now now sink
    .processing
  rw [← hs.enqueued now]
  apply Queue.enqueued_lt hmark now
  rw [← hdirect]
  apply congrArg Queue.admitsDirectly hget.symm

/-- A new chunk is queued only where there is room. -/
theorem planNew_queued (hs : s.Counted) (hmark : s.settings.directMark < s.settings.maxEnqueued)
    (now : Instant) (c : Chunk) (barrier : Option String) {sink : Int32} {phase : Phase}
    (hqueued : (s.planNew now c barrier).1.isOf sink phase.queued = true) :
  s.grid.census sink phase.queued < s.settings.maxEnqueued
  := by
  obtain ⟨hsink, hstatus⟩ := Tracker.isOf_iff.mp hqueued
  rw [planNew] at hsink hstatus
  simp only [] at hsink hstatus
  split at hstatus
  · rename_i hempty
    rw [if_pos hempty] at hsink
    cases hdirect : (s.admitsDirectly now ((barrier.elim c
      (fun b => c.withMatchKey b)).track now).sink).1 with
    | true =>
      simp only [hdirect, if_true] at hsink hstatus
      rw [← hstatus, ← hsink]
      apply hs.has_room hmark now hdirect
    | false =>
      simp only [hdirect, Bool.false_eq_true, if_false] at hstatus
      cases phase <;> cases hstatus
  · cases phase <;> cases hstatus

variable [Store σ] [LawfulStore σ]

/-- No queue gets longer than the limit by a chunk which is new. -/
theorem register_admits (hs : s.Counted)
    (hmark : s.settings.directMark < s.settings.maxEnqueued) (now : Instant) {c : Chunk}
    (barrier : Option String) (hnew : s.grid.isLive c.key = false) :
  (register now c barrier).Ends s
    (fun _ s' => s.grid.Admits s.settings.maxEnqueued s'.grid)
    (fun _ _ => ¬ LawfulStore.works s.board.store)
  := by
  obtain ⟨book, hplan⟩ := exists_planNew_eq s now c barrier
  apply (register_ends_planned hs.filed now barrier hnew).mono
  · rintro _ s' ⟨rfl, b, hputs, rfl⟩
    have hroom : ∀ sink (phase : Phase),
        (s.planNew now c barrier).1.isOf sink phase.queued = true →
          s.grid.census sink phase.queued < s.settings.maxEnqueued :=
      fun _ _ => planNew_queued hs hmark now c barrier
    rw [hplan] at hputs
    generalize (s.planNew now c barrier).1 = t at hputs hroom ⊢
    have hadmits : ∀ s' : Scheduler p σ, s'.board = b →
        s.grid.Admits s.settings.maxEnqueued s'.grid := by
      rintro s' rfl sink phase
      have hgrid : s'.grid = s.grid.insert t := hputs.grid
      have hinsert : (s.grid.insert t).census sink phase.queued
          = (s.grid.erase t.key).census sink phase.queued + (t.isOf sink phase.queued).toNat :=
        Grid.census_insert hs.filed t
      have herase : s.grid.census sink phase.queued
          = (s.grid.erase t.key).census sink phase.queued
            + ((s.grid.find? t.key).any (Tracker.isOf sink phase.queued)).toNat :=
        Grid.census_erase hs.filed t.key
      rw [hgrid]
      cases hqueued : t.isOf sink phase.queued with
      | true =>
        have hlt := hroom sink phase hqueued
        rw [hqueued, Bool.toNat_true] at hinsert
        omega
      | false =>
        rw [hqueued, Bool.toNat_false] at hinsert
        omega
    split
    · apply hadmits _ (send_board _ _)
    · apply hadmits _ rfl
  · exact fun _ _ => id

/-- A queue which is filled up is not longer than the limit then. -/
theorem bulkSchedule_admits (hs : s.Counted) (now : Instant) (sink : Int32) (phase : Phase) :
  (bulkSchedule now sink phase).Ends s
    (fun _ s' => s.grid.Admits s.settings.maxEnqueued s'.grid)
    (fun _ s' => s.grid.Admits s.settings.maxEnqueued s'.grid)
  := by
  rw [bulkSchedule, ends_bind, ends_get]
  simp only []
  rw [hs.enqueued_queue]
  split
  · apply Grid.Admits.refl
  · have hroom : (s.find phase.ready (some sink)
        (some (s.settings.maxEnqueued - s.grid.census sink phase.queued))).length
        ≤ s.settings.maxEnqueued - s.grid.census sink phase.queued := by
      rw [find, List.length_map]
      apply List.length_take_le
    have hfound : ∀ k ∈ s.find phase.ready (some sink)
        (some (s.settings.maxEnqueued - s.grid.census sink phase.queued)),
        (s.grid.find? k).all (fun t => t.sink = sink) = true := by
      intro k hk
      obtain ⟨t, ht, hsink, -⟩ := Grid.isOf_iff.mp (isOf_of_mem_find hs.filed hk)
      rw [ht]
      exact decide_eq_true hsink
    apply (transitionAll_fills hs.filed now hfound phase.ready_ne_blocked
      phase.queued_ne_blocked).mono
    · exact fun _ _ h => h.admits hroom
    · exact fun _ _ h => h.admits hroom

/-- No queue gets longer than the limit when the place of a processed chunk is filled. -/
theorem refill_admits (hs : s.Counted) (now : Instant) (k : Key) (moved : Bool) :
  (refill now k moved).Ends s
    (fun _ s' => s.grid.Admits s.settings.maxEnqueued s'.grid)
    (fun _ s' => s.grid.Admits s.settings.maxEnqueued s'.grid)
  := by
  rw [refill]
  split
  · rw [ends_bind, ends_get]
    cases s.find? k with
    | none => apply Grid.Admits.refl
    | some t =>
      have hcounted : (s.updateMode now t.sink .processing).2.Counted := by
        use hs.filed
        intro status hlive sink
        exact (Book.count_updateMode _ _ _ _ _).trans (hs.counts hlive sink)
      simp only []
      rw [ends_bind, ends_modifyGet, ends_bind, ends_get]
      split
      · rw [ends_bind]
        apply (bulkSchedule_admits hcounted now t.sink .processing).mono
        · exact fun _ _ => id
        · exact fun _ _ => id
      · apply Grid.Admits.refl
  · apply Grid.Admits.refl

/-- No queue gets longer than the limit when a chunk is processed. -/
theorem processingDone_admits (hs : s.Counted) (now : Instant) (k : Key) :
  (processingDone now k).Ends s
    (fun _ s' => s.grid.Admits s.settings.maxEnqueued s'.grid)
    (fun _ s' => s.grid.Admits s.settings.maxEnqueued s'.grid)
  := by
  have hfills : ∃ sink, (transition now k .queuedForProcessing .readyForDelivery).Ends s
      (fun _ s' => Grid.Fills sink .readyForDelivery 1 s.grid s'.grid)
      (fun _ s' => Grid.Fills sink .readyForDelivery 1 s.grid s'.grid) := by
    use ((s.grid.find? k).map Tracker.sink).getD 0
    apply transition_fills hs.filed now _ (by decide) (by decide)
    cases s.grid.find? k <;> simp
  have hdelivery : ∀ phase : Phase, phase.queued ≠ .readyForDelivery := by
    intro phase
    cases phase <;> decide
  obtain ⟨sink, hfills⟩ := hfills
  rw [processingDone_eq, ends_bind]
  apply (hfills.and (transition_processed hs now k)).mono
  · rintro moved s₁ ⟨hfills, hcounted, hsettings, -⟩
    have hrefill := refill_admits hcounted now k moved
    rw [hsettings] at hrefill
    apply hrefill.mono
    · exact fun _ _ h => (hfills.admits_of_ne hdelivery).trans h
    · exact fun _ _ h => (hfills.admits_of_ne hdelivery).trans h
  · rintro _ s₁ ⟨hfills, -⟩
    apply hfills.admits_of_ne hdelivery

end Scheduler

/-! ### What is admitted -/

/-- The operation lets chunks into the queues with a view to their length. -/
def Operation.IsAdmitting (s : Scheduler p σ) : Operation → Prop
  | register c _ => s.grid.isLive c.key = false
  | processingDone _ | bulkSchedule _ _ => True
  | _ => False

variable [Store σ] [LawfulStore σ]

/-- What is admitted on a working store keeps to the limit. -/
theorem Operation.perform_admits {s : Scheduler p σ} {o : Operation} (hs : s.Counted)
    (hworks : LawfulStore.works s.board.store)
    (hmark : s.settings.directMark < s.settings.maxEnqueued) (ho : o.IsAdmitting s)
    (now : Instant) :
  s.grid.Admits s.settings.maxEnqueued ((o.perform now).stateAfter s).grid
  := by
  cases o with
  | register c barrier =>
    rw [perform, stateAfter_bind_pure]
    apply Yields.stateAfter (P := fun s' : Scheduler p σ =>
      s.grid.Admits s.settings.maxEnqueued s'.grid)
    apply (Scheduler.register_admits hs hmark now barrier ho).mono
    · exact fun _ _ => id
    · exact fun _ _ hnot => hnot hworks
  | processingDone k =>
    rw [perform, stateAfter_bind_pure]
    apply Ends.stateAfter (P := fun s' : Scheduler p σ =>
      s.grid.Admits s.settings.maxEnqueued s'.grid)
    apply Scheduler.processingDone_admits hs
  | bulkSchedule sink phase =>
    rw [perform, stateAfter_bind_pure]
    apply Ends.stateAfter (P := fun s' : Scheduler p σ =>
      s.grid.Admits s.settings.maxEnqueued s'.grid)
    apply Scheduler.bulkSchedule_admits hs
  | _ => exact ho.elim

/-- A run of what is admitted on a working store keeps to the limit. -/
theorem Reachable.admits {s s' : Scheduler p σ} (hs : s.Counted)
    (hworks : LawfulStore.works s.board.store)
    (hmark : s.settings.directMark < s.settings.maxEnqueued)
    (hs' : Reachable (fun s o => o.IsAdmitting s) s s') :
  s.grid.Admits s.settings.maxEnqueued s'.grid
  := by
  suffices h : s'.Counted ∧ LawfulStore.works s'.board.store ∧ s'.settings = s.settings ∧
      s.grid.Admits s.settings.maxEnqueued s'.grid from h.2.2.2
  induction hs' with
  | start => exact ⟨hs, hworks, rfl, Grid.Admits.refl _ _⟩
  | @step s' now o _ ho ih =>
    obtain ⟨hcounted, hworks', hsettings, hadmits⟩ := ih
    have hload : o ≠ .load := by
      rintro rfl
      exact ho
    have hcommits : s'.board.Commits (Replaces now) ((o.perform now).stateAfter s').board := by
      apply Ends.stateAfter (P := fun s'' : Scheduler p σ =>
        s'.board.Commits (Replaces now) s''.board)
      apply (Operation.perform_commitsOnly now hload s').mono
      · exact fun _ _ h => h hcounted.filed
      · exact fun _ _ h => (h hcounted.filed).1
    refine ⟨(Operation.perform_counted hcounted now o).1, hcommits.works hworks', ?_, ?_⟩
    · rw [Operation.perform_settings, hsettings]
    · apply hadmits.trans
      rw [← hsettings] at hmark ⊢
      apply Operation.perform_admits hcounted hworks' hmark ho

/--
If the mark lies below the limit, then whatever operations were made before, and whatever the store
refused of them, what is admitted on a store which works again leaves no queue longer than the
limit which was not as long already.
-/
theorem queue_within_limit {settings : Settings} {listening : Bool} {store : σ}
    (hmark : settings.directMark < settings.maxEnqueued)
    {s : Scheduler (.ofCount settings.partitions) σ}
    (hs : Reachable (fun _ _ => True) (Scheduler.start settings listening store) s)
    (hworks : LawfulStore.works s.board.store) {o : Operation} (ho : o.IsAdmitting s)
    (now : Instant) (sink : Int32) (phase : Phase) :
  ((o.perform now).stateAfter s).grid.trackers.countP
      (fun t => t.sink = sink ∧ t.status = phase.queued)
    ≤ max settings.maxEnqueued
      (s.grid.trackers.countP (fun t => t.sink = sink ∧ t.status = phase.queued))
  := by
  have hsettings : s.settings = settings := hs.settings_eq
  have hadmits : s.grid.Admits s.settings.maxEnqueued ((o.perform now).stateAfter s).grid := by
    rw [← hsettings] at hmark
    apply Operation.perform_admits hs.counted hworks hmark ho
  rw [hsettings] at hadmits
  apply hadmits sink phase

/-- Two chunks are queued where there is room for one, and no third enters though it may at once. -/
theorem queue_within_limit_of_crowded :
  let s := (Operation.run Scheduler.crowded [
    (default, .transition ⟨1, 1⟩ .readyForProcessing .queuedForProcessing),
    (default, .forceMode 1 .processing .direct)]).2
  let o : Operation := .register (.sample 1 2 []) none
  s.grid.census 1 .queuedForProcessing = 2 ∧
    ((o.perform default).stateAfter s).grid.trackers.countP
      (fun t => t.sink = 1 ∧ t.status = .queuedForProcessing) ≤ 2
  := by
  intro s o
  have hs : Reachable (fun _ _ => True)
      (Scheduler.start Scheduler.narrow true (Scripted.of (Memory.ofList []))) s := by
    apply (Reachable.trans _ (Operation.reachable_run Scheduler.crowded _))
    apply Operation.reachable_run
  have hworks : LawfulStore.works s.board.store := ⟨trivial, fun _ _ => rfl, fun _ _ => rfl⟩
  have hcensus : s.grid.census 1 .queuedForProcessing = 2 := by decide +kernel
  have hnew : s.grid.isLive ⟨1, 2⟩ = false := by decide +kernel
  clear_value s
  use hcensus
  apply (queue_within_limit (by decide) hs hworks (o := o) hnew default 1 .processing).trans
  change max 1 (s.grid.census 1 .queuedForProcessing) ≤ 2
  rw [hcensus]
  decide

end ChunkDispatch
