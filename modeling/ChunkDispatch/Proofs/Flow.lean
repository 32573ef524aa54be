import ChunkDispatch.Proofs.Counters
import ChunkDispatch.Proofs.Entry

/-!
# Sinks which flow

A sink *flows* if one of its chunks is queued for processing whenever one of them is ready: the
place which that chunk leaves in the queue is for those which are ready.  What happens to a key
*spares* a sink if no chunk of the sink gets ready by it and none leaves the queue, so that a sink
which is spared goes on flowing.  A new chunk is left ready only while others are queued, and a
completed chunk which was not queued spares every sink.
-/

namespace ChunkDispatch

open Attempt

/-! ### Flowing -/

/-- No chunk of the sink leaves the queue, and none gets ready. -/
structure Spares (sink : Int32) (old new : Option Tracker) : Prop where
  queued : old.any (Tracker.isOf sink .queuedForProcessing) = true →
    new.any (Tracker.isOf sink .queuedForProcessing) = true
  ready : new.any (Tracker.isOf sink .readyForProcessing) = true →
    old.any (Tracker.isOf sink .readyForProcessing) = true

instance (sink : Int32) : Std.Refl (Spares sink) where
  refl _ := ⟨id, id⟩

instance (sink : Int32) : IsTrans (Option Tracker) (Spares sink) where
  trans _ _ _ h h' := ⟨fun hold => h'.queued (h.queued hold), fun hnew => h.ready (h'.ready hnew)⟩

theorem Tracker.isOf_iff {sink : Int32} {status : Status} {t : Tracker} :
  t.isOf sink status = true ↔ t.sink = sink ∧ t.status = status
  := by
  rw [isOf, decide_eq_true_eq]

namespace Grid

variable {p : Partitioner} {g g' : Grid p} {sink : Int32} {status : Status}

/-- The key is that of a tracker of a sink in a status. -/
def IsOf (g : Grid p) (sink : Int32) (status : Status) (k : Key) : Prop :=
  (g.find? k).any (Tracker.isOf sink status) = true

theorem isOf_iff {k : Key} :
  g.IsOf sink status k ↔ ∃ t, g.find? k = some t ∧ t.sink = sink ∧ t.status = status
  := by
  simp only [IsOf, Option.any_eq_true, Tracker.isOf_iff]

/-- There is a tracker of a sink in a status. -/
def Has (g : Grid p) (sink : Int32) (status : Status) : Prop :=
  ∃ k, g.IsOf sink status k

/-- The census counts what there is. -/
theorem has_iff (hg : g.WellFiled) :
  g.Has sink status ↔ 0 < g.census sink status
  := by
  simp only [census, List.countP_pos_iff, mem_trackers hg, Has, IsOf, Option.any_eq_true]
  constructor
  · rintro ⟨k, t, ht, hof⟩
    obtain rfl := hg.key ht
    exact ⟨t, ht, hof⟩
  · rintro ⟨t, ht, hof⟩
    exact ⟨t.key, t, ht, hof⟩

/-- If a chunk of the sink is ready, another one is queued for processing. -/
def Flows (g : Grid p) (sink : Int32) : Prop :=
  g.Has sink .readyForProcessing → g.Has sink .queuedForProcessing

/-- A sink which is spared goes on flowing. -/
theorem Flows.spares (hg : g.Flows sink) (h : ∀ k, Spares sink (g.find? k) (g'.find? k)) :
  g'.Flows sink
  := by
  rintro ⟨k, hready⟩
  obtain ⟨k', hqueued⟩ := hg ⟨k, (h k).ready hready⟩
  exact ⟨k', (h k').queued hqueued⟩

end Grid

/-! ### Changes which spare a sink -/

section Changes

variable {sink : Int32} (now : Instant)

/-- A change spares the sinks if it keeps those queued and makes nobody ready. -/
theorem spares_amend {α : Type} {f : Tracker → α × Tracker} {t : Tracker}
    (hlane : (f t).2.lane = t.lane)
    (hqueued : t.status = .queuedForProcessing → (f t).2.status = .queuedForProcessing)
    (hready : (f t).2.status = .readyForProcessing → t.status = .readyForProcessing) :
  Spares sink (some t) (some (Board.amend now f t))
  := by
  have hsink : (Board.amend now f t).sink = t.sink :=
    congrArg Lane.sink ((Board.amend_lane now f t).trans hlane)
  constructor
  · simp only [Option.any_some, Tracker.isOf_iff, Board.amend_status, hsink]
    exact fun h => ⟨h.1, hqueued h.2⟩
  · simp only [Option.any_some, Tracker.isOf_iff, Board.amend_status, hsink]
    exact fun h => ⟨h.1, hready h.2⟩

theorem spares_release (j : Key) (t : Tracker) :
  Spares sink (some t) (some (Board.amend now (Change.Release.apply ⟨j⟩) t))
  := by
  apply spares_amend now (Change.Release.eases ⟨j⟩ t).lane
  · obtain ⟨-, -, hqueued⟩ | ⟨-, hsame⟩ := Change.Release.apply_status ⟨j⟩ t
    · exact fun _ => hqueued
    · rw [hsame]
      exact id
  · obtain ⟨-, -, hqueued⟩ | ⟨-, hsame⟩ := Change.Release.apply_status ⟨j⟩ t
    · intro hready
      cases hqueued.symm.trans hready
    · rw [hsame]
      exact id

theorem spares_move {source target : Status} (hsource : source ≠ .blocked)
    (htarget : target ≠ .blocked) (hqueued : source ≠ .queuedForProcessing)
    (hready : target ≠ .readyForProcessing) (t : Tracker) :
  Spares sink (some t) (some (Board.amend now (Change.Move.apply ⟨source, target⟩) t))
  := by
  apply spares_amend now (Change.Move.trims hsource htarget t).lane
  · obtain ⟨heq, -⟩ | ⟨-, hstatus, -, -⟩ := Change.Move.apply_status ⟨source, target⟩ t
    · rw [heq]
      exact id
    · exact fun h => absurd (hstatus.symm.trans h) hqueued
  · obtain ⟨heq, -⟩ | ⟨-, -, -, hstatus⟩ := Change.Move.apply_status ⟨source, target⟩ t
    · rw [heq]
      exact id
    · exact fun h => absurd (hstatus.symm.trans h) hready

theorem spares_raise (priority : Int32) (t : Tracker) :
  Spares sink (some t) (some (Board.amend now (Change.Raise.apply ⟨priority⟩) t))
  := by
  apply spares_amend now (Change.Raise.steady ⟨priority⟩ t).lane
  · rw [Change.Raise.apply_status]
    exact id
  · rw [Change.Raise.apply_status]
    exact id

/-- A completed chunk spares the sinks where it comes and goes. -/
theorem spares_of_completed {old new : Option Tracker}
    (hold : ¬ old.any (Tracker.isOf sink .queuedForProcessing) = true)
    (hnew : new.any Tracker.isLive = false) :
  Spares sink old new
  := by
  use fun hqueued => absurd hqueued hold
  intro hready
  cases new with
  | none => cases hready
  | some t =>
    obtain ⟨-, hstatus⟩ := Tracker.isOf_iff.mp hready
    simp [Tracker.isLive, Status.isLive, hstatus] at hnew

end Changes

variable {p : Partitioner} {σ : Type}

/-! ### New chunks -/

/-- A queue which after all is in bulk mode has chunks in it. -/
theorem Queue.enqueued_pos {max : Nat} (hmax : 0 < max) (mark : Nat) (now : Instant) {q : Queue}
    (hbulk : (q.updateMode max mark now).2.admitsDirectly = false) :
  0 < q.enqueued
  := by
  have hmode : q.dueMode max mark now = .bulk := by
    simpa [updateMode, admitsDirectly] using hbulk
  rw [dueMode] at hmode
  split at hmode <;> split at hmode <;> first | omega | cases hmode | skip
  split at hmode <;> cases hmode

/-- The queue of a sink whose mode is updated is the queue with its mode updated. -/
theorem Book.get_updateMode (max mark : Nat) (now now' : Instant) (sink : Int32) (phase : Phase)
    (b : Book) :
  ((b.updateMode max mark now sink phase).2.get now' sink).queue phase
    = (((b.get now sink).queue phase).updateMode max mark now).2
  := by
  rw [updateMode]
  simp only [get, put, SortedMap.find?_insert, if_pos]
  cases phase <;> rfl

namespace Scheduler

variable {s : Scheduler p σ} {sink : Int32} {now : Instant}

/-- The book knows how many chunks are in the queue. -/
theorem Counted.enqueued (hs : s.Counted) (now : Instant) (sink : Int32) :
  (s.book.get now sink).processing.enqueued = s.grid.census sink .queuedForProcessing
  := (s.book.count_get now sink .queuedForProcessing).trans (hs.counts rfl sink)

theorem Counted.ready (hs : s.Counted) (now : Instant) (sink : Int32) :
  (s.book.get now sink).processing.ready = s.grid.census sink .readyForProcessing
  := (s.book.count_get now sink .readyForProcessing).trans (hs.counts rfl sink)

/-- Chunks may not enter the queue at once only while there are some in it. -/
theorem Counted.has_queued (hs : s.Counted) (hmax : 0 < s.settings.maxEnqueued) (now : Instant)
    (hnot : (s.admitsDirectly now sink).1 = false) :
  s.grid.Has sink .queuedForProcessing
  := by
  have hget := s.book.get_updateMode s.settings.maxEnqueued s.settings.directMark now now sink
    .processing
  rw [Grid.has_iff hs.filed, ← hs.enqueued now]
  apply Queue.enqueued_pos hmax s.settings.directMark now
  rw [← hnot]
  apply congrArg Queue.admitsDirectly hget.symm

/-- A new chunk is left ready only while others are queued. -/
theorem planNew_ready (hs : s.Counted) (hmax : 0 < s.settings.maxEnqueued) (now : Instant)
    (c : Chunk) (barrier : Option String)
    (hready : (s.planNew now c barrier).1.status = .readyForProcessing) :
  s.grid.Has (s.planNew now c barrier).1.sink .queuedForProcessing
  := by
  rw [planNew] at hready ⊢
  simp only [] at hready ⊢
  split at hready
  · rename_i hempty
    rw [if_pos hempty]
    apply hs.has_queued hmax now
    cases hdirect : (s.admitsDirectly now ((barrier.elim c
      (fun b => c.withMatchKey b)).track now).sink).1 with
    | false => rfl
    | true =>
      simp only [hdirect, if_true] at hready
      cases hready
  · cases hready

/-! ### What spares a sink altogether -/

variable [Store σ] [LawfulStore σ]

/-- What commits only what spares the sinks spares them altogether. -/
theorem spares_of_commitsOnly {α : Type} {F : Prop} {x : Attempt (Scheduler p σ) α}
    (hx : ∀ sink, CommitsOnly (Spares sink) F x) (hs : s.grid.WellFiled) :
  x.Ends s (fun _ s' => ∀ sink k, Spares sink (s.grid.find? k) (s'.grid.find? k))
    (fun _ s' => ∀ sink k, Spares sink (s.grid.find? k) (s'.grid.find? k))
  := by
  apply ends_forall
  intro sink
  apply (hx sink s).mono
  · exact fun _ _ h => (h hs).rel
  · exact fun _ _ h => (h hs).1.rel

theorem register_flows (hworks : LawfulStore.works s.board.store) (hs : s.Counted)
    (hmax : 0 < s.settings.maxEnqueued) (hflows : s.grid.Flows sink) (now : Instant) (c : Chunk)
    (barrier : Option String) :
  (register now c barrier).Yields s (fun _ s' => s'.grid.Flows sink)
  := by
  cases hlive : s.grid.isLive c.key with
  | true =>
    obtain ⟨t, ht, hlive⟩ := Grid.isLive_iff.mp hlive
    have hx : ∀ sink, CommitsOnly (Spares sink) False
        (carryOut now (.renew t (s.goneFrom t)) : Attempt (Scheduler p σ) Tracker) :=
      fun _ => commitsOnly_renew t _ (spares_release now)
    rw [register, Yields, ends_bind, ends_modifyGet, plan_of_live ht hlive]
    apply ((spares_of_commitsOnly hx hs.filed).and (hx sink s)).mono
    · exact fun _ _ h => hflows.spares (h.1 sink)
    · exact fun _ _ h => (h.2 hs.filed).2 hworks
  | false =>
    obtain ⟨book, hplan⟩ := exists_planNew_eq s now c barrier
    apply (register_ends_planned hs.filed now barrier hlive).mono
    · rintro _ s' ⟨rfl, b, hputs, rfl⟩
      rw [hplan] at hputs
      have henrols := planNew_enrols s now c barrier
      have hready := planNew_ready hs hmax now c barrier
      generalize (s.planNew now c barrier).1 = t at *
      have hkey : t.key = c.key := by rw [henrols.key, newcomer_key]
      -- What was there under the key was neither queued nor ready, for it was not live.
      have hother : ∀ {k status}, status.isLive = true → s.grid.IsOf sink status k → k ≠ t.key := by
        rintro k status hstatus hof rfl
        obtain ⟨u, hu, -, rfl⟩ := Grid.isOf_iff.mp hof
        rw [hkey] at hu
        cases hlive.symm.trans (Grid.isLive_iff.mpr ⟨u, hu, hstatus⟩)
      have hend : ∀ s' : Scheduler p σ, s'.board = b → s'.grid.Flows sink := by
        rintro s' rfl ⟨k, hk⟩
        have hfind : ∀ j, s'.grid.find? j = if j = t.key then some t else s.grid.find? j := by
          intro j
          rw [← Grid.find?_insert]
          exact congrArg (fun g : Grid p => g.find? j) hputs.grid
        have hqueued : s.grid.Has sink .queuedForProcessing := by
          rw [Grid.IsOf, hfind] at hk
          split at hk
          · obtain ⟨rfl, hstatus⟩ := Tracker.isOf_iff.mp hk
            apply hready hstatus
          · apply hflows ⟨k, hk⟩
        obtain ⟨j, hj⟩ := hqueued
        use j
        rw [Grid.IsOf, hfind, if_neg (hother rfl hj)]
        exact hj
      split
      · apply hend _ (send_board _ _)
      · apply hend _ rfl
    · exact fun _ _ hnot => hnot hworks

/-! ### Completed chunks -/

/-- A completed chunk which was not queued spares every sink. -/
theorem complete_spares (hs : s.grid.WellFiled) (now : Instant) {k : Key}
    (hk : isQueued (s.grid.find? k) = false) :
  (complete now k).Ends s (fun _ s' => ∀ j, Spares sink (s.grid.find? j) (s'.grid.find? j))
    (fun _ _ => ¬ LawfulStore.works s.board.store)
  := by
  have hnot : ¬ (s.grid.find? k).any (Tracker.isOf sink .queuedForProcessing) = true := by
    intro hof
    obtain ⟨t, ht, -, hstatus⟩ := Grid.isOf_iff.mp hof
    simp [isQueued, ht, hstatus] at hk
  apply (complete_ends hs now k).mono
  · rintro released s' ⟨-, -, -, hfind⟩ j
    rw [hfind]
    split
    · rename_i hj
      rw [hj]
      apply spares_of_completed hnot
      cases hretired : retired s.settings.retention now (s.grid.find? k) with
      | none => rfl
      | some t =>
        obtain ⟨-, -, -, hlive, -⟩ := of_retired_eq_some hretired
        exact hlive
    · cases s.grid.find? j with
      | none => apply Std.Refl.refl
      | some t =>
        rw [Option.map_some, releaseFrom]
        split
        · apply spares_release
        · apply Std.Refl.refl
  · exact fun _ _ => id

end Scheduler

end ChunkDispatch
