import ChunkDispatch.Proofs.Flow

/-!
# Places which are filled

A *processed* chunk leaves its place in the queue, and its sink may stop to flow.  Then the most
urgent of its ready chunks are moved into the queue, as many as there is room for, which makes the
sink flow again.  An operation *serves* if it takes no chunk out of the queue but a processed one;
from an empty store such operations lead only to schedulers where all sinks flow.
-/

namespace ChunkDispatch

open Attempt

variable {p : Partitioner} {σ : Type}

namespace Scheduler

variable {s : Scheduler p σ} {sink : Int32} {now : Instant}

/-! ### The most urgent chunks -/

theorem insertByUrgency_perm (t : Tracker) (ts : List Tracker) :
  (insertByUrgency t ts).Perm (t :: ts)
  := by
  induction ts with
  | nil => apply List.Perm.refl
  | cons u rest ih =>
    rw [insertByUrgency]
    split
    · apply List.Perm.refl
    · apply (ih.cons u).trans
      apply List.Perm.swap

/-- Nobody is lost when trackers are put in order. -/
theorem byUrgency_perm (ts : List Tracker) :
  (byUrgency ts).Perm ts
  := by
  induction ts with
  | nil => apply List.Perm.refl
  | cons t rest ih => apply (insertByUrgency_perm t _).trans (ih.cons t)

theorem mem_found (hs : s.grid.WellFiled) {status : Status} {t : Tracker} :
  t ∈ byUrgency (s.grid.values (Query.ByStatus.holds ⟨some sink, status⟩))
    ↔ s.grid.find? t.key = some t ∧ t.isOf sink status = true
  := by
  rw [(byUrgency_perm _).mem_iff, Grid.mem_values hs, Tracker.isOf_iff, Query.ByStatus.holds]
  simp only [Option.all_some, decide_eq_true_eq]
  apply and_congr_right
  intro _
  rw [and_comm, eq_comm]

/-- Who is found is in the status asked for. -/
theorem isOf_of_mem_find (hs : s.grid.WellFiled) {status : Status} {limit : Nat} {k : Key}
    (hk : k ∈ s.find status (some sink) (some limit)) :
  s.grid.IsOf sink status k
  := by
  obtain ⟨t, ht, rfl⟩ := List.mem_map.mp hk
  obtain ⟨hfind, hof⟩ := (mem_found hs).mp (List.mem_of_mem_take ht)
  rw [Grid.IsOf, hfind]
  exact hof

/-- If there is somebody in the status, somebody is found. -/
theorem find_ne_nil (hs : s.grid.WellFiled) {status : Status} (h : s.grid.Has sink status)
    {limit : Nat} (hlimit : 0 < limit) :
  s.find status (some sink) (some limit) ≠ []
  := by
  obtain ⟨k, hk⟩ := h
  obtain ⟨t, ht, hof⟩ := (Option.any_eq_true _ _).mp hk
  obtain rfl := hs.key ht
  have hmem := (mem_found hs).mpr ⟨ht, hof⟩
  have hpos := List.length_pos_of_mem hmem
  apply List.ne_nil_of_length_pos
  rw [find, List.length_map]
  change 0 < (List.take limit _).length
  rw [List.length_take]
  omega

variable [Store σ] [LawfulStore σ]

/-! ### Processed chunks -/

/-- The move of a chunk touches its tracker alone; the result is whether it moved. -/
theorem transition_ends (hs : s.grid.WellFiled) (now : Instant) (k : Key) {source target : Status}
    (hsource : source ≠ .blocked) (htarget : target ≠ .blocked) :
  (transition now k source target).Ends s
    (fun moved s' =>
      moved = (s.grid.find? k).any (fun t => (Change.Move.apply ⟨source, target⟩ t).1) ∧
      ∀ j, s'.grid.find? j = if j = k
        then (s.grid.find? k).map (Board.amend now (Change.Move.apply ⟨source, target⟩))
        else s.grid.find? j)
    (fun _ s' => s.board.Refused s'.board)
  := by
  rw [transition, if_neg (not_or.mpr ⟨hsource, htarget⟩), ends_bind, ends_onBoard]
  apply (Board.adjust_ends s.board now k _).mono
  · rintro a b ⟨rfl, hputs⟩
    have hfind := Board.find?_changedAt (Change.Move.apply_key _) hs hputs
    have hmoved : (s.board.grid.find? k).any (fun t => (Change.Move.apply ⟨source, target⟩ t).1)
        = decide ((s.board.grid.find? k).map
          (fun t => (Change.Move.apply ⟨source, target⟩ t).1) = some true) := by
      cases s.board.grid.find? k with
      | none => rfl
      | some t => simp
    have hresult := hmoved.symm
    split
    · rename_i hyes
      rw [decide_eq_true hyes] at hresult
      split
      · rw [ends_bind, ends_modify, ends_pure]
        refine ⟨hresult, ?_⟩
        intro j
        rw [grid, send_board]
        apply hfind
      · exact ⟨hresult, hfind⟩
    · rename_i hno
      rw [decide_eq_false hno] at hresult
      exact ⟨hresult, hfind⟩
  · exact fun _ _ => id

theorem transition_filed (hs : s.grid.WellFiled) (now : Instant) (k : Key)
    (source target : Status) :
  (transition now k source target).Ends s (fun _ s' => s'.grid.WellFiled)
    (fun _ s' => s'.grid.WellFiled)
  := by
  have hcommits : CommitsOnly (fun _ _ => True) True
      (transition now k source target : Attempt (Scheduler p σ) Bool) := by
    apply commitsOnly_transition
    · exact fun _ => trivial
    · exact fun _ _ _ => trivial
  apply (hcommits s).mono
  · exact fun _ _ h => (h hs).filed hs
  · exact fun _ _ h => (h hs).1.filed hs

/-- Whom a move left in its target status. -/
theorem isOf_of_moved {g g' : Grid p} {k : Key} {source target : Status}
    (hsource : source ≠ .blocked) (htarget : target ≠ .blocked) (hne : source ≠ target)
    (hk : g.IsOf sink source k) (hfind : ∀ j, g'.find? j = if j = k
      then (g.find? k).map (Board.amend now (Change.Move.apply ⟨source, target⟩)) else g.find? j) :
  g'.IsOf sink target k
  := by
  obtain ⟨t, ht, hsink, hstatus⟩ := Grid.isOf_iff.mp hk
  apply Grid.isOf_iff.mpr
  refine ⟨Board.amend now (Change.Move.apply ⟨source, target⟩) t, ?_, ?_, ?_⟩
  · rw [hfind, if_pos rfl, ht, Option.map_some]
  · rw [← hsink]
    have hlane := (Board.amend_lane now (Change.Move.apply ⟨source, target⟩) t).trans
      (Change.Move.trims hsource htarget t).lane
    exact congrArg Lane.sink hlane
  · rw [Board.amend_status, Change.Move.apply, if_neg]
    simp [hstatus, hne]

/--
If there is room in the queue and a chunk is ready, filling it up leaves one queued, unless the
first move is refused, and then nothing is done.
-/
theorem bulkSchedule_ends {c : Prop} (hs : s.Counted) (hmax : 0 < s.settings.maxEnqueued)
    (hready : s.grid.Has sink .readyForProcessing)
    (hfirst : ∀ k, s.grid.IsOf sink .readyForProcessing k →
      (transition now k .readyForProcessing .queuedForProcessing).Ends s (fun _ _ => c)
        (fun _ _ => ¬ c)) :
  (bulkSchedule now sink .processing).Ends s
    (fun _ s' => s'.grid.Has sink .queuedForProcessing)
    (fun _ s' => (c → s'.grid.Has sink .queuedForProcessing) ∧ (¬ c → s'.grid = s.grid))
  := by
  have hmoves : ∀ sink k, CommitsOnly (Spares sink) True
      (transition now k .readyForProcessing .queuedForProcessing :
        Attempt (Scheduler p σ) Bool) := by
    intro sink k
    apply commitsOnly_transition
    · exact fun _ => trivial
    · exact fun hsource htarget => spares_move now hsource htarget (by decide) (by decide)
  rw [bulkSchedule, ends_bind, ends_get]
  simp only []
  split
  · rename_i hroom
    rw [ends_pure, Grid.has_iff hs.filed, ← hs.enqueued now]
    change s.settings.maxEnqueued - (s.book.get now sink).processing.enqueued = 0 at hroom
    omega
  · rename_i hroom
    change (transitionAll now .readyForProcessing .queuedForProcessing (s.find .readyForProcessing
      (some sink) (some _))).Ends s _ _
    have hsome := find_ne_nil hs.filed hready (Nat.pos_of_ne_zero hroom)
    have hfound : ∀ k ∈ s.find .readyForProcessing (some sink) (some (s.settings.maxEnqueued
        - ((s.book.get now sink).queue .processing).enqueued)),
        s.grid.IsOf sink .readyForProcessing k :=
      fun _ => isOf_of_mem_find hs.filed
    -- The chunks were found before the first of them was moved, so the list is fixed from here on.
    revert hsome hfound
    generalize s.find .readyForProcessing (some sink) (some _) = found
    intro hsome hfound
    cases found with
    | nil => exact absurd rfl hsome
    | cons k rest =>
      have hk := hfound k List.mem_cons_self
      rw [transitionAll, ends_bind]
      apply (((transition_ends hs.filed now k (by decide) (by decide)).and (hfirst k hk)).and
        (hmoves sink k s)).mono
      · rintro moved s₁ ⟨⟨⟨-, hfind⟩, hc⟩, hcommits⟩
        -- The first is queued, and stays so whatever comes of the moves after it.
        have hqueued := isOf_of_moved (by decide) (by decide) (by decide) hk hfind
        have hrest := spares_of_commitsOnly
          (fun sink => walks_transitionAll now (hmoves sink) rest)
          ((hcommits hs.filed).filed hs.filed)
        rw [ends_bind]
        apply hrest.mono
        · exact fun _ _ h => ⟨k, (h sink k).queued hqueued⟩
        · intro _ _ h
          exact ⟨fun _ => ⟨k, (h sink k).queued hqueued⟩, fun hnot => absurd hc hnot⟩
      · rintro _ s₁ ⟨⟨hrefused, hnot⟩, -⟩
        exact ⟨fun hc => absurd hc hnot, fun _ => hrefused.grid⟩

/-- The queued chunk `k` was processed and now waits for its delivery. -/
structure Processed (k : Key) (t t' : Tracker) (g g' : Grid p) : Prop where
  before : g.find? k = some t
  queued : t.status = .queuedForProcessing
  after : g'.find? k = some t'
  sink : t'.sink = t.sink
  waits : t'.status = .readyForDelivery
  others : ∀ j, j ≠ k → g'.find? j = g.find? j

/-- Of a processed chunk its sink may stop to flow, but no other. -/
theorem Processed.flows {k : Key} {t t' : Tracker} {g g' : Grid p} (h : Processed k t t' g g')
    (hflows : g.Flows sink) (hsink : sink ≠ t.sink) :
  g'.Flows sink
  := by
  apply hflows.spares
  intro j
  by_cases hj : j = k
  · rw [hj, h.before, h.after]
    constructor
    · exact fun hof => absurd (Tracker.isOf_iff.mp hof).1.symm hsink
    · exact fun hof => absurd ((Tracker.isOf_iff.mp hof).1.symm.trans h.sink) hsink
  · rw [h.others j hj]
    apply Std.Refl.refl

omit [LawfulStore σ] in
/-- A chunk which is not queued is not processed, and nothing is done. -/
theorem processingDone_idle {k : Key} (hk : isQueued (s.grid.find? k) = false) (now : Instant) :
  (processingDone now k).Yields s (fun moved s' => moved = false ∧ s' = s)
  := by
  have hidle : (transition now k .queuedForProcessing .readyForDelivery).Yields s
      (fun moved s' => moved = false ∧ s' = s) := by
    rw [transition, if_neg (by decide), Yields, ends_bind, ends_onBoard, Board.adjust, ends_bind,
      ends_get]
    cases ht : s.board.grid.find? k with
    | none => exact ⟨rfl, rfl⟩
    | some t =>
      have hstatus : t.status ≠ .queuedForProcessing := by
        intro hqueued
        rw [grid, ht] at hk
        simp [isQueued, hqueued] at hk
      simp only [Change.Move.apply, if_pos (Or.inl hstatus), Board.changed?, if_pos]
      exact ⟨rfl, rfl⟩
  rw [processingDone_eq, Yields, ends_bind]
  apply hidle.ends
  rintro _ _ ⟨rfl, rfl⟩
  exact ⟨rfl, rfl⟩

/-- If the chunk is moved, it was processed. -/
theorem transition_processed (hs : s.Counted) (now : Instant) (k : Key) :
  (transition now k .queuedForProcessing .readyForDelivery).Ends s
    (fun moved s' => s'.Counted ∧ s'.settings = s.settings ∧
      (moved = false → s'.grid = s.grid) ∧
      (moved = true → ∃ t t', Processed k t t' s.grid s'.grid))
    (fun _ s' => s'.Counted ∧ s'.settings = s.settings ∧ s.board.Refused s'.board)
  := by
  have hafter := Operation.perform_counted hs now
    (.transition k .queuedForProcessing .readyForDelivery)
  rw [Operation.perform, stateAfter_bind_pure] at hafter
  have hsettings := (steps_sameSettings (p := p) (σ := σ) now).walks_transition k
    .queuedForProcessing .readyForDelivery s
  apply (((transition_ends hs.filed now k (by decide) (by decide)).and
    (ends_of_stateAfter (P := Counted) hafter.1)).and hsettings).mono
  · rintro moved s' ⟨⟨⟨rfl, hfind⟩, hcounted⟩, hsettings⟩
    refine ⟨hcounted, hsettings, ?_, ?_⟩
    · intro hnot
      apply hcounted.filed.ext hs.filed
      intro j
      rw [hfind]
      split
      · rename_i hj
        rw [hj]
        cases ht : s.grid.find? k with
        | none => rfl
        | some t =>
          rw [ht, Option.any_some] at hnot
          rw [Option.map_some, Board.amend_eq_of_unchanged]
          obtain ⟨heq, -⟩ | ⟨hyes, -⟩ := Change.Move.apply_status
            ⟨.queuedForProcessing, .readyForDelivery⟩ t
          · rw [heq, Board.changed?, if_pos rfl]
          · cases hnot.symm.trans hyes
      · rfl
    · intro hmoved
      obtain ⟨t, ht, hyes⟩ := (Option.any_eq_true _ _).mp hmoved
      obtain ⟨heq, -⟩ | ⟨-, hqueued, -, hwaits⟩ := Change.Move.apply_status
        ⟨.queuedForProcessing, .readyForDelivery⟩ t
      · rw [heq] at hyes
        cases hyes
      · have hlane := (Board.amend_lane now _ t).trans
          (Change.Move.trims (c := ⟨.queuedForProcessing, .readyForDelivery⟩) (by decide)
            (by decide) t).lane
        refine ⟨t, _, ht, hqueued, ?_, congrArg Lane.sink hlane, ?_, ?_⟩
        · rw [hfind, if_pos rfl, ht, Option.map_some]
        · rw [Board.amend_status, hwaits]
        · intro j hj
          rw [hfind, if_neg hj]
  · rintro _ s' ⟨⟨hrefused, hcounted⟩, hsettings⟩
    exact ⟨hcounted, hsettings, hrefused⟩

/--
Once the place of a processed chunk is filled all sinks flow, unless the first move into it is
refused, and then a chunk was ready and nothing is done.
-/
theorem refill_ends {c : Prop} (hs : s.Counted) (hmax : 0 < s.settings.maxEnqueued)
    (now : Instant) {k : Key} {t : Tracker} (ht : s.grid.find? k = some t)
    (hothers : ∀ sink, sink ≠ t.sink → s.grid.Flows sink)
    (hfirst : ∀ j, s.grid.IsOf t.sink .readyForProcessing j →
      (transition now j .readyForProcessing .queuedForProcessing).Ends
        (s.updateMode now t.sink .processing).2 (fun _ _ => c) (fun _ _ => ¬ c)) :
  (refill now k true).Ends s (fun _ s' => ∀ sink, s'.grid.Flows sink)
    (fun _ s' => (c → ∀ sink, s'.grid.Flows sink) ∧
      (¬ c → s'.grid = s.grid ∧ s.grid.Has t.sink .readyForProcessing))
  := by
  have hgrid : (s.updateMode now t.sink .processing).2.grid = s.grid := rfl
  have hcounted : (s.updateMode now t.sink .processing).2.Counted := by
    use hs.filed
    intro status hlive sink
    exact (Book.count_updateMode _ _ _ _ _).trans (hs.counts hlive sink)
  have hspares : ∀ sink, CommitsOnly (Spares sink) True
      (bulkSchedule now t.sink .processing : Attempt (Scheduler p σ) (List Key)) := by
    intro sink
    apply commitsOnly_bulkSchedule
    intro u
    apply spares_move now <;> decide
  have hall : ∀ g' : Grid p, (∀ sink k, Spares sink (s.grid.find? k) (g'.find? k)) →
      g'.Flows t.sink → ∀ sink, g'.Flows sink := by
    intro g' hg' hflows sink
    by_cases hsink : sink = t.sink
    · rwa [hsink]
    · apply (hothers sink hsink).spares (hg' sink)
  rw [refill, if_pos rfl, ends_bind, ends_get, show s.find? k = some t from ht]
  simp only []
  rw [ends_bind, ends_modifyGet, ends_bind, ends_get]
  split
  · rename_i hready
    rw [hcounted.ready, hgrid, ← Grid.has_iff hs.filed] at hready
    rw [ends_bind]
    apply ((bulkSchedule_ends hcounted hmax hready hfirst).and
      (spares_of_commitsOnly hspares hs.filed)).mono
    · rintro _ s' ⟨hqueued, hg'⟩
      rw [ends_pure]
      apply hall s'.grid hg' (fun _ => hqueued)
    · rintro _ s' ⟨⟨htaken, hrefused⟩, hg'⟩
      constructor
      · intro hc
        apply hall s'.grid hg' (fun _ => htaken hc)
      · intro hnot
        exact ⟨hrefused hnot, hready⟩
  · rename_i hnot
    rw [hcounted.ready, hgrid, ← Grid.has_iff hs.filed] at hnot
    rw [ends_pure]
    apply hall
    · exact fun sink k => Std.Refl.refl _
    · exact fun hready => absurd hready hnot

/-- On a working store the place of a processed chunk is filled. -/
theorem processingDone_flows (hworks : LawfulStore.works s.board.store) (hs : s.Counted)
    (hmax : 0 < s.settings.maxEnqueued) (hflows : ∀ sink, s.grid.Flows sink) (now : Instant)
    (k : Key) :
  (processingDone now k).Yields s (fun _ s' => ∀ sink, s'.grid.Flows sink)
  := by
  have hmoves : ∀ {k source target}, source ≠ .blocked → target ≠ .blocked →
      CommitsOnly (fun _ _ => True) False
        (transition now k source target : Attempt (Scheduler p σ) Bool) := by
    intro k source target hsource htarget
    apply commitsOnly_transition
    · exact fun hstatus => hstatus.elim hsource htarget
    · exact fun _ _ _ => trivial
  have hrefill : CommitsOnly (fun _ _ => True) False
      (refill now k true : Attempt (Scheduler p σ) Bool) :=
    commitsOnly_refill now k true (fun _ => trivial)
  rw [processingDone_eq, Yields, ends_bind]
  apply ((transition_processed hs now k).and (hmoves (by decide) (by decide) s)).mono
  · rintro moved s₁ ⟨⟨hcounted, hsettings, hstay, hmoved⟩, hcommits⟩
    cases moved with
    | false =>
      rw [refill, if_neg Bool.false_ne_true, ends_pure, hstay rfl]
      exact hflows
    | true =>
      obtain ⟨t, t', hprocessed⟩ := hmoved rfl
      have hworks₁ := (hcommits hs.filed).works hworks
      have hmax₁ : 0 < s₁.settings.maxEnqueued := by rwa [hsettings]
      have hothers : ∀ sink, sink ≠ t'.sink → s₁.grid.Flows sink := by
        intro sink hsink
        rw [hprocessed.sink] at hsink
        apply hprocessed.flows (hflows sink) hsink
      have hends := refill_ends (c := True) hcounted hmax₁ now hprocessed.after hothers
      apply ((hends _).and (hrefill s₁)).mono
      · exact fun _ _ => And.left
      · exact fun _ _ h => (h.2 hcounted.filed).2 hworks₁
      · intro j _
        apply (hmoves (by decide) (by decide) _).mono
        · exact fun _ _ _ => trivial
        · exact fun _ _ h => ((h hcounted.filed).2 hworks₁).elim
  · exact fun _ _ h => (h.2 hs.filed).2 hworks

end Scheduler

/-! ### Operations which serve -/

/-- Chunks leave the queue only when they are processed, and no other gets ready but a new one. -/
def Operation.IsServing (s : Scheduler p σ) : Operation → Prop
  | complete k => isQueued (s.grid.find? k) = false
  | load | register _ _ | removeFromWaitingOn _ _ | processingDone _ | boost _ _ | recheck | purge
  | bulkSchedule _ _ | forceMode _ _ _ | updateMode _ _ | recount _ => True
  | transition _ _ _ | setStatus _ _ | resetStatus _ _ _ | resend _ | remove _ | removeJob _ =>
    False

variable [Store σ] [LawfulStore σ]

/-- After an operation which serves all sinks flow as before. -/
theorem Operation.perform_flows {s : Scheduler p σ} {o : Operation} (hsound : s.board.Sound)
    (hs : s.Counted) (hmax : 0 < s.settings.maxEnqueued) (hflows : ∀ sink, s.grid.Flows sink)
    (ho : o.IsServing s) (now : Instant) (sink : Int32) :
  ((o.perform now).stateAfter s).grid.Flows sink
  := by
  have hsame : ∀ g' : Grid p, (∀ k, g'.find? k = s.grid.find? k) → g'.Flows sink := by
    intro g' hfind
    apply (hflows sink).spares
    intro k
    rw [hfind]
    apply Std.Refl.refl
  have hspares : ∀ {α : Type} {x : Attempt (Scheduler p σ) α},
      (∀ sink, Scheduler.CommitsOnly (Spares sink) True x) → (x.stateAfter s).grid.Flows sink := by
    intro α x hx
    apply (hflows sink).spares
    apply Ends.stateAfter (P := fun s' : Scheduler p σ =>
      ∀ k, Spares sink (s.grid.find? k) (s'.grid.find? k))
    apply (Scheduler.spares_of_commitsOnly hx hs.filed).mono
    · exact fun _ _ h => h sink
    · exact fun _ _ h => h sink
  cases o with
  | load =>
    rw [perform, stateAfter_bind_pure]
    obtain ⟨-, heq⟩ : s.Becomes Eq ((Scheduler.load now).stateAfter s) :=
      Yields.stateAfter (Scheduler.load_yields now hsound)
    apply hsame _ heq.find?_eq
  | register c barrier =>
    rw [perform, stateAfter_bind_pure]
    apply Yields.stateAfter (P := fun s' : Scheduler p σ => s'.grid.Flows sink)
    apply Scheduler.register_flows hsound.works hs hmax (hflows sink)
  | complete k =>
    rw [perform, stateAfter_bind_pure]
    apply Yields.stateAfter (P := fun s' : Scheduler p σ => s'.grid.Flows sink)
    apply (Scheduler.complete_spares hs.filed now ho).mono
    · exact fun _ _ h => (hflows sink).spares h
    · exact fun _ _ hnot => hnot hsound.works
  | removeFromWaitingOn k j =>
    rw [perform, stateAfter_bind_pure]
    apply hspares
    exact fun _ => Scheduler.commitsOnly_removeFromWaitingOn now k j (spares_release now k)
  | processingDone k =>
    rw [perform, stateAfter_bind_pure]
    apply Yields.stateAfter (P := fun s' : Scheduler p σ => s'.grid.Flows sink)
    apply (Scheduler.processingDone_flows hsound.works hs hmax hflows now k).mono
    exact fun _ _ h => h sink
  | boost ks priority =>
    rw [perform, stateAfter_bind_pure]
    apply hspares
    exact fun _ => Scheduler.commitsOnly_boost now ks (spares_raise now priority)
  | recheck =>
    rw [perform, stateAfter_bind_pure]
    apply hspares
    exact fun _ => Scheduler.commitsOnly_recheck now (spares_release now)
  | purge =>
    rw [perform, stateAfter_bind_pure]
    apply hspares
    intro _
    apply Scheduler.commitsOnly_onBoard
    apply Board.commitsOnly_removeWhere
    intro t hcompleted
    have hstatus : t.status = .completed := (of_decide_eq_true hcompleted).1
    apply spares_of_completed
    · intro hof
      cases hstatus.symm.trans (Tracker.isOf_iff.mp hof).2
    · rfl
  | bulkSchedule j phase =>
    rw [perform, stateAfter_bind_pure]
    apply hspares
    intro _
    apply Scheduler.commitsOnly_bulkSchedule
    intro t
    cases phase <;> (apply spares_move now <;> decide)
  | forceMode | updateMode | recount => apply hsame _ (fun _ => rfl)
  | transition | setStatus | resetStatus | resend | remove | removeJob => exact ho.elim

/-- From an empty store operations which serve lead only to schedulers where all sinks flow. -/
theorem Reachable.flows {settings : Settings} {listening : Bool} {store : σ}
    (hmax : 0 < settings.maxEnqueued) (hworks : LawfulStore.works store)
    (hrows : LawfulStore.rows store = ∅) {s : Scheduler (.ofCount settings.partitions) σ}
    (hs : Reachable (fun s o => o.IsServing s) (Scheduler.start settings listening store) s) :
  LawfulStore.works s.board.store ∧ s.Counted ∧ s.settings = settings ∧
    ∀ sink, s.grid.Flows sink
  := by
  induction hs with
  | start =>
    refine ⟨hworks, Scheduler.counted_start settings listening store, rfl, ?_⟩
    rintro sink ⟨k, hk⟩
    obtain ⟨t, ht, -⟩ := Grid.isOf_iff.mp hk
    cases (Grid.find?_empty k).symm.trans ht
  | step now o hs ho ih =>
    obtain ⟨-, hcounted, hsettings, hflows⟩ := ih
    have hsound := (hs.tidy hworks hrows).1
    refine ⟨((hs.step now o ho).tidy hworks hrows).1.works,
      (Operation.perform_counted hcounted now o).1, ?_, ?_⟩
    · rw [Operation.perform_settings, hsettings]
    · apply Operation.perform_flows hsound hcounted _ hflows ho now
      rwa [hsettings]

end ChunkDispatch
