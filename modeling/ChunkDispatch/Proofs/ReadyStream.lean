import ChunkDispatch.Proofs.Announcement
import ChunkDispatch.Proofs.Run

/-!
# The ready stream

The log of every operation records the entries into the queue for processing: a completed or
processed chunk leaves the queue before others enter it and does not come back, and all other
operations let chunks leave the queue or enter it, but not both.  Since operations tell what they
do, the keys sent are exactly those which enter, each once (`sends_entries`).
-/

namespace ChunkDispatch

open Attempt

variable {p : Partitioner} {σ : Type} {α β : Type} [Store σ] [LawfulStore σ]

namespace Scheduler

variable {s s' : Scheduler p σ} {x : Attempt (Scheduler p σ) α}

/-! ### Logs of operations -/

/-- If whoever is in the queue stays in it, the log records the entries. -/
theorem records_of_stays (f : α → β) (hs : s.grid.WellFiled) (hx : CommitsOnly Stays True x) :
  (x >>= fun a => pure (f a)).Ends s (fun _ s' => s.board.Records s'.board)
    (fun _ s' => s.board.Records s'.board)
  := by
  rw [ends_bind]
  apply (hx s).mono
  · exact fun _ _ h => (h hs).records
  · exact fun _ _ h => (h hs).1.records

/-- So it does if some leave the queue for good before others enter it. -/
theorem records_of_leaves_of_keeps {P : Option Tracker → Prop}
    {f : α → Attempt (Scheduler p σ) β} (hP : ∀ found, P found → isQueued found = false)
    (hs : s.grid.WellFiled) (hx : CommitsOnly (Leaves P) True x)
    (hf : ∀ a, CommitsOnly (Keeps P) True (f a)) :
  (x >>= f).Ends s (fun _ s' => s.board.Records s'.board) (fun _ s' => s.board.Records s'.board)
  := by
  rw [ends_bind]
  apply (hx s).mono
  · intro a s₁ h
    have hfiled : s₁.grid.WellFiled := (h hs).filed hs
    apply (hf a s₁).mono
    · exact fun _ _ h' => Board.Commits.records_of_leaves hP (h hs) (h' hfiled)
    · exact fun _ _ h' => Board.Commits.records_of_leaves hP (h hs) (h' hfiled).1
  · exact fun _ _ h => Board.Commits.records_of_leaves hP (h hs).1 .refl

/-- And so it does if chunks only leave the queue. -/
theorem records_of_leaves (f : α → β) (hs : s.grid.WellFiled)
    (hx : CommitsOnly (Leaves (fun found => isQueued found = false)) True x) :
  (x >>= fun a => pure (f a)).Ends s (fun _ s' => s.board.Records s'.board)
    (fun _ s' => s.board.Records s'.board)
  := by
  apply records_of_leaves_of_keeps (fun _ => id) hs hx
  exact fun _ => walks_pure _

/-- The completed chunk is not live any more when others are released into the queue. -/
theorem complete_records (hs : s.grid.WellFiled) (now : Instant) (k : Key) :
  (complete now k).Ends s (fun _ s' => s.board.Records s'.board)
    (fun _ s' => s.board.Records s'.board)
  := by
  rw [complete_eq]
  refine records_of_leaves_of_keeps (P := fun found => found.any Tracker.isLive = false) ?_ hs ?_ ?_
  · exact fun _ => isQueued_of_not_live
  · apply commitsOnly_retire
    · exact fun _ => Or.inr rfl
    · apply leaves_force
      intro t hstatus
      rw [Option.any_some, Tracker.isLive, hstatus]
      rfl
  · intro sink
    apply commitsOnly_releaseDependents
    intro t
    use stays_release now k t
    intro hnot
    rw [Option.any_some, Board.amend_isLive, Change.Release.apply_isLive]
    exact hnot

/-- The processed chunk waits for its delivery when others move into its place. -/
theorem processingDone_records (hs : s.grid.WellFiled) (now : Instant) (k : Key) :
  (processingDone now k).Ends s (fun _ s' => s.board.Records s'.board)
    (fun _ s' => s.board.Records s'.board)
  := by
  rw [processingDone_eq]
  refine records_of_leaves_of_keeps
    (P := fun found => found.any (fun t => t.status = .readyForDelivery) = true) ?_ hs ?_ ?_
  · intro found hfound
    cases found with
    | none => rfl
    | some t =>
      apply isQueued_of_status _ t (of_decide_eq_true hfound)
      decide
  · apply commitsOnly_transition
    · intro hstatus
      cases hstatus <;> contradiction
    · intro _ _
      apply leaves_move
      exact fun t hstatus => decide_eq_true hstatus
  · intro moved
    apply commitsOnly_refill
    exact keeps_delivery now

end Scheduler

/-! ### Operations -/

namespace Operation

/-- All operations but the bare removal from wait sets, and loading, tell what they do. -/
theorem perform_telling (now : Instant) {o : Operation} (hload : o ≠ load)
    (hraw : ∀ k sink, o ≠ removeFromWaitingOn k sink) :
  Scheduler.Telling (o.perform now : Attempt (Scheduler p σ) Answer)
  := by
  cases o with
  | load => exact absurd rfl hload
  | removeFromWaitingOn k sink => exact absurd rfl (hraw k sink)
  | register c barrier =>
    apply walks_bind_pure (Scheduler.telling_register now c barrier)
  | complete k =>
    apply walks_bind_pure (Scheduler.telling_complete now k)
  | processingDone k =>
    apply walks_bind_pure (Scheduler.telling_processingDone now k)
  | transition k source target =>
    apply walks_bind_pure (Scheduler.telling_transition now k source target)
  | setStatus k status =>
    apply walks_bind_pure (Scheduler.telling_setStatus now k status)
  | resetStatus source target jobs =>
    apply walks_bind_pure (Scheduler.telling_resetStatus now source target jobs)
  | resend k =>
    apply walks_bind_pure
    apply Scheduler.telling_onBoard
    apply Board.commitsOnly_adjust now k (Change.Resend.apply_key _)
    intro t _
    apply (leaves_resend now t).avoids
    exact fun _ => id
  | boost ks priority =>
    apply walks_bind_pure (Scheduler.telling_boost now ks priority)
  | remove k =>
    apply walks_bind_pure
    apply Scheduler.telling_onBoard
    apply Board.commitsOnly_remove
    exact avoids_none
  | removeJob job =>
    apply walks_bind_pure
    apply Scheduler.telling_onBoard
    apply Board.commitsOnly_removeWhere
    exact fun t _ => avoids_none (some t)
  | recheck =>
    apply walks_bind_pure
    apply Scheduler.walks_recheck
    exact fun k gone => Scheduler.telling_repair now k gone
  | purge =>
    apply walks_bind_pure
    apply Scheduler.telling_onBoard
    apply Board.commitsOnly_removeWhere
    exact fun t _ => avoids_none (some t)
  | bulkSchedule sink phase =>
    apply walks_bind_pure (Scheduler.telling_bulkSchedule now sink phase)
  | forceMode sink phase mode =>
    apply walks_bind_pure
    apply walks_modify
    exact fun _ _ => Scheduler.tells_book ⟨_, rfl⟩ rfl
  | updateMode sink phase =>
    apply walks_bind_pure (Scheduler.telling_updateMode now sink phase)
  | recount sinks =>
    apply walks_bind_pure
    apply walks_modify
    exact fun _ _ => Scheduler.tells_book ⟨_, rfl⟩ rfl

/-- The log of every operation but loading records the entries, however the operation ends. -/
theorem perform_records {s : Scheduler p σ} (hs : s.grid.WellFiled) (now : Instant) {o : Operation}
    (ho : o ≠ load) :
  (o.perform now).Ends s (fun _ s' => s.board.Records s'.board)
    (fun _ s' => s.board.Records s'.board)
  := by
  cases o with
  | load => exact absurd rfl ho
  | register c barrier =>
    apply Scheduler.records_of_stays _ hs
    apply Scheduler.commitsOnly_register
    · exact stays_release now
    · intro old t hold _ _ hqueued
      cases (isQueued_of_not_live hold).symm.trans hqueued
  | complete k =>
    rw [perform, ends_bind]
    apply Scheduler.complete_records hs
  | removeFromWaitingOn k sink =>
    apply Scheduler.records_of_stays _ hs
    apply Scheduler.commitsOnly_removeFromWaitingOn now k sink (stays_release now k)
  | processingDone k =>
    rw [perform, ends_bind]
    apply Scheduler.processingDone_records hs
  | transition k source target =>
    by_cases htarget : target = .queuedForProcessing
    · apply Scheduler.records_of_stays _ hs
      apply Scheduler.commitsOnly_transition now k (fun _ => trivial)
      exact fun _ _ => stays_move now (fun _ => htarget)
    · apply Scheduler.records_of_leaves _ hs
      apply Scheduler.commitsOnly_transition now k (fun _ => trivial)
      exact fun _ _ => leaves_move now (isQueued_of_status htarget)
  | setStatus k status =>
    by_cases hstatus : status = .queuedForProcessing
    · subst hstatus
      apply Scheduler.records_of_stays _ hs
      apply Scheduler.commitsOnly_setStatus now k (stays_force now)
    · apply Scheduler.records_of_leaves _ hs
      apply Scheduler.commitsOnly_setStatus now k (leaves_force now (isQueued_of_status hstatus))
  | resetStatus source target jobs =>
    by_cases htarget : target = .queuedForProcessing
    · subst htarget
      apply Scheduler.records_of_stays _ hs
      apply Scheduler.commitsOnly_resetStatus now jobs (fun _ => trivial) (stays_force now)
    · apply Scheduler.records_of_leaves _ hs
      apply Scheduler.commitsOnly_resetStatus now jobs (fun _ => trivial)
      apply leaves_force now (isQueued_of_status htarget)
  | resend k =>
    apply Scheduler.records_of_leaves _ hs
    apply Scheduler.commitsOnly_resend now k (leaves_resend now)
  | boost ks priority =>
    apply Scheduler.records_of_stays _ hs
    apply Scheduler.commitsOnly_boost now ks
    intro t
    rw [Stays, isQueued_raise]
    exact id
  | remove k =>
    apply Scheduler.records_of_leaves _ hs
    apply Scheduler.commitsOnly_onBoard
    apply Board.commitsOnly_remove
    exact fun _ => Or.inr rfl
  | removeJob job =>
    apply Scheduler.records_of_leaves _ hs
    apply Scheduler.commitsOnly_onBoard
    apply Board.commitsOnly_removeWhere
    exact fun _ _ => Or.inr rfl
  | recheck =>
    apply Scheduler.records_of_stays _ hs
    apply Scheduler.commitsOnly_recheck now (stays_release now)
  | purge =>
    apply Scheduler.records_of_leaves _ hs
    apply Scheduler.commitsOnly_onBoard
    apply Board.commitsOnly_removeWhere
    exact fun _ _ => Or.inr rfl
  | bulkSchedule sink phase =>
    apply Scheduler.records_of_stays _ hs
    apply Scheduler.commitsOnly_bulkSchedule now sink
    apply stays_move
    cases phase <;> decide
  | forceMode sink phase mode =>
    apply Scheduler.records_of_stays (fun _ => Answer.done) hs
    apply walks_modify
    exact fun _ _ => .single (.book ⟨_, rfl⟩)
  | updateMode sink phase =>
    apply Scheduler.records_of_stays _ hs
    apply Scheduler.commitsOnly_updateMode now sink phase
  | recount sinks =>
    apply Scheduler.records_of_stays (fun _ => Answer.done) hs
    apply Scheduler.commitsOnly_recount now sinks

end Operation

namespace Scheduler

/-! ### The stream and the queue -/

/--
The keys sent on the way from `s` to `s'` are those which enter the queue, each once, and those of
which the events say so.
-/
def Announces (s s' : Scheduler p σ) : Prop :=
  ∃ ks es, s'.ready.sent = s.ready.sent ++ ks ∧ s'.board.log = s.board.log ++ es ∧
    s.grid.Entered s'.grid ks ∧ ks.Perm (Event.entered es)

variable {s s' : Scheduler p σ}

theorem Tells.announces (h : s.Tells s') (hrecords : s.board.Records s'.board) :
  s.Announces s'
  := by
  obtain ⟨ks, es, hsent, hlog, hperm⟩ := h.told
  obtain ⟨es', hlog', hentered⟩ := hrecords
  obtain rfl : es = es' := List.append_cancel_left (hlog.symm.trans hlog')
  refine ⟨ks, es, hsent, hlog, ⟨?_, ?_⟩, hperm⟩
  · apply hperm.nodup_iff.mpr hentered.nodup
  · intro k
    rw [hperm.mem_iff]
    apply hentered.iff

/-- Loading the trackers that are there already brings nobody into the queue. -/
theorem load_announces (hs : s.board.Coherent) (now : Instant) :
  (load now).Ends s (fun _ => s.Announces) (fun _ _ => ¬ LawfulStore.works s.board.store)
  := by
  rw [load, ends_bind, ends_onBoard]
  apply ((Board.loadAll_ends s.board).and (Board.loadAll_coherent hs.keyed)).mono
  · rintro n b ⟨⟨_, _, _, _, _, _, hb⟩, -, -, hfind⟩
    rw [ends_bind, ends_modify, ends_pure]
    refine ⟨[], [], (List.append_nil _).symm, ?_, ?_, .refl _⟩
    · change b.log = s.board.log ++ []
      rw [hb, List.append_nil]
    · apply Grid.entered_nil
      intro k
      change enters (s.board.grid.find? k) (b.grid.find? k) = false
      rw [hfind, hs.agree]
      apply enters_self
  · exact fun _ _ h => h.1.1

end Scheduler

/--
While somebody listens to the ready stream, an operation sends exactly the chunks which enter the
queue for processing, each once; loading does if the trackers loaded are those which are there.
Only where the store refuses an action, and for the bare removal from wait sets, it may not.
-/
theorem Operation.sends_entries {s : Scheduler p σ} (hs : s.grid.WellFiled)
    (hlistening : s.ready.listening = true) (now : Instant) {o : Operation}
    (hload : o = .load → s.board.Coherent) (hraw : ∀ k sink, o ≠ .removeFromWaitingOn k sink) :
  (o.perform now).Ends s (fun _ => s.Announces)
    (fun _ s' => LawfulStore.works s.board.store → s.Announces s')
  := by
  by_cases ho : o = .load
  · subst ho
    rw [perform, ends_bind]
    apply (Scheduler.load_announces (hload rfl) now).mono
    · exact fun _ _ => id
    · exact fun _ _ hnot hworks => absurd hworks hnot
  · apply ((perform_telling now ho hraw s).and (perform_records hs now ho)).mono
    · rintro _ s' ⟨htells, hrecords⟩
      apply (htells ⟨hs, hlistening⟩).announces hrecords
    · rintro _ s' ⟨htells, hrecords⟩ hworks
      apply (htells ⟨hs, hlistening⟩ hworks).announces hrecords

/-- Chunk 1 waits for chunk 0, and enters the queue and is sent when that is completed. -/
theorem Operation.sends_entries_of_two :
  let s := Scheduler.afterAll [.register (.sample 1 0 ["a"]) none,
    .register (.sample 1 1 ["a"]) none]
  let s' := ((Operation.complete ⟨1, 0⟩).perform default).stateAfter s
  s.ready.listening = true ∧ s.Announces s' ∧ s'.ready.sent = s.ready.sent ++ [⟨1, 1⟩] ∧
    enters (s.grid.find? ⟨1, 1⟩) (s'.grid.find? ⟨1, 1⟩) = true
  := by
  intro s s'
  have hs : Reachable (fun _ _ => True) (Scheduler.start .standard true (Memory.ofList [])) s :=
    Scheduler.reachable_afterAll ⟨trivial, trivial, trivial⟩
  have hfiled := (hs.tidy trivial rfl).1.filed
  have hlistening : s.ready.listening = true := by decide +kernel
  have hsent : s'.ready.sent = s.ready.sent ++ [⟨1, 1⟩] := by decide +kernel
  have hannounces : s.Announces s' := by
    apply Ends.stateAfter
    apply (sends_entries hfiled hlistening default _ _).mono
    · exact fun _ _ => id
    · exact fun _ _ h => h trivial
    · intro hload
      cases hload
    · intro k sink hraw
      cases hraw
  clear_value s s'
  refine ⟨hlistening, hannounces, hsent, ?_⟩
  obtain ⟨ks, es, hks, -, hentered, -⟩ := hannounces
  apply (hentered.iff _).mp
  rw [List.append_cancel_left (hks.symm.trans hsent)]
  apply List.mem_singleton_self

end ChunkDispatch
