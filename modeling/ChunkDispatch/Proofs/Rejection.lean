import ChunkDispatch.Proofs.Counters
import ChunkDispatch.Proofs.FirstWrite

/-!
# Rejected operations

The first write an operation asks for decides whether it does anything.  Until that write is taken
an operation may read, and put queues into other modes, but the trackers, the counts, the events and
the ready stream are as they were, and so they stay if the write is refused.  Each operation heeds
its first write, and what it sends, it sends after a write.  Loading asks for no write, and does
nothing until both its loads have succeeded.
-/

namespace ChunkDispatch

open Attempt

variable {p : Partitioner} {σ : Type}

namespace Scheduler

/-! ### What a write decides -/

/-- The store behind the board. -/
def store (s : Scheduler p (Scripted σ)) : Scripted σ :=
  s.board.store

/-- Nothing but the store and the modes of the queues is another. -/
structure Same (s s' : Scheduler p (Scripted σ)) : Prop where
  grid : s'.grid = s.grid
  counts : ∀ now sink status,
    (s'.book.get now sink).count status = (s.book.get now sink).count status
  lastSeq : s'.board.lastSeq = s.board.lastSeq
  log : s'.board.log = s.board.log
  ready : s'.ready = s.ready

instance : Std.Refl (Same (p := p) (σ := σ)) where
  refl _ := ⟨rfl, fun _ _ _ => rfl, rfl, rfl, rfl⟩

instance : IsTrans (Scheduler p (Scripted σ)) Same where
  trans s s' s'' h h' := by
    constructor
    · rw [h'.grid, h.grid]
    · intro now sink status
      rw [h'.counts, h.counts]
    · rw [h'.lastSeq, h.lastSeq]
    · rw [h'.log, h.log]
    · rw [h'.ready, h.ready]

/-- Nothing but the modes of the queues, and what a store does besides keeping rows, is another. -/
structure Untouched [Store σ] [LawfulStore σ] (s s' : Scheduler p (Scripted σ)) : Prop
    extends Same s s' where
  rows : LawfulStore.rows s'.board.store = LawfulStore.rows s.board.store

theorem send_store (k : Key) (s : Scheduler p (Scripted σ)) :
  (send k s).store = s.store
  := congrArg Board.store (send_board k s)

theorem asks_send (k : Key) :
  (modify (send k) : Attempt (Scheduler p (Scripted σ)) PUnit).Asks store
  := asks_of_yields (send_store k)

theorem asks_send_if (k : Key) {status : Status} (b : Bool) :
  (do
    if status = .queuedForProcessing then
      modify (send k)
    return b : Attempt (Scheduler p (Scripted σ)) Bool).Asks store
  := by
  apply walks_ite
  · exact fun _ => walks_bind_pure (asks_send k) _
  · exact fun _ => walks_pure _

/-- The mode of a queue is no matter of what a write decides. -/
theorem proceeds_mapBook {s : Scheduler p (Scripted σ)} {book : Book}
    (h : ∀ sink status, book.count sink status = s.book.count sink status) :
  Proceeds store Same s { s with board.book := book }
  := by
  refine Or.inl ⟨⟨rfl, ?_, rfl, rfl, rfl⟩, rfl⟩
  intro now sink status
  rw [Book.count_get, Book.count_get]
  apply h

theorem proceeds_updateMode (now : Instant) (sink : Int32) (phase : Phase)
    (s : Scheduler p (Scripted σ)) :
  Proceeds store Same s (updateMode now sink phase s).2
  := proceeds_mapBook (fun _ _ => Book.count_updateMode _ _ now sink phase)

theorem proceeds_plan (now : Instant) (c : Chunk) (barrier : Option String)
    (s : Scheduler p (Scripted σ)) :
  Proceeds store Same s (s.plan now c barrier).2
  := by
  rw [plan]
  split
  · exact Or.inl ⟨Std.Refl.refl s, rfl⟩
  · simp only [planNew]
    split
    · apply proceeds_updateMode
    · exact Or.inl ⟨Std.Refl.refl s, rfl⟩

variable [Store σ] [LawfulStore σ] {α : Type}

/-- The attempt heeds its first write, whatever its result tells. -/
def HeedsWrites (x : Attempt (Scheduler p (Scripted σ)) α) : Prop :=
  x.Walks (Proceeds store Same) (Stops store Same)

/-! ### Actions of the board -/

theorem heeds_onBoard {x : Attempt (Board p (Scripted σ)) α} {c : α → Prop}
    (hx : x.Heeds Board.store Board.Same c) :
  (onBoard x).Heeds store Same c
  := by
  intro s
  have hsame : ∀ {b : Board p (Scripted σ)}, s.board.Same b → s.Same { s with board := b } := by
    intro b h
    rw [h]
    exact ⟨rfl, fun _ _ _ => rfl, rfl, rfl, rfl⟩
  rw [ends_onBoard]
  apply (hx s.board).mono
  · rintro a b (⟨h, hrest⟩ | htakes)
    · exact Or.inl ⟨hsame h, hrest⟩
    · exact Or.inr htakes
  · rintro _ b (⟨h, hfails⟩ | hbreaks)
    · exact Or.inl ⟨hsame h, hfails⟩
    · exact Or.inr hbreaks

theorem heedsWrites_onBoard {x : Attempt (Board p (Scripted σ)) α}
    (hx : x.Walks (Proceeds Board.store Board.Same) (Stops Board.store Board.Same)) :
  HeedsWrites (onBoard x)
  := (heeds_onBoard (heeds_of_walks hx)).walks

variable (now : Instant)

theorem heedsWrites_adjust (k : Key) (f : Tracker → α × Tracker) :
  HeedsWrites (onBoard (Board.adjust now k f) : Attempt (Scheduler p (Scripted σ)) (Option α))
  := heedsWrites_onBoard ((Board.writes_heed now).walks_adjust k f)

theorem heedsWrites_adjustWhere (q : Tracker → Bool) (f : Tracker → α × Tracker) :
  HeedsWrites
    (onBoard (Board.adjustWhere now q f) : Attempt (Scheduler p (Scripted σ)) (SortedMap Key α))
  := heedsWrites_onBoard ((Board.writes_heed now).walks_adjustWhere q f)

/-- A tracker is adjusted, and what is sent for it is sent only if it is another then. -/
theorem heedsWrites_adjust_then (k : Key) {f : Tracker → Bool × Tracker}
    (hf : ∀ t, (f t).2 = t → (f t).1 = false) {x y : Attempt (Scheduler p (Scripted σ)) α}
    (hx : x.Asks store) (hy : HeedsWrites y) :
  HeedsWrites (do
    let r ← onBoard (Board.adjust now k f)
    if r = some true then x else y)
  := by
  have hadjust := heeds_onBoard (p := p) (σ := σ)
    (Board.heeds_adjust now k (c := fun r => r = some true) nofun (by simpa using hf))
  apply Heeds.walks (c := fun _ => False)
  apply hadjust.bind
  · intro r hr
    rw [if_neg hr]
    apply heeds_of_walks hy
  · intro r
    apply walks_ite
    · exact fun _ => hx
    · exact fun _ => asks_of_walks hy

/-! ### Operations -/

theorem heedsWrites_transition (k : Key) {source target : Status}
    (hstatus : ¬ (source = .blocked ∨ target = .blocked)) :
  HeedsWrites (transition now k source target : Attempt (Scheduler p (Scripted σ)) Bool)
  := by
  rw [transition, if_neg hstatus]
  apply heedsWrites_adjust_then now k (fun _ => Change.Move.not_moved_of_eq)
  · apply asks_send_if
  · apply walks_pure

theorem heedsWrites_setStatus (k : Key) (status : Status) :
  HeedsWrites (setStatus now k status : Attempt (Scheduler p (Scripted σ)) Bool)
  := by
  apply heedsWrites_adjust_then now k (fun _ => Change.Force.not_forced_of_eq)
  · apply asks_send_if
  · apply walks_pure

theorem heedsWrites_repair (k : Key) (gone : List Key) :
  HeedsWrites (repair now k gone : Attempt (Scheduler p (Scripted σ)) Unit)
  := by
  apply walks_forM
  intro prerequisite _
  apply heedsWrites_adjust_then now k (fun _ => Change.Release.not_released_of_eq)
  · apply asks_send
  · apply walks_pure

theorem heedsWrites_bulkSchedule (sink : Int32) (phase : Phase) :
  HeedsWrites (bulkSchedule now sink phase : Attempt (Scheduler p (Scripted σ)) (List Key))
  := by
  apply walks_bulkSchedule
  intro k
  apply heedsWrites_transition
  rintro (h | h)
  · exact phase.ready_ne_blocked h
  · exact phase.queued_ne_blocked h

theorem heedsWrites_processingDone (k : Key) :
  HeedsWrites (processingDone now k : Attempt (Scheduler p (Scripted σ)) Bool)
  := by
  rw [processingDone_eq]
  apply walks_bind
  · apply heedsWrites_transition
    simp
  · intro moved
    apply walks_refill
    · exact fun sink => walks_modifyGet (proceeds_updateMode now sink _)
    · intro k'
      apply heedsWrites_transition
      simp

/-- Nobody is released without a write. -/
theorem heeds_removeFromWaitingOn (k : Key) (sink : Option Int32) :
  (removeFromWaitingOn now k sink).Heeds (store (p := p) (σ := σ)) Same
    (fun released => released.toList ≠ [])
  := by
  have hadjust := heeds_onBoard (p := p) (σ := σ)
    (Board.heeds_adjustWhere now (Query.WaitingFor.holds ⟨sink, k⟩) (c := fun r => r = true)
      (f := Change.Release.apply ⟨k⟩)
      (fun t ht => Bool.eq_false_iff.mp (Change.Release.not_released_of_eq ht)))
  apply hadjust.bind
  · intro results hnone s
    refine Or.inl ⟨Std.Refl.refl s, rfl, ?_⟩
    apply not_not_intro
    apply List.eq_nil_iff_forall_not_mem.mpr
    intro j hj
    obtain ⟨queued, hqueued⟩ := SortedMap.mem_keys_iff.mp hj
    rw [SortedMap.find?_filter, Option.filter_eq_some_iff] at hqueued
    exact hnone ⟨j, queued, hqueued⟩
  · exact fun _ => asks_of_yields (fun _ => rfl)

theorem heedsWrites_complete (k : Key) :
  HeedsWrites (complete now k : Attempt (Scheduler p (Scripted σ)) (SortedSet Key))
  := by
  rw [complete_eq]
  apply walks_bind
  · apply walks_bind walks_get
    intro s
    split
    · apply walks_bind_pure (heedsWrites_onBoard ((Board.writes_heed now).walks_remove k))
    · apply walks_bind_pure (heedsWrites_adjust now k _)
  · intro sink
    apply Heeds.walks (c := fun _ => False)
    apply (heeds_removeFromWaitingOn now k sink).bind
    · intro released hnone s
      rw [ends_bind, ends_modify, ends_pure, not_not.mp hnone]
      exact Or.inl ⟨Std.Refl.refl s, rfl, id⟩
    · intro released
      apply asks_of_yields
      intro s
      rw [Yields, ends_bind, ends_modify, ends_pure, foldl_send]
      rfl

theorem heedsWrites_dropFrom (t : Tracker) (gone : List Key) :
  HeedsWrites (dropFrom now t gone : Attempt (Scheduler p (Scripted σ)) Tracker)
  := walks_dropFrom t gone (fun _ => heedsWrites_adjust now _ _)

theorem heedsWrites_enrol (t : Tracker) :
  HeedsWrites (carryOut now (.enrol t) : Attempt (Scheduler p (Scripted σ)) Tracker)
  := by
  -- the tracker is written, whatever there was before
  have hset := heeds_onBoard (Board.heeds_set (p := p) (σ := σ) now t (fun _ => True))
  apply Heeds.walks (c := fun _ => False)
  apply hset.bind
  · exact fun _ hnot => absurd trivial hnot
  · intro _
    apply walks_bind walks_get
    intro s
    apply walks_bind (asks_of_walks (heedsWrites_dropFrom now t _))
    intro t'
    apply walks_ite
    · exact fun _ => walks_bind_pure (asks_send _) _
    · exact fun _ => walks_pure _

/-- Where nothing is written the tracker is the one from before, and is not sent. -/
theorem renew_proceeds {s : Scheduler p (Scripted σ)} {t : Tracker}
    (ht : s.grid.find? t.key = some t) (gone : List Key) :
  (carryOut now (.renew t gone)).Ends s (fun _ => Proceeds store Same s)
    (fun _ => Stops store Same s)
  := by
  rw [carryOut, ends_bind]
  apply ((heedsWrites_dropFrom now t gone s).and (dropFrom_result ht gone)).mono
  · rintro t' s' ⟨hproceeds, rfl⟩
    split
    · rename_i hqueued
      rw [ends_bind, ends_modify, ends_pure]
      right
      rw [send_store]
      apply hproceeds.resolve_left
      rintro ⟨hsame, -⟩
      rw [find?, hsame.grid, ht, Option.getD_some, hqueued.1] at hqueued
      cases hqueued.2
    · exact hproceeds
  · exact fun _ _ h => h.1

theorem register_proceeds {s : Scheduler p (Scripted σ)} (hs : s.grid.WellFiled) (c : Chunk)
    (barrier : Option String) :
  (register now c barrier).Ends s (fun _ => Proceeds store Same s) (fun _ => Stops store Same s)
  := by
  have hplan := proceeds_plan now c barrier s
  rw [register, ends_bind, ends_modifyGet]
  cases hlive : s.grid.isLive c.key with
  | true =>
    obtain ⟨t, ht, hlive⟩ := Grid.isLive_iff.mp hlive
    rw [plan_of_live ht hlive]
    rw [← hs.key ht] at ht
    apply renew_proceeds now ht
  | false =>
    rw [plan_of_not_live hlive] at hplan ⊢
    apply (heedsWrites_enrol now _ _).mono
    · exact fun _ _ => Composes.trans (Stops store Same) hplan
    · exact fun _ _ => Composes.last hplan

end Scheduler

namespace Operation

open Scheduler

variable [Store σ] [LawfulStore σ] (now : Instant) {s : Scheduler p (Scripted σ)}

/--
Every operation heeds its first write, save those which are there to make the grid or the counts
anew; one which is never permitted does nothing.
-/
theorem perform_heeds (hs : s.grid.WellFiled) {o : Operation} (hload : o ≠ load)
    (hrecount : ∀ sinks, o ≠ recount sinks) :
  (o.perform now).Ends s (fun _ => Proceeds store Same s)
    (fun _ s' => Stops store Same s s' ∨ s' = s)
  := by
  have hwalks : ∀ {α : Type} {x : Attempt (Scheduler p (Scripted σ)) α} (f : α → Answer),
      HeedsWrites x → (x >>= fun a => pure (f a)).Ends s (fun _ => Proceeds store Same s)
        (fun _ s' => Stops store Same s s' ∨ s' = s) := by
    intro α x f hx
    apply (walks_bind_pure hx f s).mono
    · exact fun _ _ => id
    · exact fun _ _ => Or.inl
  cases o with
  | load => exact absurd rfl hload
  | recount sinks => exact absurd rfl (hrecount sinks)
  | register c barrier =>
    rw [perform, ends_bind]
    apply (register_proceeds now hs c barrier).mono
    · exact fun _ _ => id
    · exact fun _ _ => Or.inl
  | complete k => apply hwalks _ (heedsWrites_complete now k)
  | removeFromWaitingOn k sink =>
    apply hwalks _ (heeds_removeFromWaitingOn now k sink).walks
  | processingDone k => apply hwalks _ (heedsWrites_processingDone now k)
  | transition k source target =>
    by_cases hstatus : source = .blocked ∨ target = .blocked
    · rw [perform, ends_bind, Scheduler.transition, if_pos hstatus]
      exact Or.inr rfl
    · apply hwalks _ (heedsWrites_transition now k hstatus)
  | setStatus k status => apply hwalks _ (heedsWrites_setStatus now k status)
  | resetStatus source target jobs =>
    by_cases hstatus : source = .blocked ∨ target = .blocked
    · rw [perform, ends_bind, Scheduler.resetStatus, if_pos hstatus]
      exact Or.inr rfl
    · apply hwalks
      apply walks_resetStatus
      · exact fun h => absurd h hstatus
      · exact fun k => heedsWrites_setStatus now k target
  | resend k => apply hwalks _ (heedsWrites_adjust now k _)
  | boost ks priority =>
    apply hwalks
    apply walks_boost
    exact fun ks' => heedsWrites_adjustWhere now _ _
  | remove k =>
    apply hwalks _ (heedsWrites_onBoard ((Board.writes_heed now).walks_remove k))
  | removeJob job =>
    apply hwalks _ (heedsWrites_onBoard ((Board.writes_heed now).walks_removeWhere _))
  | recheck =>
    apply hwalks
    apply walks_recheck
    exact fun k gone => heedsWrites_repair now k gone
  | purge => apply hwalks _ (heedsWrites_onBoard ((Board.writes_heed now).walks_removeWhere _))
  | bulkSchedule sink phase => apply hwalks _ (heedsWrites_bulkSchedule now sink phase)
  | forceMode sink phase mode =>
    exact proceeds_mapBook (fun _ _ => Book.count_setMode now sink phase mode)
  | updateMode sink phase => exact proceeds_updateMode now sink phase s

/-- A load which is refused makes loading fail, and what fails changes nothing. -/
theorem load_answers :
  (load.perform now).Ends s
    (fun _ s' => s'.store.writes = s.store.writes ∧ s.store.loadRefusals.next = false ∧
      s.store.loadRefusals.advance.next = false)
    (fun _ s' => s'.store.writes = s.store.writes ∧ s.Untouched s')
  := by
  rw [perform, ends_bind, Scheduler.load, ends_bind, ends_onBoard]
  apply ((Board.loadAll_ends s.board).and (Board.loadAll_asks s.board)).mono
  · rintro n b ⟨-, hasks⟩
    exact hasks
  · rintro _ _ ⟨⟨-, st, hrows, rfl⟩, hwrites⟩
    exact ⟨hwrites, ⟨rfl, fun _ _ _ => rfl, rfl, rfl, rfl⟩, hrows⟩

/--
What an operation comes to: if it succeeds without a write it changed nothing, unless it is there to
make the grid or the counts anew; if it fails it changed nothing, unless it had a write taken.
-/
theorem perform_answers (hs : s.grid.WellFiled) (o : Operation) :
  (o.perform now).Ends s
    (fun _ s' =>
      (s.store.Takes s'.store ∨ s'.store.writes = s.store.writes ∧
        (o ≠ load → (∀ sinks, o ≠ recount sinks) → s.Untouched s')) ∧
      (o = load → s.store.loadRefusals.next = false ∧ s.store.loadRefusals.advance.next = false))
    (fun _ s' => s.Untouched s' ∨ o ≠ load ∧ s.store.Breaks s'.store)
  := by
  by_cases hload : o = load
  · subst hload
    apply (load_answers now).mono
    · rintro _ s' ⟨hwrites, hrefusals⟩
      exact ⟨Or.inr ⟨hwrites, fun hne => absurd rfl hne⟩, fun _ => hrefusals⟩
    · exact fun _ _ h => Or.inl h.2
  · by_cases hrecount : ∃ sinks, o = recount sinks
    · obtain ⟨sinks, rfl⟩ := hrecount
      rw [perform, ends_bind, ends_modify, ends_pure]
      exact ⟨Or.inr ⟨rfl, fun _ hne => absurd rfl (hne sinks)⟩, fun h => absurd h hload⟩
    · rw [not_exists] at hrecount
      apply (perform_heeds now hs hload hrecount).mono
      · intro _ s' h
        refine ⟨?_, fun h => absurd h hload⟩
        obtain ⟨hsame, hstore⟩ | htakes := h
        · exact Or.inr ⟨congrArg _ hstore, fun _ _ => ⟨hsame, congrArg _ hstore⟩⟩
        · exact Or.inl htakes
      · rintro _ s' ((⟨hsame, hrows, -⟩ | hbreaks) | rfl)
        · exact Or.inl ⟨hsame, hrows⟩
        · exact Or.inr ⟨hload, hbreaks⟩
        · exact Or.inl ⟨Std.Refl.refl s', rfl⟩

/--
An operation other than loading and recounting which asks for no write changes nothing, whatever it
comes to.  An operation whose first write is refused fails and changes nothing, and so does loading
if one of its two loads is refused.  Whatever the reason, what fails with no more than one write
asked for changes nothing.
-/
theorem perform_untouched (hs : s.grid.WellFiled) (o : Operation) :
  let s' := (o.perform now).stateAfter s
  (o ≠ load → (∀ sinks, o ≠ recount sinks) → s'.store.writes = s.store.writes →
      s.Untouched s') ∧
    (s.store.writeRefusals.next = true → s'.store.writes ≠ s.store.writes →
      (∃ e, (o.perform now).outcome s = .error e) ∧ s.Untouched s') ∧
    (o = load → s.store.loadRefusals.next = true ∨ s.store.loadRefusals.advance.next = true →
      (∃ e, (o.perform now).outcome s = .error e) ∧ s.Untouched s') ∧
    ∀ e, (o.perform now).outcome s = .error e →
      s'.store.writes.length ≤ s.store.writes.length + 1 → s.Untouched s'
  := by
  intro s'
  obtain ⟨a, hok, hanswers, hrefusals⟩ | ⟨e, herror, hanswers⟩ :=
    (perform_answers now hs o).outcome_cases
  · refine ⟨?_, ?_, ?_, ?_⟩
    · intro hload hrecount hwrites
      obtain htakes | ⟨-, huntouched⟩ := hanswers
      · exact absurd hwrites htakes.writes_ne
      · apply huntouched hload hrecount
    · intro hnext hne
      obtain htakes | ⟨hwrites, -⟩ := hanswers
      · cases hnext.symm.trans htakes.1
      · exact absurd hwrites hne
    · intro hload hrefused
      simp [hrefusals hload] at hrefused
    · intro e herror
      cases hok.symm.trans herror
  · have huntouched : ¬ s.store.Breaks s'.store → s.Untouched s' :=
      fun hnot => hanswers.resolve_right (fun h => hnot h.2)
    refine ⟨?_, ?_, ?_, ?_⟩
    · intro _ _ hwrites
      apply huntouched
      exact fun hbreaks => hbreaks.takes.writes_ne hwrites
    · intro hnext _
      refine ⟨⟨e, herror⟩, huntouched ?_⟩
      intro hbreaks
      cases hnext.symm.trans hbreaks.1
    · intro hload _
      exact ⟨⟨e, herror⟩, hanswers.resolve_right (fun h => h.1 hload)⟩
    · intro _ _ hlength
      apply huntouched
      rintro ⟨-, w, w', ws, hws⟩
      simp [hws] at hlength

/--
The next write and the next load are refused: chunk 0 is not completed, and nothing is loaded.
Chunk 1 waits for chunk 0, and nothing is written when it is registered again.
-/
theorem perform_untouched_of_stubborn :
  let s := (run (Scheduler.start .standard true Scripted.stubborn) [
    (default, load), (default, register (.sample 1 1 ["a"]) none)]).2
  let register : Operation := .register (.sample 1 1 ["b"]) none
  let complete : Operation := .complete ⟨1, 0⟩
  s.grid.WellFiled ∧ s.grid.isLive ⟨1, 1⟩ = true ∧
    s.Untouched ((register.perform default).stateAfter s) ∧
    (complete.perform default).outcome s = .error .writeRefused ∧
    s.Untouched ((complete.perform default).stateAfter s) ∧
    (load.perform default).outcome s = .error .loadRefused ∧
    s.Untouched ((load.perform default).stateAfter s)
  := by
  intro s register complete
  have hs : Reachable (fun _ _ => True) (Scheduler.start .standard true Scripted.stubborn) s :=
    Reachable.start.run ⟨trivial, trivial, trivial⟩
  have hlive : s.grid.isLive ⟨1, 1⟩ = true := by decide +kernel
  have hnone : ((register.perform default).stateAfter s).store.writes = s.store.writes := by
    decide +kernel
  have hnext : s.store.writeRefusals.next = true := by decide +kernel
  have hasks : ((complete.perform default).stateAfter s).store.writes ≠ s.store.writes := by
    decide +kernel
  have hrefused : (complete.perform default).outcome s = .error .writeRefused := by
    decide +kernel
  have hload : s.store.loadRefusals.next = true := by decide +kernel
  have hfails : (load.perform default).outcome s = .error .loadRefused := by decide +kernel
  clear_value s
  have hfiled := hs.counted.filed
  obtain ⟨hregister, -⟩ := perform_untouched default hfiled register
  obtain ⟨-, hcomplete, -⟩ := perform_untouched default hfiled complete
  obtain ⟨-, -, hloading, -⟩ := perform_untouched default hfiled load
  exact ⟨hfiled, hlive, hregister nofun nofun hnone, hrefused, (hcomplete hnext hasks).2, hfails,
    (hloading rfl (Or.inl hload)).2⟩

end Operation

end ChunkDispatch
