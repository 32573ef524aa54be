import ChunkDispatch.Proofs.Census

/-!
# The counts of the book

The book *follows* the log if its counts are those which the events since some moment make of the
counts at that moment.  Every operation but loading and recounting leaves a book which follows the
log; so the live counts of the book are those of the trackers at all times, whatever operations are
made and however they end, and none of them is ever lowered from zero.
-/

namespace ChunkDispatch

open Attempt

/-! ### What replaces a live tracker -/

/-- No operation but a registration replaces a tracker by one of another sink. -/
theorem allows_keepsSink (now : Instant) (status : Status) :
  Allows now (EventKind.KeepsSink status)
  := by
  have hamend : ∀ {α : Type} {f : Tracker → α × Tracker} {t : Tracker}, t.Trims (f t).2 →
      EventKind.KeepsSink status (some t) (some (Board.amend now f t)) := by
    intro α f t htrims _ _ ht hu _
    cases ht
    cases hu
    exact congrArg Lane.sink (Board.trims_amend now htrims).lane
  refine ⟨⟨?_, ?_, ?_, ?_, ?_⟩, ?_⟩
  · exact fun c t => hamend (c.eases t).toTrims
  · exact fun c t => hamend (c.trims t)
  · exact fun hsource htarget t => hamend (Change.Move.trims hsource htarget t)
  · exact fun c t => hamend (c.steady t).eases.toTrims
  · intro _ _ _ _ hu
    cases hu
  · exact fun c t => hamend (c.steady t).eases.toTrims

/-- A live tracker is never replaced by one of another sink. -/
theorem Replaces.keepsSink {now : Instant} {old new : Option Tracker} (h : Replaces now old new)
    {status : Status} (hlive : status.isLive = true) :
  EventKind.KeepsSink status old new
  := by
  have hallows := allows_keepsSink now status
  cases h with
  | enrol hold _ _ =>
    intro t _ ht _ hstatus
    subst ht
    have hnot : t.status.isLive = false := hold
    rw [hstatus, hlive] at hnot
    cases hnot
  | release c t => apply hallows.release c t
  | force c t => apply hallows.force c t
  | move hsource htarget t => apply hallows.move hsource htarget t
  | raise c t => apply hallows.raise c t
  | resend c t => apply hallows.resend c t
  | remove => apply hallows.remove

/-! ### Books which follow the log -/

namespace Board

variable {p : Partitioner} {σ : Type} {b b' b'' : Board p σ}

/-- The book is what the events since `b` make of the book of `b`. -/
def Follows (b b' : Board p σ) : Prop :=
  ∃ es, b'.log = b.log ++ es ∧ b'.book = b.book.observeAll es

theorem Follows.refl (b : Board p σ) :
  b.Follows b
  := ⟨[], (List.append_nil _).symm, rfl⟩

theorem Follows.trans (h : b.Follows b') (h' : b'.Follows b'') :
  b.Follows b''
  := by
  obtain ⟨es, hlog, hbook⟩ := h
  obtain ⟨es', hlog', hbook'⟩ := h'
  use es ++ es'
  rw [hlog', hlog, hbook', hbook, List.append_assoc, Book.observeAll_append]
  exact ⟨rfl, rfl⟩

instance : Composes (Follows (p := p) (σ := σ)) Follows where
  refl := Follows.refl
  trans := Follows.trans
  last := Follows.trans

theorem emit_follows (now : Instant) (old new : Option Tracker) (g' : Grid p) (b : Board p σ) :
  b.Follows (emit now old new { b with grid := g' })
  := by
  rw [emit]
  split
  · exact ⟨[], (List.append_nil _).symm, rfl⟩
  · exact ⟨[_], rfl, rfl⟩

/-- The book takes note of each event when it is told. -/
theorem steps_follows (now : Instant) :
  Steps (p := p) (σ := σ) now Follows Follows
  := by
  constructor
  · intro α x b
    rw [onStore, ends_within]
    apply ends_of_forall
    · exact fun _ _ => Follows.refl b
    · exact fun _ _ => Follows.refl b
  · exact fun t b => emit_follows now _ _ _ b
  · exact fun k b => emit_follows now _ _ _ b

end Board

namespace Scheduler

variable {p : Partitioner} {σ : Type} {s s' s'' : Scheduler p σ}

/-- The counts of the book are what the events since `s` make of the counts of `s`. -/
def Follows (s s' : Scheduler p σ) : Prop :=
  ∃ es, s'.board.log = s.board.log ++ es ∧
    ∀ sink status, s'.book.count sink status = (s.book.observeAll es).count sink status

theorem follows_of_book (hlog : s'.board.log = s.board.log)
    (hbook : ∀ sink status, s'.book.count sink status = s.book.count sink status) :
  s.Follows s'
  := ⟨[], by rw [hlog, List.append_nil], hbook⟩

theorem Follows.trans (h : s.Follows s') (h' : s'.Follows s'') :
  s.Follows s''
  := by
  obtain ⟨es, hlog, hbook⟩ := h
  obtain ⟨es', hlog', hbook'⟩ := h'
  use es ++ es'
  constructor
  · rw [hlog', hlog, List.append_assoc]
  · intro sink status
    rw [hbook', Book.count_observeAll_congr hbook, Book.observeAll_append]

instance : Composes (Follows (p := p) (σ := σ)) Follows where
  refl _ := follows_of_book rfl (fun _ _ => rfl)
  trans := Follows.trans
  last := Follows.trans

theorem walks_follows {α : Type} {x : Attempt (Board p σ) α}
    (hx : x.Walks Board.Follows Board.Follows) :
  (onBoard x).Walks Follows Follows
  := by
  have h : ∀ (s : Scheduler p σ) b, s.board.Follows b → s.Follows { s with board := b } := by
    rintro s b ⟨es, hlog, hbook⟩
    use es, hlog
    intro sink status
    change b.book.count sink status = _
    rw [hbook]
    rfl
  apply walks_within hx h h

variable [Store σ]

theorem steps_follows (now : Instant) :
  Steps (p := p) (σ := σ) now Follows Follows
  := by
  have h := (Board.steps_follows (p := p) (σ := σ) now).writes
  constructor
  · exact fun t => walks_follows (h.set t)
  · exact fun k => walks_follows (h.walks_remove k)
  · exact fun q => walks_follows (h.walks_removeWhere q)
  · exact fun k f => walks_follows (h.walks_adjust k f)
  · exact fun q f => walks_follows (h.walks_adjustWhere q f)
  · intro k s
    apply follows_of_book
    · rw [send_board]
    · intro sink status
      rw [book, send_board]
      rfl
  · intro sink phase s
    apply follows_of_book
    · rfl
    · exact fun _ _ => Book.count_updateMode _ _ now sink phase
  · intro sink phase mode s
    apply follows_of_book
    · rfl
    · exact fun _ _ => Book.count_setMode now sink phase mode
  · exact fun s => follows_of_book rfl (fun _ _ => rfl)

end Scheduler

/-! ### Recounting -/

namespace Tally

section Listed

variable {now : Instant} {sinks : SortedSet Int32} {sink : Int32}

theorem find?_add_statusCounts (hempty : sinks.isEmpty = false) (hsink : sink ∉ sinks)
    (t : Tracker) {m : SortedMap Int32 SinkStatus} (hm : m.find? sink = none) :
  ((statusCounts now sinks).add m t).find? sink = none
  := by
  simp only [statusCounts]
  split
  · rename_i hwanted
    rw [SortedMap.find?_alter, if_neg, hm]
    rintro rfl
    simp [hempty, hsink] at hwanted
  · exact hm

/-- No sink is counted but those asked for. -/
theorem find?_statusCounts (hempty : sinks.isEmpty = false) (hsink : sink ∉ sinks)
    (parts : List (List Tracker)) :
  ((statusCounts now sinks).ofParts parts).find? sink = none
  := by
  rw [(addsUp_statusCounts now sinks).ofParts_eq]
  have h : ∀ (ts : List Tracker) (m : SortedMap Int32 SinkStatus), m.find? sink = none →
      (ts.foldl (statusCounts now sinks).add m).find? sink = none := by
    intro ts
    induction ts with
    | nil => exact fun _ => id
    | cons t rest ih => exact fun m hm => ih _ (find?_add_statusCounts hempty hsink t hm)
  apply h parts.flatten _ (SortedMap.find?_empty sink)

end Listed

end Tally

namespace Scheduler

variable {p : Partitioner} {σ : Type} {s : Scheduler p σ} {status : Status}

/-- All sinks are counted as the census says. -/
theorem counts_recount_all (hs : s.grid.WellFiled) (now : Instant) (status : Status) :
  (s.recount now ∅).book.Counts status s.grid
  := by
  intro sink
  rw [← Book.count_get _ now]
  apply count_recount hs

/-- A listed sink is counted as the census says, another sink as before. -/
theorem count_recount_listed (hs : s.grid.WellFiled) (now : Instant) {sinks : SortedSet Int32}
    (hempty : sinks.isEmpty = false) (sink : Int32) :
  (s.recount now sinks).book.count sink status
    = if sink ∈ sinks then s.grid.census sink status else s.book.count sink status
  := by
  have hfind : ∀ counts : SortedMap Int32 SinkStatus,
      (s.book.replace counts (some sinks.toList)).count sink status
        = ((counts.find? sink).or (if sink ∈ sinks then none else s.book.sinks.find? sink)).elim 0
          (fun c => c.count status) := by
    intro counts
    simp only [Book.replace, Book.count, SinkStatus.countIn, SortedMap.find?_union,
      SortedMap.find?_eraseAll, SortedSet.mem_iff]
  rw [recount]
  simp only [hempty]
  change (s.book.replace _ (some sinks.toList)).count sink status = _
  rw [hfind, SortedMap.find?_map]
  split
  · rename_i hsink
    have hcounted : Tally.IsCounted sinks sink status = Tracker.isOf sink status := by
      funext t
      simp only [Tally.IsCounted, Tracker.isOf]
      congr 1
      apply propext
      constructor
      · exact fun h => ⟨h.1, h.2.1⟩
      · rintro ⟨rfl, hstatus⟩
        exact ⟨rfl, hstatus, Or.inr hsink⟩
    rw [Grid.census, ← hcounted, ← countIn_statusCounts hs now, SinkStatus.countIn]
    cases (s.statusCounts now sinks).find? sink with
    | none => rfl
    | some c => simp [SinkStatus.count_setMode]
  · rename_i hsink
    rw [statusCounts, Grid.tally, Tally.find?_statusCounts hempty hsink]
    rfl

/-- A right book is right when any of its sinks were counted anew. -/
theorem counts_recount (hs : s.grid.WellFiled) (now : Instant) (sinks : SortedSet Int32)
    (h : s.book.Counts status s.grid) :
  (s.recount now sinks).book.Counts status s.grid
  := by
  cases hempty : sinks.isEmpty with
  | true =>
    rw [SortedSet.isEmpty_iff.mp hempty]
    apply counts_recount_all hs
  | false =>
    intro sink
    rw [count_recount_listed hs now hempty]
    split
    · rfl
    · apply h

/-! ### Live counts -/

/-- The grid is well filed, and the book is right in every live status. -/
structure Counted (s : Scheduler p σ) : Prop where
  filed : s.grid.WellFiled
  counts : ∀ {status : Status}, status.isLive = true → s.book.Counts status s.grid

/-- Nothing is counted at the start, and nothing is there. -/
theorem counts_start (settings : Settings) (listening : Bool) (store : σ) (status : Status) :
  (start settings listening store).book.Counts status (start settings listening store).grid
  := by
  intro sink
  have hnone : (Grid.empty (.ofCount settings.partitions)).trackers = [] := by
    apply List.eq_nil_iff_forall_not_mem.mpr
    intro t ht
    cases (Grid.find?_empty t.key).symm.trans ((Grid.mem_trackers Grid.wellFiled_empty).mp ht)
  change 0 = List.countP _ (Grid.trackers (Grid.empty _))
  rw [hnone]
  rfl

theorem counted_start (settings : Settings) (listening : Bool) (store : σ) :
  (start settings listening store).Counted
  := ⟨Grid.wellFiled_empty, fun _ => counts_start settings listening store _⟩

variable [Store σ] [LawfulStore σ]

/-- Loading counts all sinks anew, and tells of no event. -/
theorem load_counts (hs : s.grid.WellFiled) (now : Instant) :
  ((load now).stateAfter s).grid.WellFiled ∧
    ((load now).stateAfter s).board.log = s.board.log ∧
    ∀ status, s.book.Counts status s.grid →
      ((load now).stateAfter s).book.Counts status ((load now).stateAfter s).grid
  := by
  apply Ends.stateAfter (P := fun s' : Scheduler p σ => s'.grid.WellFiled ∧
    s'.board.log = s.board.log ∧
    ∀ status, s.book.Counts status s.grid → s'.book.Counts status s'.grid)
  rw [load, ends_bind, ends_onBoard]
  apply (Board.loadAll_ends s.board).mono
  · rintro n _ ⟨store, ts, -, -, -, -, rfl⟩
    rw [ends_bind, ends_modify, ends_pure]
    refine ⟨Grid.wellFiled_ofTrackers ts, rfl, ?_⟩
    intro status _
    apply counts_recount_all (s := { s with board := _ })
    apply Grid.wellFiled_ofTrackers ts
  · rintro _ _ ⟨-, store, -, rfl⟩
    exact ⟨hs, rfl, fun _ => id⟩

theorem load_counted (hs : s.Counted) (now : Instant) :
  ((load now).stateAfter s).Counted ∧ ((load now).stateAfter s).board.log = s.board.log
  := by
  obtain ⟨hfiled, hlog, hcounts⟩ := load_counts hs.filed now
  exact ⟨⟨hfiled, fun hlive => hcounts _ (hs.counts hlive)⟩, hlog⟩

end Scheduler

variable {p : Partitioner} {σ : Type} [Store σ] [LawfulStore σ]

namespace Operation

variable {s : Scheduler p σ} {o : Operation}

/-- The events of an operation other than loading account for what it does to the live trackers. -/
theorem perform_accounts (hs : s.grid.WellFiled) (now : Instant) (hload : o ≠ load) :
  ((o.perform now).stateAfter s).grid.WellFiled ∧
    ∀ status, status.isLive = true → s.board.Accounts status ((o.perform now).stateAfter s).board
  := by
  have hcommits : s.board.Commits (Replaces now) ((o.perform now).stateAfter s).board := by
    apply Ends.stateAfter
      (P := fun s' : Scheduler p σ => s.board.Commits (Replaces now) s'.board)
    apply (perform_commitsOnly now hload s).mono
    · exact fun _ _ h => h hs
    · exact fun _ _ h => (h hs).1
  use hcommits.filed hs
  intro status hlive
  apply hcommits.accounts _ hs
  exact fun _ _ h => h.keepsSink hlive

omit [LawfulStore σ] in
/-- The book follows the log. -/
theorem perform_follows (now : Instant) (hload : o ≠ load) (hrecount : ∀ sinks, o ≠ recount sinks)
    (s : Scheduler p σ) :
  s.Follows ((o.perform now).stateAfter s)
  := ((Scheduler.steps_follows now).walks_perform hload hrecount s).stateAfter

/--
Every operation leaves a book with right live counts; its events take only chunks which are
counted, and make of the live counts before it those after it, unless it loads.
-/
theorem perform_counted (hs : s.Counted) (now : Instant) (o : Operation) :
  ((o.perform now).stateAfter s).Counted ∧
    ∃ es, ((o.perform now).stateAfter s).board.log = s.board.log ++ es ∧
      ∀ status, status.isLive = true → s.book.Affords status es ∧
        (o ≠ load → ∀ sink, ((o.perform now).stateAfter s).book.count sink status
          = (s.book.observeAll es).count sink status)
  := by
  -- Loading and recounting set the book without an event; otherwise it follows the log.
  by_cases hload : o = load
  · subst hload
    obtain ⟨hcounted, hlog⟩ := Scheduler.load_counted hs now
    rw [perform, stateAfter_bind_pure]
    refine ⟨hcounted, [], ?_, ?_⟩
    · rw [hlog, List.append_nil]
    · exact fun _ _ => ⟨trivial, fun hnot => absurd rfl hnot⟩
  · by_cases hrecount : ∃ sinks, o = recount sinks
    · obtain ⟨sinks, rfl⟩ := hrecount
      have hcounts : ∀ {status : Status}, status.isLive = true →
          (s.recount now sinks).book.Counts status s.grid :=
        fun hlive => Scheduler.counts_recount hs.filed now sinks (hs.counts hlive)
      refine ⟨⟨hs.filed, hcounts⟩, [], (List.append_nil _).symm, ?_⟩
      intro status hlive
      use trivial
      intro _ sink
      exact (hcounts hlive sink).trans (hs.counts hlive sink).symm
    · obtain ⟨es, hlog, hbook⟩ := perform_follows now hload (not_exists.mp hrecount) s
      obtain ⟨hfiled, haccounts⟩ := perform_accounts hs.filed now hload
      have hes : ∀ {status : Status}, status.isLive = true → s.book.Affords status es ∧
          (s.book.observeAll es).Counts status ((o.perform now).stateAfter s).grid := by
        intro status hlive
        obtain ⟨es', hlog', hes'⟩ := haccounts status hlive
        obtain rfl : es = es' := List.append_cancel_left (hlog.symm.trans hlog')
        apply hes' _ (hs.counts hlive)
      refine ⟨⟨hfiled, ?_⟩, es, hlog, ?_⟩
      · intro status hlive sink
        rw [hbook]
        apply (hes hlive).2
      · exact fun status hlive => ⟨(hes hlive).1, fun _ sink => hbook sink status⟩

end Operation

omit [LawfulStore σ] in
theorem Reachable.settings_eq {permitted : Scheduler p σ → Operation → Prop}
    {s₀ s : Scheduler p σ} (hs : Reachable permitted s₀ s) :
  s.settings = s₀.settings
  := by
  induction hs with
  | start => rfl
  | step now o _ _ ih => rw [Operation.perform_settings, ih]

/-- Whatever operations are permitted, the live counts stay right. -/
theorem Reachable.counted {settings : Settings} {listening : Bool} {store : σ}
    {permitted : Scheduler (.ofCount settings.partitions) σ → Operation → Prop}
    {s : Scheduler (.ofCount settings.partitions) σ}
    (hs : Reachable permitted (Scheduler.start settings listening store) s) :
  s.Counted
  := by
  induction hs with
  | start => apply Scheduler.counted_start
  | step now o _ _ ih => apply (Operation.perform_counted ih now o).1

/--
Over any store, whatever of its actions it refuses, and after any operations, the book counts for
every sink as many chunks in a live status as there are trackers of the sink in that status.  What
the events of the next operation take out of a live status was counted before, one after another,
and unless it loads these events make of the counts before it those after it.
-/
theorem book_counts_live {settings : Settings} {listening : Bool} {store : σ}
    {s : Scheduler (.ofCount settings.partitions) σ}
    (hs : Reachable (fun _ _ => True) (Scheduler.start settings listening store) s)
    {status : Status} (hlive : status.isLive = true) :
  (∀ now sink, (s.book.get now sink).count status
      = s.grid.trackers.countP (fun t => t.sink = sink ∧ t.status = status)) ∧
    ∀ now (o : Operation), ∃ es,
      ((o.perform now).stateAfter s).board.log = s.board.log ++ es ∧
      s.book.Affords status es ∧
      (o ≠ .load → ∀ sink, ((o.perform now).stateAfter s).book.count sink status
        = (s.book.observeAll es).count sink status)
  := by
  have hcounted := hs.counted
  constructor
  · intro now sink
    rw [Book.count_get]
    apply hcounted.counts hlive
  · intro now o
    obtain ⟨-, es, hlog, hes⟩ := Operation.perform_counted hcounted now o
    exact ⟨es, hlog, hes status hlive⟩

/-- Chunk 1 waits for chunk 0, whose removal the store refuses; completed again, it is released. -/
theorem book_counts_live_of_stubborn :
  let s := (Operation.run (Scheduler.start .standard true Scripted.stubborn) [
    (default, .load), (default, .register (.sample 1 1 ["a"]) none),
    (default, .complete ⟨1, 0⟩), (default, .recount (.ofList [2]))]).2
  Status.blocked.isLive = true ∧ (s.book.get default 1).count .blocked = 1 ∧
    ∃ es, (((Operation.complete ⟨1, 0⟩).perform default).stateAfter s).board.log
        = s.board.log ++ es ∧
      (∃ e ∈ es, e.kind.takes 1 .blocked = true) ∧ s.book.Affords .blocked es
  := by
  intro s
  have hs : Reachable (fun _ _ => True) (Scheduler.start .standard true Scripted.stubborn) s :=
    Reachable.start.run ⟨trivial, trivial, trivial, trivial, trivial⟩
  have htracked : s.grid.trackers.countP (fun t => t.sink = 1 ∧ t.status = .blocked) = 1 := by
    decide +kernel
  have htakes : ∃ e ∈ ((((Operation.complete ⟨1, 0⟩).perform default).stateAfter s).board.log).drop
      s.board.log.length, e.kind.takes 1 .blocked = true := by
    decide +kernel
  clear_value s
  have hlive : Status.blocked.isLive = true := rfl
  obtain ⟨hcounts, hnext⟩ := book_counts_live hs hlive
  obtain ⟨es, hlog, haffords, -⟩ := hnext default (.complete ⟨1, 0⟩)
  refine ⟨hlive, ?_, es, hlog, ?_, haffords⟩
  · rw [hcounts, htracked]
  · rwa [hlog, List.drop_left] at htakes

end ChunkDispatch
