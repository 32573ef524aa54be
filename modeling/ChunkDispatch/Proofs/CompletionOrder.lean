import ChunkDispatch.Proofs.Counters
import ChunkDispatch.Proofs.Dependents
import ChunkDispatch.Proofs.Relief
import ChunkDispatch.Proofs.Retention

/-!
# Completions in any order

Several chunks whose dependents are gathered are completed one after another.  This *finishes* them:
their trackers are settled as the retention says, and every other tracker is relieved of their keys
and reported once if that frees it.  None of this depends on the order of the completions, nor does
what the book says of the sinks.
-/

namespace ChunkDispatch

open Attempt

/-! ### The count of completed chunks -/

/-- To settle the tracker makes the completed chunks of the sink one more or one less: it is live
and retained, or completed and purged. -/
def Tracker.isRecounted (retention : Retention) (sink : Int32) (t : Tracker) : Bool :=
  t.sink = sink ∧ (t.isLive = true ↔ retention = .retain)

/-- How many chunks are completed once `m` of those recounted are settled, if `n` were before. -/
def Retention.countAfter (retention : Retention) (n m : Nat) : Nat :=
  match retention with
  | .purge => n - m
  | .retain => n + m

theorem Retention.countAfter_countAfter (retention : Retention) (n m m' : Nat) :
  retention.countAfter (retention.countAfter n m) m' = retention.countAfter n (m + m')
  := by
  cases retention with
  | purge => apply Nat.sub_sub
  | retain => apply Nat.add_assoc

theorem Tracker.isRecounted_relieved (retention : Retention) (sink : Int32) (ks : List Key)
    (t : Tracker) :
  (t.relieved ks).isRecounted retention sink = t.isRecounted retention sink
  := by
  rw [isRecounted, relieved_isLive]
  rfl

namespace Book

variable {now : Instant} {sink : Int32}

theorem count_afterChange (b : Book) (old new : Option Tracker) (status : Status) :
  (b.afterChange now old new).count sink status = b.count sink status
    - ((EventKind.ofChange? old new).any (EventKind.takes sink status)).toNat
    + ((EventKind.ofChange? old new).any (EventKind.gives sink status)).toNat
  := by
  rw [afterChange]
  cases EventKind.ofChange? old new with
  | none => rfl
  | some kind => apply count_observe

/-- No completed chunk comes or goes when trackers are released. -/
theorem count_foldl_releases {ts : List Tracker} {found : Key → Option Tracker}
    (h : ∀ u ∈ ts, ∃ t, found u.key = some t ∧ Releases t u) (b : Book) :
  (ts.foldl (fun book u => book.afterChange now (found u.key) (some u)) b).count sink .completed
    = b.count sink .completed
  := by
  induction ts generalizing b with
  | nil => rfl
  | cons u rest ih =>
    obtain ⟨t, ht, hreleases⟩ := h u List.mem_cons_self
    rw [List.foldl_cons, ih (fun v hv => h v (List.mem_cons_of_mem u hv)), ht,
      afterChange_eq hreleases]
    split
    · rfl
    · rw [count_update]
      split
      · rename_i hsink
        simp [SinkStatus.count_add, SinkStatus.count_remove, count_get, hsink]
      · rfl

theorem count_afterChange_purged (b : Book) (old : Option Tracker) :
  (b.afterChange now old none).count sink .completed
    = Retention.purge.countAfter (b.count sink .completed)
      (old.any (Tracker.isRecounted .purge sink)).toNat
  := by
  rw [count_afterChange]
  cases old with
  | none => rfl
  | some t =>
    simp [EventKind.ofChange?, EventKind.takes, EventKind.gives, Retention.countAfter,
      Tracker.isRecounted, Tracker.isLive, Status.isLive]

theorem count_afterChange_retained (b : Book) {t u : Tracker} (hsink : u.sink = t.sink)
    (hu : u.status = .completed) :
  (b.afterChange now (some t) (some u)).count sink .completed
    = Retention.retain.countAfter (b.count sink .completed)
      (t.isRecounted .retain sink).toNat
  := by
  rw [count_afterChange]
  simp [EventKind.ofChange?, EventKind.takes, EventKind.gives, Retention.countAfter,
    Tracker.isRecounted, Tracker.isLive, Status.isLive, hsink, hu]

end Book

/-! ### Undated trackers -/

namespace Grid

variable {p : Partitioner} {g g' : Grid p}

/-- What is found under a key, but for the instant of its last change. -/
def undated? (g : Grid p) (k : Key) : Option Tracker :=
  (g.find? k).map Tracker.undated

theorem any_undated? {q : Tracker → Bool} (hq : ∀ t, q t.undated = q t) (k : Key) :
  (g.undated? k).any q = (g.find? k).any q
  := by
  rw [undated?, Option.any_map]
  simp only [hq]

theorem map_undated_trackers (hg : g.WellFiled) (hg' : g'.WellFiled)
    (h : ∀ k, g.undated? k = g'.undated? k) :
  g.trackers.map Tracker.undated = g'.trackers.map Tracker.undated
  := by
  have hmap : g.oneMap.map Tracker.undated = g'.oneMap.map Tracker.undated := by
    apply SortedMap.ext
    intro k
    rw [SortedMap.find?_map, SortedMap.find?_map, find?_oneMap hg, find?_oneMap hg']
    apply h
  rw [trackers_eq hg, trackers_eq hg', ← SortedMap.values_map, hmap, SortedMap.values_map]

/-- When the trackers were last changed is no matter of the census. -/
theorem census_congr (h : g.trackers.map Tracker.undated = g'.trackers.map Tracker.undated)
    (sink : Int32) (status : Status) :
  g.census sink status = g'.census sink status
  := by
  have hundated : ∀ g : Grid p, g.census sink status
      = (g.trackers.map Tracker.undated).countP (Tracker.isOf sink status) := by
    intro g
    rw [List.countP_map]
    rfl
  rw [hundated, hundated, h]

end Grid

/-! ### Chunks which are finished -/

namespace Scheduler

variable {p : Partitioner} {σ : Type} {s s' s'' : Scheduler p σ}
variable {ks ks' : List Key} {rs rs' : List (SortedSet Key)}

/--
The chunks of `ks` are completed: their trackers are settled and all others relieved of their keys,
and the reports `rs` name each other chunk once if that frees it.
-/
structure Finishes (s : Scheduler p σ) (ks : List Key) (rs : List (SortedSet Key))
    (s' : Scheduler p σ) : Prop where
  settings : s'.settings = s.settings
  trackers : ∀ k, s'.grid.undated? k
    = (s.grid.undated? k).bind (Tracker.settled s.settings.retention ks k)
  reported : ∀ k, k ∉ ks → (rs.flatMap SortedSet.toList).count k
    = ((s.grid.undated? k).any (Tracker.isFreedBy ks)).toNat
  completed : ∀ sink, s'.book.count sink .completed
    = s.settings.retention.countAfter (s.book.count sink .completed)
      (ks.countP (fun k => (s.grid.undated? k).any (Tracker.isRecounted s.settings.retention sink)))
  live : s.Counted → s'.Counted

theorem Finishes.refl (s : Scheduler p σ) :
  s.Finishes [] [] s
  := by
  have hnone : ∀ t : Tracker, ∀ k ∈ ([] : List Key), k ∉ t.waitingOn :=
    fun _ _ hk => absurd hk List.not_mem_nil
  constructor
  · rfl
  · intro k
    have hsame : Tracker.settled s.settings.retention [] k = some := by
      funext t
      rw [Tracker.settled_of_not_mem List.not_mem_nil,
        Tracker.relieved_of_forall_not_mem (hnone t)]
    rw [hsame, Option.bind_fun_some]
  · intro k _
    have hnobody : Tracker.isFreedBy [] = fun _ => false := by
      funext t
      apply Tracker.isFreedBy_of_forall_not_mem (hnone t)
    rw [hnobody]
    cases s.grid.undated? k <;> rfl
  · intro sink
    cases s.settings.retention <;> rfl
  · exact id

/-- What a relief does not change of a tracker is as before. -/
theorem Finishes.any_undated? (h : s.Finishes ks rs s') {k : Key} (hk : k ∉ ks)
    {q : Tracker → Bool} (hq : ∀ t, q (t.relieved ks) = q t) :
  (s'.grid.undated? k).any q = (s.grid.undated? k).any q
  := by
  rw [h.trackers]
  cases s.grid.undated? k with
  | none => rfl
  | some t =>
    rw [Option.bind_some, Tracker.settled_of_not_mem hk]
    apply hq

theorem Finishes.append (h : s.Finishes ks rs s') (h' : s'.Finishes ks' rs' s'')
    (hdisjoint : ks.Disjoint ks') :
  s.Finishes (ks ++ ks') (rs ++ rs') s''
  := by
  constructor
  · rw [h'.settings, h.settings]
  · intro k
    rw [h'.trackers, h.trackers, h.settings, Option.bind_assoc]
    congr 1
    funext t
    rw [Tracker.settled_append hdisjoint]
  · intro k hk
    rw [List.mem_append, not_or] at hk
    rw [List.flatMap_append, List.count_append, h.reported k hk.1, h'.reported k hk.2, h.trackers]
    cases s.grid.undated? k with
    | none => rfl
    | some t =>
      rw [Option.bind_some, Tracker.settled_of_not_mem hk.1]
      simp only [Option.any_some, Tracker.isFreedBy_append]
      cases hfreed : t.isFreedBy ks with
      | true => simp [Tracker.isFreedBy_relieved hfreed]
      | false => simp
  · intro sink
    have hsame : ks'.countP (fun k =>
          (s'.grid.undated? k).any (Tracker.isRecounted s.settings.retention sink))
        = ks'.countP (fun k =>
          (s.grid.undated? k).any (Tracker.isRecounted s.settings.retention sink)) := by
      apply List.countP_congr
      intro k hk
      rw [h.any_undated? (fun hks => hdisjoint hks hk)]
      apply Tracker.isRecounted_relieved
    rw [h'.completed, h.completed, h.settings, hsame, Retention.countAfter_countAfter,
      List.countP_append]
  · exact fun hs => h'.live (h.live hs)

/-! ### One completion -/

variable [Store σ] [LawfulStore σ]

theorem retire_counts (hs : s.board.Working) (now : Instant) (k : Key) :
  (retire now k).Yields s (fun _ s' => s'.board.Working ∧
    ∀ sink, s'.book.count sink .completed
      = s.settings.retention.countAfter (s.book.count sink .completed)
        ((s.grid.find? k).any (Tracker.isRecounted s.settings.retention sink)).toNat)
  := by
  cases hretention : s.settings.retention with
  | purge =>
    apply (retire_yields_of_purge hs hretention now k).mono
    rintro _ s' ⟨⟨-, hdeletes⟩, -⟩
    use hdeletes.working hs
    intro sink
    rw [book, hdeletes.book (List.pairwise_singleton _ k)]
    apply Book.count_afterChange_purged
  | retain =>
    apply (retire_yields_of_retain hs hretention now k).mono
    rintro _ s' ⟨⟨-, hputs⟩, -⟩
    use hputs.working hs
    intro sink
    rw [book, hputs.book_changedAt (Change.Force.apply_key _) hs.filed, grid]
    cases s.board.grid.find? k with
    | none => rfl
    | some t =>
      apply Book.count_afterChange_retained
      · exact congrArg Lane.sink (Board.trims_amend now (Change.Force.trims _ t)).lane
      · rw [Board.amend_status]
        rfl

theorem releaseDependents_counts (hs : s.board.Working) (now : Instant) (k : Key)
    (sink' : Option Int32) :
  (releaseDependents now k sink').Yields s (fun _ s' =>
    ∀ sink, s'.book.count sink .completed = s.book.count sink .completed)
  := by
  have hkey := Change.Release.apply_key ⟨k⟩
  rw [releaseDependents, removeFromWaitingOn, Yields, ends_bind, ends_bind]
  apply (onBoard_yields (Board.adjustWhere_puts hs now _ hkey)).mono
  rintro released s' ⟨⟨ts, hts, hputs⟩, -⟩
  rw [ends_pure, ends_bind, ends_modify, ends_pure, foldl_send]
  intro sink
  have hdistinct : (ts.map Tracker.key).Nodup :=
    (hts.map _).nodup_iff.mpr (Board.nodup_changedWhere hkey _ hs.filed)
  change s'.board.book.count sink .completed = _
  rw [hputs.book hdistinct]
  apply Book.count_foldl_releases
  intro u hu
  apply Board.releases_of_mem_changedWhere hkey _ (Book.releases_release ⟨k⟩) hs.filed
    (hts.mem_iff.mp hu)

theorem complete_counts (hs : s.board.Working) (now : Instant) (k : Key) :
  (complete now k).Yields s (fun _ s' => ∀ sink, s'.book.count sink .completed
    = s.settings.retention.countAfter (s.book.count sink .completed)
      ((s.grid.find? k).any (Tracker.isRecounted s.settings.retention sink)).toNat)
  := by
  rw [complete_eq, Yields, ends_bind]
  apply (retire_counts hs now k).mono
  rintro sink' s₁ ⟨hs₁, hretired⟩
  apply (releaseDependents_counts hs₁ now k sink').mono
  intro _ s₂ hreleased sink
  rw [hreleased, hretired]

theorem complete_counted (s : Scheduler p σ) (now : Instant) (k : Key) :
  (complete now k).Ends s (fun _ s' => s.Counted → s'.Counted) (fun _ s' => s.Counted → s'.Counted)
  := by
  apply ends_imp
  intro hs
  apply ends_of_stateAfter
  have hafter := (Operation.perform_counted hs now (.complete k)).1
  rwa [Operation.perform, stateAfter_bind_pure] at hafter

omit [Store σ] [LawfulStore σ] in
theorem undated?_of_find? {now : Instant} {k : Key} {g' : Grid p} (hk : s.grid.Gathered k)
    (hfind : ∀ j, g'.find? j =
      if j = k then retired s.settings.retention now (s.grid.find? k)
      else (s.grid.find? j).map (releaseFrom now k ((s.grid.find? k).map Tracker.sink)))
    (j : Key) :
  g'.undated? j = (s.grid.undated? j).bind (Tracker.settled s.settings.retention [k] j)
  := by
  rw [Grid.undated?, hfind]
  split
  · rename_i hj
    subst hj
    have hsettled : Tracker.settled s.settings.retention [j] j
        = Tracker.kept s.settings.retention := by
      funext t
      apply Tracker.settled_of_mem List.mem_cons_self
    rw [undated_retired, hsettled]
    rfl
  · rename_i hj
    have hnot : j ∉ [k] := fun hmem => hj (List.mem_singleton.mp hmem)
    rw [Grid.undated?]
    cases ht : s.grid.find? j with
    | none => rfl
    | some t =>
      simp only [Option.map_some, Option.bind_some]
      rw [Tracker.settled_of_not_mem hnot, undated_releaseFrom]
      exact fun hmem => hk.all_sink ht hmem

omit [Store σ] [LawfulStore σ] in
/-- A key frees exactly those who are released from it. -/
theorem any_isFreedBy_iff {k : Key} (hk : s.grid.Gathered k) (j : Key) :
  (s.grid.find? j).any (Tracker.isFreedBy [k]) = true
    ↔ ∃ t, s.grid.find? j = some t ∧
      Query.WaitingFor.holds ⟨(s.grid.find? k).map Tracker.sink, k⟩ t = true ∧
      (Change.Release.apply ⟨k⟩ t).1 = true
  := by
  rw [Option.any_eq_true]
  apply exists_congr
  intro t
  apply and_congr_right
  intro ht
  rw [Change.Release.apply_eq_relieved]
  symm
  apply and_iff_right_of_imp
  intro hfreed
  obtain ⟨-, ⟨j', hj'⟩, hall⟩ := Tracker.isFreedBy_iff.mp hfreed
  obtain rfl := List.mem_singleton.mp (hall j' hj')
  rw [Query.WaitingFor.holds, decide_eq_true_iff]
  exact ⟨hk.all_sink ht hj', hj'⟩

/-- A completion finishes its chunk, and leaves those gathered who wait for another. -/
theorem complete_finishes (hs : s.board.Working) (now : Instant) {k : Key}
    (hk : s.grid.Gathered k) :
  (complete now k).Yields s (fun released s' => s'.board.Working ∧
    (∀ j, s.grid.Gathered j → s'.grid.Gathered j) ∧ s.Finishes [k] [released] s')
  := by
  have hcommits := commitsOnly_complete (p := p) (σ := σ) (F := True) now k
    (P := fun _ _ => True) (fun _ => trivial) (fun _ => trivial) (fun _ => trivial) s
  apply ((((complete_ends hs.filed now k).and hcommits).and (complete_counts hs now k)).and
    (complete_counted s now k)).mono
  · rintro released s' ⟨⟨⟨⟨-, hsettings, hreleased, hfind⟩, hcommits⟩, hcounts⟩, hcounted⟩
    have hcompletes := completes_of_find? hfind
    refine ⟨hs.commits (hcommits hs.filed), ?_, ?_⟩
    · intro j
      apply Grid.gathered_of_trims
      exact fun _ _ => hcompletes.trims
    · constructor
      · exact hsettings
      · apply undated?_of_find? hk hfind
      · intro j hj
        have hne : j ≠ k := fun heq => hj (List.mem_singleton.mpr heq)
        have hmem : j ∈ released.toList ↔ (s.grid.find? j).any (Tracker.isFreedBy [k]) = true := by
          rw [any_isFreedBy_iff hk, ← SortedSet.mem_iff, hreleased]
          apply and_iff_right hne
        rw [Grid.any_undated? (fun _ => rfl), List.flatMap_singleton, released.nodup_toList.count]
        simp only [hmem]
        cases (s.grid.find? j).any (Tracker.isFreedBy [k]) <;> rfl
      · intro sink
        rw [hcounts, List.countP_singleton, Grid.any_undated? (fun _ => rfl)]
        cases (s.grid.find? k).any (Tracker.isRecounted s.settings.retention sink) <;> rfl
      · exact hcounted
  · exact fun _ _ h => h.1.2

/-! ### Completions one after another -/

/-- Completes chunks one after another, each at its own instant; whom each completion releases. -/
def completeAll (cs : List (Instant × Key)) : Attempt (Scheduler p σ) (List (SortedSet Key)) :=
  cs.mapM (fun c => complete c.1 c.2)

theorem completeAll_finishes (hs : s.board.Working) {cs : List (Instant × Key)}
    (hdistinct : (cs.map Prod.snd).Nodup) (hgathered : ∀ c ∈ cs, s.grid.Gathered c.2) :
  (completeAll cs).Yields s (fun rs s' => s'.board.Working ∧
    s.Finishes (cs.map Prod.snd) rs s')
  := by
  induction cs generalizing s with
  | nil =>
    rw [completeAll, List.mapM_nil]
    exact ⟨hs, .refl s⟩
  | cons c rest ih =>
    obtain ⟨hne, hrest⟩ := List.nodup_cons.mp hdistinct
    rw [completeAll, List.mapM_cons, Yields, ends_bind]
    apply (complete_finishes hs c.1 (hgathered c List.mem_cons_self)).mono
    rintro released s₁ ⟨hs₁, hgathers, hfirst⟩
    rw [ends_bind]
    apply (ih hs₁ hrest (fun c' hc' => hgathers _ (hgathered c' (List.mem_cons_of_mem c hc')))).mono
    rintro rs s₂ ⟨hs₂, hothers⟩
    rw [ends_pure]
    use hs₂
    apply hfirst.append hothers
    apply List.singleton_disjoint.mpr hne

/-! ### Any order -/

/-- The keys which are reported, without those of the list. -/
def reportedBeside (ks : List Key) (rs : List (SortedSet Key)) : List Key :=
  (rs.flatMap SortedSet.toList).filter (fun k => k ∉ ks)

namespace Finishes

omit [Store σ] [LawfulStore σ]

theorem count_reportedBeside (h : s.Finishes ks rs s') (k : Key) :
  (reportedBeside ks rs).count k
    = if k ∈ ks then 0 else ((s.grid.undated? k).any (Tracker.isFreedBy ks)).toNat
  := by
  split
  · rename_i hk
    apply List.count_eq_zero_of_not_mem
    intro hmem
    apply of_decide_eq_true (List.mem_filter.mp hmem).2 hk
  · rename_i hk
    rw [reportedBeside, List.count_filter, h.reported k hk]
    apply decide_eq_true hk

/-- Each chunk beside those completed is reported at most once. -/
theorem nodup_reportedBeside (h : s.Finishes ks rs s') :
  (reportedBeside ks rs).Nodup
  := by
  apply List.nodup_iff_count_le_one.mpr
  intro k
  rw [h.count_reportedBeside]
  split
  · apply Nat.zero_le
  · apply Bool.toNat_le

variable (h : s.Finishes ks rs s') (h' : s.Finishes ks' rs' s'') (hperm : ks.Perm ks')

include h h' hperm

theorem perm_reportedBeside :
  (reportedBeside ks rs).Perm (reportedBeside ks' rs')
  := by
  apply List.perm_iff_count.mpr
  intro k
  have hfreed : Tracker.isFreedBy ks = Tracker.isFreedBy ks' := by
    funext t
    apply Tracker.isFreedBy_perm hperm
  rw [h.count_reportedBeside, h'.count_reportedBeside, hfreed]
  simp only [hperm.mem_iff]

theorem undated?_eq (k : Key) :
  s'.grid.undated? k = s''.grid.undated? k
  := by
  rw [h.trackers, h'.trackers]
  congr 1
  funext t
  apply Tracker.settled_perm hperm

theorem count_eq (hs : s.Counted) (sink : Int32) (status : Status) :
  s'.book.count sink status = s''.book.count sink status
  := by
  have hcounted := h.live hs
  have hcounted' := h'.live hs
  cases hlive : status.isLive with
  | true =>
    rw [hcounted.counts hlive, hcounted'.counts hlive]
    apply Grid.census_congr
    apply Grid.map_undated_trackers hcounted.filed hcounted'.filed (h.undated?_eq h' hperm)
  | false =>
    have hstatus : status = .completed := by simpa [Status.isLive] using hlive
    rw [hstatus, h.completed, h'.completed, hperm.countP_eq]

end Finishes

end Scheduler

/-! ### Operations and runs -/

section Runs

variable {p : Partitioner} {σ : Type} [Store σ] [LawfulStore σ]

/-- A store which works goes on working. -/
theorem Operation.perform_working {s : Scheduler p σ} (hs : s.board.Working) (now : Instant)
    (o : Operation) :
  ((o.perform now).stateAfter s).board.Working
  := by
  apply Ends.stateAfter (P := fun s' : Scheduler p σ => s'.board.Working)
  by_cases ho : o = load
  · subst ho
    rw [perform, ends_bind, Scheduler.load, ends_bind, Scheduler.ends_onBoard]
    apply (Board.loadAll_ends s.board).mono
    · rintro n _ ⟨store, ts, -, hworks, -, -, rfl⟩
      exact ⟨hworks hs.works, Grid.wellFiled_ofTrackers ts⟩
    · rintro _ _ ⟨hnot, -⟩
      exact absurd hs.works hnot
  · apply (perform_commitsOnly now ho s).mono
    · exact fun _ _ h => hs.commits (h hs.filed)
    · exact fun _ _ h => hs.commits (h hs.filed).1

theorem Reachable.working {settings : Settings} {listening : Bool} {store : σ}
    {permitted : Scheduler (.ofCount settings.partitions) σ → Operation → Prop}
    {s : Scheduler (.ofCount settings.partitions) σ} (hworks : LawfulStore.works store)
    (hs : Reachable permitted (Scheduler.start settings listening store) s) :
  s.board.Working
  := by
  induction hs with
  | start => exact ⟨hworks, Grid.wellFiled_empty⟩
  | step now o _ _ ih => apply Operation.perform_working ih

/--
After any operations over a store which works, whatever its rows, chunks whose dependents are
gathered may be completed in any order.  All completions succeed, and two orders leave the same
trackers, but for the instants of their last changes, and the same counts for all sinks.  The keys
reported beside those of the completed chunks are the same, and each is reported once.
-/
theorem completion_order_not_seen {settings : Settings} {listening : Bool} {store : σ}
    {s : Scheduler (.ofCount settings.partitions) σ} (hworks : LawfulStore.works store)
    (hs : Reachable (fun _ _ => True) (Scheduler.start settings listening store) s)
    {cs cs' : List (Instant × Key)} (hdistinct : (cs.map Prod.snd).Nodup)
    (hperm : (cs.map Prod.snd).Perm (cs'.map Prod.snd))
    (hgathered : ∀ c ∈ cs, s.grid.Gathered c.2) :
  (Scheduler.completeAll cs).Yields s (fun rs s₁ =>
    (Scheduler.completeAll cs').Yields s (fun rs' s₂ =>
      s₁.grid.trackers.map Tracker.undated = s₂.grid.trackers.map Tracker.undated ∧
        (∀ now sink status,
          (s₁.book.get now sink).count status = (s₂.book.get now sink).count status) ∧
        (Scheduler.reportedBeside (cs.map Prod.snd) rs).Nodup ∧
        (Scheduler.reportedBeside (cs'.map Prod.snd) rs').Nodup ∧
        ∀ k, k ∈ Scheduler.reportedBeside (cs.map Prod.snd) rs
          ↔ k ∈ Scheduler.reportedBeside (cs'.map Prod.snd) rs'))
  := by
  have hworking := hs.working hworks
  have hcounted := hs.counted
  have hgathered' : ∀ c ∈ cs', s.grid.Gathered c.2 := by
    intro c hc
    obtain ⟨c', hc', heq⟩ := List.mem_map.mp (hperm.mem_iff.mpr (List.mem_map_of_mem hc))
    rw [← heq]
    apply hgathered c' hc'
  apply (Scheduler.completeAll_finishes hworking hdistinct hgathered).mono
  rintro rs s₁ ⟨hs₁, h⟩
  apply (Scheduler.completeAll_finishes hworking (hperm.nodup_iff.mp hdistinct) hgathered').mono
  rintro rs' s₂ ⟨hs₂, h'⟩
  refine ⟨?_, ?_, h.nodup_reportedBeside, h'.nodup_reportedBeside, ?_⟩
  · apply Grid.map_undated_trackers hs₁.filed hs₂.filed (h.undated?_eq h' hperm)
  · intro now sink status
    rw [Book.count_get, Book.count_get, h.count_eq h' hperm hcounted]
  · exact fun _ => (h.perm_reportedBeside h' hperm).mem_iff

end Runs

/-- Chunk 1 waits for chunk 0, and chunk 3 for the chunks 1 and 2.  It is reported with the last of
them, whichever that is. -/
theorem completion_order_not_seen_of_four :
  let s := Scheduler.afterAll [.register (.sample 1 0 ["a"]) none,
    .register (.sample 1 1 ["a", "b"]) none, .register (.sample 1 2 ["c"]) none,
    .register (.sample 1 3 ["b", "c"]) none]
  let cs : List (Instant × Key) := [(default, ⟨1, 0⟩), (default, ⟨1, 1⟩), (default, ⟨1, 2⟩)]
  (cs.map Prod.snd).Nodup ∧ (cs.map Prod.snd).Perm (cs.reverse.map Prod.snd) ∧
    (∀ c ∈ cs, s.grid.Gathered c.2) ∧
    (Scheduler.completeAll cs).Yields s (fun rs s₁ =>
      (Scheduler.completeAll cs.reverse).Yields s (fun rs' s₂ =>
        s₁.grid.trackers.map Tracker.undated = s₂.grid.trackers.map Tracker.undated ∧
          ∀ k, k ∈ Scheduler.reportedBeside (cs.map Prod.snd) rs
            ↔ k ∈ Scheduler.reportedBeside (cs.reverse.map Prod.snd) rs')) ∧
    ((Scheduler.completeAll cs).outcome s).toOption.map (List.map SortedSet.toList)
      = some [[⟨1, 1⟩], [], [⟨1, 3⟩]] ∧
    ((Scheduler.completeAll cs.reverse).outcome s).toOption.map (List.map SortedSet.toList)
      = some [[], [⟨1, 3⟩], []]
  := by
  intro s cs
  have hs : Reachable (fun _ _ => True) (Scheduler.start .standard true (Memory.ofList [])) s :=
    Scheduler.reachable_afterAll ⟨trivial, trivial, trivial, trivial, trivial⟩
  have hworks : LawfulStore.works (Memory.ofList []) := trivial
  have hsinks : ∀ t ∈ s.grid.trackers, t.sink = 1 := by decide +kernel
  have hforwards : ((Scheduler.completeAll cs).outcome s).toOption.map (List.map SortedSet.toList)
      = some [[⟨1, 1⟩], [], [⟨1, 3⟩]] := by
    decide +kernel
  have hbackwards : ((Scheduler.completeAll cs.reverse).outcome s).toOption.map
      (List.map SortedSet.toList) = some [[], [⟨1, 3⟩], []] := by
    decide +kernel
  clear_value s
  have hdistinct : (cs.map Prod.snd).Nodup := by decide +kernel
  have hperm : (cs.map Prod.snd).Perm (cs.reverse.map Prod.snd) :=
    (List.reverse_perm cs).symm.map _
  have hgathered : ∀ c ∈ cs, s.grid.Gathered c.2 :=
    fun c _ => Grid.gathered_of_sink (hs.working hworks).filed hsinks c.2
  refine ⟨hdistinct, hperm, hgathered, ?_, hforwards, hbackwards⟩
  apply (completion_order_not_seen hworks hs hdistinct hperm hgathered).mono
  intro rs s₁ h
  apply h.mono
  exact fun _ _ h => ⟨h.1, h.2.2.2.2⟩

end ChunkDispatch
