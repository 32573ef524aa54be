import ChunkDispatch.Proofs.Orderly
import ChunkDispatch.Proofs.Scheduler
import ChunkDispatch.Scheduler.Completion

/-!
# What completing and purging leave behind

Completing a key leaves it not live, and takes it out of the wait sets of its sink; the trackers
under other keys stay otherwise as they are.  On an orderly grid nobody else waits for the key, so
that completing it loosens the grid.  If the key waits for nothing, the live trackers that stay go
on waiting for one another.  Purging removes what is completed.
-/

namespace ChunkDispatch

namespace Scheduler

open Attempt

variable {p : Partitioner} {σ : Type}

/-- The tracker `t` with `k` taken out of its wait set, if it belongs to the sink. -/
def releaseFrom (now : Instant) (k : Key) (sink : Option Int32) (t : Tracker) : Tracker :=
  if Query.WaitingFor.holds ⟨sink, k⟩ t then Board.amend now (Change.Release.apply ⟨k⟩) t else t

theorem releaseFrom_eases (now : Instant) (k : Key) (sink : Option Int32) (t : Tracker) :
  t.Eases (releaseFrom now k sink t)
  := by
  rw [releaseFrom]
  split
  · apply Board.eases_amend
    apply Change.Release.eases
  · apply Std.Refl.refl

theorem mem_releaseFrom (now : Instant) (k : Key) (sink : Option Int32) (t : Tracker) (j : Key) :
  j ∈ (releaseFrom now k sink t).waitingOn
    ↔ j ∈ t.waitingOn ∧ ¬ (j = k ∧ sink.all (· = t.sink) = true)
  := by
  rw [releaseFrom]
  split
  · rename_i hq
    obtain ⟨hsink, -⟩ : sink.all (· = t.sink) = true ∧ k ∈ t.waitingOn := by
      simpa [Query.WaitingFor.holds] using hq
    rw [Board.amend_waitingOn, Change.Release.mem_waitingOn]
    simp [hsink]
  · rename_i hq
    constructor
    · intro hj
      use hj
      rintro ⟨rfl, hsink⟩
      apply hq
      simpa [Query.WaitingFor.holds, hj] using hsink
    · apply And.left

theorem releaseFrom_isLive (now : Instant) (k : Key) (sink : Option Int32) (t : Tracker) :
  (releaseFrom now k sink t).isLive = t.isLive
  := by
  rw [releaseFrom]
  split
  · rw [Board.amend_isLive]
    apply Change.Release.apply_isLive
  · rfl

/--
The key `k` is not live any more and waits for nothing, and it is taken out of the wait sets of its
sink, or of all sinks if it was not tracked.
-/
structure Completes (now : Instant) (k : Key) (g g' : Grid p) : Prop where
  itself : ∀ t', g'.find? k = some t' → ∃ t, g.find? k = some t ∧ t.Trims t' ∧
    t'.isLive = false ∧ ∀ j, j ∉ t'.waitingOn
  others : ∀ k', k' ≠ k →
    g'.find? k' = (g.find? k').map (releaseFrom now k ((g.find? k).map Tracker.sink))

namespace Completes

variable {now : Instant} {k : Key} {g g' : Grid p}

/-- Every tracker left is one there was before, which may wait for fewer keys. -/
theorem trims (h : Completes now k g g') {k' : Key} {t' : Tracker} (ht' : g'.find? k' = some t') :
  ∃ t, g.find? k' = some t ∧ t.Trims t'
  := by
  by_cases hk : k' = k
  · subst hk
    obtain ⟨t, ht, htrims, -⟩ := h.itself t' ht'
    use t, ht
  · rw [h.others k' hk] at ht'
    obtain ⟨t, ht, rfl⟩ := Option.map_eq_some_iff.mp ht'
    use t, ht
    apply (releaseFrom_eases now k _ t).toTrims

theorem isLive_itself (h : Completes now k g g') :
  g'.isLive k = false
  := by
  rw [Bool.eq_false_iff]
  intro hlive
  obtain ⟨t', ht', hlive⟩ := Grid.isLive_iff.mp hlive
  obtain ⟨-, -, -, hnot, -⟩ := h.itself t' ht'
  cases hnot.symm.trans hlive

theorem isLive_others (h : Completes now k g g') {k' : Key} (hk : k' ≠ k) :
  g'.isLive k' = g.isLive k'
  := by
  rw [Grid.isLive]
  rw [h.others k' hk, Option.any_map]
  congr 1
  funext t
  apply releaseFrom_isLive

/-- On an orderly grid nobody waits for the key any more. -/
theorem not_waits (h : Completes now k g g') (hg : g.Orderly) (k' : Key) :
  ¬ g'.Waits k' k
  := by
  rintro ⟨t', ht', hj⟩
  by_cases hk : k' = k
  · subst hk
    obtain ⟨-, -, -, -, hnone⟩ := h.itself t' ht'
    apply hnone k' hj
  · rw [h.others k' hk] at ht'
    obtain ⟨t, ht, rfl⟩ := Option.map_eq_some_iff.mp ht'
    obtain ⟨hmem, hsink⟩ := (mem_releaseFrom now k _ t k).mp hj
    obtain ⟨_, _, u, hu, _, hlane, _⟩ := hg.shares k' t ht k hmem
    apply hsink ⟨rfl, ?_⟩
    have hsame : u.sink = t.sink := congrArg Lane.sink hlane
    simp [hu, hsame]

theorem loosens (h : Completes now k g g') (hg : g.Orderly) :
  g.Loosens g'
  := by
  constructor
  · intro k' t' ht'
    apply h.trims ht'
  · intro k' j hwaits hlive
    rw [h.isLive_others]
    · apply hlive
    · rintro rfl
      apply h.not_waits hg k' hwaits

/-- Completing what waits for nothing leaves all other waiting between live trackers. -/
theorem preserves (h : Completes now k g g') (hg : g.Orderly) (hfree : ∀ j, ¬ g.Waits k j) :
  g.Preserves g'
  := by
  constructor
  · intro k' t' ht' hlive'
    have hk : k' ≠ k := by
      rintro rfl
      cases h.isLive_itself.symm.trans (Grid.isLive_iff.mpr ⟨t', ht', hlive'⟩)
    rw [h.others k' hk] at ht'
    obtain ⟨t, ht, rfl⟩ := Option.map_eq_some_iff.mp ht'
    rw [releaseFrom_isLive] at hlive'
    have heases := releaseFrom_eases now k ((g.find? k).map Tracker.sink) t
    refine ⟨t, ht, hlive', heases.lane, heases.hashes, ?_⟩
    intro j hj hjlive
    apply (mem_releaseFrom now k _ t j).mpr
    use hj
    rintro ⟨rfl, -⟩
    cases h.isLive_itself.symm.trans hjlive
  · intro k' j hwaits
    rw [h.isLive_others]
    · apply hg.isLive_left hwaits
    · rintro rfl
      apply hfree j hwaits

end Completes

/-! ### Completing -/

/-- What the retention makes of the tracker of a completed chunk. -/
def retired (retention : Retention) (now : Instant) (old : Option Tracker) : Option Tracker :=
  match retention with
  | .purge => none
  | .retain => old.map (Board.amend now (Change.Force.apply ⟨.completed⟩))

/-- A tracker which is retired is not live and waits for nothing. -/
theorem of_retired_eq_some {retention : Retention} {now : Instant} {old : Option Tracker}
    {t' : Tracker} (h : retired retention now old = some t') :
  ∃ t, old = some t ∧ t.Trims t' ∧ t'.isLive = false ∧ ∀ j, j ∉ t'.waitingOn
  := by
  cases retention with
  | purge => cases h
  | retain =>
    obtain ⟨t, ht, rfl⟩ := Option.map_eq_some_iff.mp h
    refine ⟨t, ht, ?_, ?_, ?_⟩
    · apply Board.trims_amend
      apply Change.Force.trims
    · rw [Board.amend_isLive]
      rfl
    · intro j hj
      rw [Board.amend_waitingOn] at hj
      apply List.not_mem_nil hj

variable [Store σ] [LawfulStore σ] {P : Option Tracker → Option Tracker → Prop} {F : Prop}
variable {s : Scheduler p σ}

/-- The key is taken out of the wait sets of the sink; the result is whom this releases. -/
theorem removeFromWaitingOn_ends (hs : s.grid.WellFiled) (now : Instant) (k : Key)
    (sink : Option Int32) :
  (removeFromWaitingOn now k sink).Ends s
    (fun released s' => s'.ready = s.ready ∧ s'.settings = s.settings ∧
      (∀ j, j ∈ released ↔ ∃ t, s.grid.find? j = some t ∧
        Query.WaitingFor.holds ⟨sink, k⟩ t = true ∧ (Change.Release.apply ⟨k⟩ t).1 = true) ∧
      ∀ j, s'.grid.find? j = (s.grid.find? j).map (releaseFrom now k sink))
    (fun _ _ => ¬ LawfulStore.works s.board.store)
  := by
  rw [removeFromWaitingOn, ends_bind, ends_onBoard]
  apply (Board.adjustWhere_ends hs now _ (Change.Release.apply_key _)).mono
  · rintro results b ⟨hresults, hfind⟩
    rw [ends_pure]
    refine ⟨rfl, rfl, ?_, hfind⟩
    intro j
    rw [SortedSet.mem_iff, SortedMap.keySet, SortedMap.mem_keys_iff]
    simp only [SortedMap.find?_filter, hresults, Option.filter_eq_some_iff,
      Option.map_eq_some_iff]
    constructor
    · rintro ⟨_, ⟨t, ⟨ht, hq⟩, rfl⟩, hreleased⟩
      exact ⟨t, ht, hq, hreleased⟩
    · rintro ⟨t, ht, hq, hreleased⟩
      exact ⟨_, ⟨t, ⟨ht, hq⟩, rfl⟩, hreleased⟩
  · exact fun _ _ => id

/-- The tracker of the key is retired, and no other is touched; the result is its sink. -/
theorem retire_ends (hs : s.grid.WellFiled) (now : Instant) (k : Key) :
  (retire now k).Ends s
    (fun sink s' => s'.ready = s.ready ∧ s'.settings = s.settings ∧
      sink = (s.grid.find? k).map Tracker.sink ∧
      ∀ j, s'.grid.find? j =
        if j = k then retired s.settings.retention now (s.grid.find? k) else s.grid.find? j)
    (fun _ _ => ¬ LawfulStore.works s.board.store)
  := by
  rw [retire, ends_bind, ends_get]
  cases s.settings.retention with
  | purge =>
    simp only []
    rw [ends_bind, ends_onBoard]
    apply (Board.remove_ends s.board now k).mono
    · rintro old b ⟨hold, h⟩
      rw [ends_pure]
      refine ⟨rfl, rfl, congrArg _ hold, ?_⟩
      intro j
      rw [withBoard_grid s b, h.find?_grid]
      simp only [List.mem_singleton]
      rfl
    · exact fun _ _ h => h.1
  | retain =>
    simp only []
    rw [ends_bind, ends_onBoard]
    apply (Board.adjust_ends s.board now k (Change.Force.apply ⟨.completed⟩)).mono
    · rintro _ b ⟨-, h⟩
      rw [ends_pure]
      refine ⟨rfl, rfl, rfl, ?_⟩
      intro j
      rw [withBoard_grid s b, Board.find?_changedAt (Change.Force.apply_key _) hs h]
      rfl
    · exact fun _ _ h => h.1

theorem commitsOnly_removeFromWaitingOn (now : Instant) (k : Key) (sink : Option Int32)
    (hP : ∀ t, P (some t) (some (Board.amend now (Change.Release.apply ⟨k⟩) t))) :
  CommitsOnly P F
    (removeFromWaitingOn now k sink : Attempt (Scheduler p σ) (SortedSet Key))
  := by
  apply walks_bind_pure
  apply commitsOnly_onBoard
  apply Board.commitsOnly_adjustWhere now (Change.Release.apply_key _)
  exact fun t _ => hP t

theorem commitsOnly_retire (now : Instant) (k : Key) (hremove : ∀ o, P o none)
    (hforce : ∀ t, P (some t)
      (some (Board.amend now (Change.Force.apply ⟨.completed⟩) t))) :
  CommitsOnly P F (retire now k : Attempt (Scheduler p σ) (Option Int32))
  := by
  apply walks_bind walks_get
  intro s
  split
  · apply walks_bind_pure (commitsOnly_onBoard (Board.commitsOnly_remove now k hremove))
  · apply walks_bind_pure
    apply commitsOnly_adjust now k (Change.Force.apply_key _) (fun t _ => hforce t)

/-- The second part of a completion: whoever waits for the key is released from it, and sent. -/
def releaseDependents (now : Instant) (k : Key) (sink : Option Int32) :
    Attempt (Scheduler p σ) (SortedSet Key) := do
  let released ← removeFromWaitingOn now k sink
  modify (fun s => released.toList.foldl (fun s k => s.send k) s)
  return released

omit [LawfulStore σ] in
theorem complete_eq (now : Instant) (k : Key) :
  (complete now k : Attempt (Scheduler p σ) (SortedSet Key))
    = retire now k >>= releaseDependents now k
  := rfl

theorem commitsOnly_releaseDependents (now : Instant) (k : Key) (sink : Option Int32)
    (hP : ∀ t, P (some t) (some (Board.amend now (Change.Release.apply ⟨k⟩) t))) :
  CommitsOnly P F
    (releaseDependents now k sink : Attempt (Scheduler p σ) (SortedSet Key))
  := by
  apply walks_bind (commitsOnly_removeFromWaitingOn now k sink hP)
  intro released
  apply walks_bind_pure
  apply walks_modify
  intro s _
  rw [foldl_send]
  apply Relation.ReflTransGen.refl

theorem commitsOnly_complete (now : Instant) (k : Key) (hremove : ∀ o, P o none)
    (hforce : ∀ t, P (some t)
      (some (Board.amend now (Change.Force.apply ⟨.completed⟩) t)))
    (hrelease : ∀ t, P (some t) (some (Board.amend now (Change.Release.apply ⟨k⟩) t))) :
  CommitsOnly P F (complete now k : Attempt (Scheduler p σ) (SortedSet Key))
  := by
  rw [complete_eq]
  apply walks_bind (commitsOnly_retire now k hremove hforce)
  exact fun sink => commitsOnly_releaseDependents now k sink hrelease

/-- The key is taken out of the wait sets of the sink, and whom this releases is sent. -/
theorem releaseDependents_ends (hs : s.grid.WellFiled) (now : Instant) (k : Key)
    (sink : Option Int32) :
  (releaseDependents now k sink).Ends s
    (fun released s' =>
      s'.ready = ⟨s.ready.listening,
        s.ready.sent ++ if s.ready.listening then released.toList else []⟩ ∧
      s'.settings = s.settings ∧
      (∀ j, j ∈ released ↔ ∃ t, s.grid.find? j = some t ∧
        Query.WaitingFor.holds ⟨sink, k⟩ t = true ∧ (Change.Release.apply ⟨k⟩ t).1 = true) ∧
      ∀ j, s'.grid.find? j = (s.grid.find? j).map (releaseFrom now k sink))
    (fun _ _ => ¬ LawfulStore.works s.board.store)
  := by
  rw [releaseDependents, ends_bind]
  apply (removeFromWaitingOn_ends hs now k sink).mono
  · rintro released s₁ ⟨hready, hsettings, hreleased, hfind⟩
    rw [ends_bind, ends_modify, ends_pure, foldl_send, hready]
    exact ⟨rfl, hsettings, hreleased, hfind⟩
  · exact fun _ _ => id

/--
The tracker of the key is retired, the key is taken out of the other wait sets of its sink, and
whom this releases is sent.
-/
theorem complete_ends (hs : s.grid.WellFiled) (now : Instant) (k : Key) :
  (complete now k).Ends s
    (fun released s' =>
      s'.ready = ⟨s.ready.listening,
        s.ready.sent ++ if s.ready.listening then released.toList else []⟩ ∧
      s'.settings = s.settings ∧
      (∀ j, j ∈ released ↔ j ≠ k ∧ ∃ t, s.grid.find? j = some t ∧
        Query.WaitingFor.holds ⟨(s.grid.find? k).map Tracker.sink, k⟩ t = true ∧
        (Change.Release.apply ⟨k⟩ t).1 = true) ∧
      ∀ j, s'.grid.find? j =
        if j = k then retired s.settings.retention now (s.grid.find? k)
        else (s.grid.find? j).map (releaseFrom now k ((s.grid.find? k).map Tracker.sink)))
    (fun _ _ => ¬ LawfulStore.works s.board.store)
  := by
  have hretire := commitsOnly_retire (p := p) (σ := σ) (F := True) now k
    (P := fun _ _ => True) (fun _ => trivial) (fun _ => trivial) s
  -- What is retired waits for nothing, so it is not among those released from the key.
  have hitself : ∀ t', retired s.settings.retention now (s.grid.find? k) = some t' →
      ∀ sink, Query.WaitingFor.holds ⟨sink, k⟩ t' = false := by
    intro t' ht' sink
    obtain ⟨-, -, -, -, hnone⟩ := of_retired_eq_some ht'
    simp [Query.WaitingFor.holds, hnone k]
  rw [complete_eq, ends_bind]
  apply ((retire_ends hs now k).and hretire).mono
  · rintro sink s₁ ⟨⟨hready₁, hsettings₁, rfl, hfind₁⟩, hcommits⟩
    have hcommits := hcommits hs
    apply (releaseDependents_ends (hcommits.filed hs) now k _).mono
    · rintro released s₂ ⟨hready₂, hsettings₂, hreleased, hfind₂⟩
      refine ⟨?_, ?_, ?_, ?_⟩
      · rw [hready₂, hready₁]
      · rw [hsettings₂, hsettings₁]
      · intro j
        rw [hreleased, hfind₁]
        by_cases hj : j = k
        · rw [if_pos hj]
          constructor
          · rintro ⟨t', ht', hq, -⟩
            cases (hitself t' ht' _).symm.trans hq
          · exact fun h => absurd hj h.1
        · simp [hj]
      · intro j
        rw [hfind₂, hfind₁]
        split
        · cases ht' : retired s.settings.retention now (s.grid.find? k) with
          | none => rfl
          | some t' =>
            rw [Option.map_some, releaseFrom, hitself t' ht']
            rfl
        · rfl
    · exact fun _ _ hnot h => hnot (hcommits.works h)
  · exact fun _ _ h => h.1

omit [Store σ] [LawfulStore σ] in
/-- What is found after the completion of a key says that it is completed. -/
theorem completes_of_find? {now : Instant} {k : Key} {g' : Grid p}
    (hfind : ∀ j, g'.find? j =
      if j = k then retired s.settings.retention now (s.grid.find? k)
      else (s.grid.find? j).map (releaseFrom now k ((s.grid.find? k).map Tracker.sink))) :
  Completes now k s.grid g'
  := by
  constructor
  · intro t' ht'
    rw [hfind, if_pos rfl] at ht'
    apply of_retired_eq_some ht'
  · intro j hj
    rw [hfind, if_neg hj]

theorem complete_yields (hs : s.board.Sound) (now : Instant) (k : Key) :
  (complete now k).Yields s (fun _ s' => s'.board.Sound ∧ Completes now k s.grid s'.grid)
  := by
  have hcommits := commitsOnly_complete (p := p) (σ := σ) (F := True) now k
    (P := fun _ _ => True) (fun _ => trivial) (fun _ => trivial) (fun _ => trivial) s
  apply ((complete_ends hs.filed now k).and hcommits).mono
  · rintro released s' ⟨⟨-, -, -, hfind⟩, hcommits⟩
    exact ⟨hs.commits (hcommits hs.filed), completes_of_find? hfind⟩
  · exact fun _ _ h => h.1 hs.works

/-! ### Removing -/

theorem remove_yields (hs : s.board.Sound) (now : Instant) (k : Key) :
  (remove now k).Yields s (fun _ s' => s'.board.Sound ∧ s'.grid = s.grid.erase k)
  := by
  rw [remove, Yields, ends_onBoard]
  apply (Board.remove_yields hs now k).ends
  rintro _ b ⟨hb, _, hgrid⟩
  exact ⟨hb, hgrid⟩

theorem removeJob_yields (hs : s.board.Sound) (now : Instant) (job : Int32) :
  (removeJob now job).Yields s (fun _ s' => s'.board.Sound ∧
    ∀ k, s'.grid.find? k = (s.grid.find? k).filter (fun t => !Query.OfJob.holds ⟨job⟩ t))
  := by
  rw [removeJob, Yields, ends_onBoard]
  apply (Board.removeWhere_yields hs now _).ends
  intro _ b h
  apply h

/-- What is not completed stays as it is. -/
theorem purge_yields (hs : s.board.Sound) (now : Instant) :
  (purge now).Yields s (fun _ s' => s'.board.Sound ∧
    ∀ k, s'.grid.find? k = (s.grid.find? k).filter Tracker.isLive)
  := by
  rw [purge, Yields, ends_onBoard]
  apply (Board.removeWhere_yields hs now _).ends
  rintro _ b ⟨hb, hfind⟩
  use hb
  intro k
  rw [withBoard_grid s b, hfind]
  congr 1
  funext t
  simp [Query.ByStatus.holds, Tracker.isLive, Status.isLive]

end Scheduler

namespace Grid

variable {p : Partitioner} {g g' : Grid p}

theorem isLive_of_filter {p' : Partitioner} {g' : Grid p'}
    (h : ∀ k, g'.find? k = (g.find? k).filter Tracker.isLive) (k : Key) :
  g'.isLive k = g.isLive k
  := by
  rw [Bool.eq_iff_iff, isLive_iff, isLive_iff]
  simp [h, Option.filter_eq_some_iff]

theorem loosens_of_filter (h : ∀ k, g'.find? k = (g.find? k).filter Tracker.isLive) :
  g.Loosens g'
  := by
  constructor
  · intro k t ht
    rw [h, Option.filter_eq_some_iff] at ht
    use t, ht.1
    apply Std.Refl.refl
  · intro _ j _ hj
    rw [isLive_of_filter h, hj]

theorem preserves_of_filter (h : ∀ k, g'.find? k = (g.find? k).filter Tracker.isLive)
    (hg : g.Orderly) :
  g.Preserves g'
  := by
  constructor
  · intro k t ht hlive
    rw [h, Option.filter_eq_some_iff] at ht
    exact ⟨t, ht.1, hlive, rfl, rfl, fun _ hj _ => hj⟩
  · intro k j hwaits
    rw [isLive_of_filter h]
    apply hg.isLive_left hwaits

end Grid

end ChunkDispatch
