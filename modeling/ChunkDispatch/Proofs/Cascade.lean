import ChunkDispatch.Proofs.Run

/-!
# The cascade of a completion

A tracker *depends* on a key if it waits for it and, when the key is tracked, goes to the same sink.
If all trackers are consistent, completing a key retires its tracker, takes the key out of the wait
sets of those which depend on it, and leaves all else as it is.  Those which waited for the key
alone are released: they are queued and sent.  Completing the key again does nothing, once nobody
else waits for it.
-/

namespace ChunkDispatch

open Attempt

/-! ### The trackers of a cascade -/

theorem SortedSet.isEmpty_erase_iff {α : Type} [LT α] [LE α] [Std.IsLinearOrder α]
    [Std.LawfulOrderLT α] [DecidableEq α] {s : SortedSet α} {a : α} (ha : a ∈ s) :
  (s.erase a).isEmpty = true ↔ s.toList = [a]
  := by
  constructor
  · intro hempty
    have honly : ∀ b ∈ s, b = a := by
      intro b hb
      by_cases hba : b = a
      · exact hba
      · have hmem : b ∈ s.erase a := mem_erase.mpr ⟨hb, hba⟩
        rw [isEmpty_iff.mp hempty] at hmem
        exact absurd hmem List.not_mem_nil
    have hsingle : s = ⟨[a], List.pairwise_singleton _ _⟩ := by
      apply ext
      intro b
      rw [mem_iff (s := ⟨[a], _⟩), List.mem_singleton]
      constructor
      · apply honly
      · rintro rfl
        apply ha
    rw [hsingle]
  · intro hs
    change (s.toList.filter (fun b => decide (b ≠ a))).isEmpty = true
    rw [hs]
    simp

namespace Tracker

/-- The tracker without `k` in its wait set, queued if nothing is left of it. -/
def released (now : Instant) (k : Key) (t : Tracker) : Tracker :=
  { t with
    waitingOn := t.waitingOn.erase k
    status := if t.waitingOn.toList = [k] then .queuedForProcessing else .blocked
    lastModified := now.wholeMicros }

/-- The tracker as completed, which it may be already. -/
def completed (now : Instant) (t : Tracker) : Tracker :=
  if t.status = .completed then t
  else { t with waitingOn := ∅, status := .completed, lastModified := now.wholeMicros }

theorem completed_status (now : Instant) (t : Tracker) :
  (t.completed now).status = .completed
  := by
  rw [completed]
  split
  · assumption
  · rfl

variable {t : Tracker} {k : Key}

theorem isConsistent_completed (now : Instant) (ht : t.isConsistent = true) :
  (t.completed now).isConsistent = true
  := by
  rw [completed]
  split
  · exact ht
  · rfl

/-- A completed tracker which is consistent waits for nothing. -/
theorem waitingOn_of_completed (ht : t.isConsistent = true) (hstatus : t.status = .completed) :
  t.waitingOn = ∅
  := by
  apply SortedSet.isEmpty_iff.mp
  simpa [isConsistent, hstatus] using ht

end Tracker

namespace Change

variable {t : Tracker} {k : Key}

/-- A consistent tracker is released by a key exactly if it waits for that key alone. -/
theorem Release.apply_eq (ht : t.isConsistent = true) (hk : k ∈ t.waitingOn) :
  (Release.apply ⟨k⟩ t) = (decide (t.waitingOn.toList = [k]),
    { t with
      waitingOn := t.waitingOn.erase k
      status := if t.waitingOn.toList = [k] then .queuedForProcessing else .blocked })
  := by
  have hblocked : t.status = .blocked := (Tracker.isConsistent_iff.mp ht).mpr ⟨k, hk⟩
  rw [Release.apply, if_pos hk]
  simp only [hblocked, and_true, SortedSet.isEmpty_erase_iff hk]
  by_cases hlast : t.waitingOn.toList = [k] <;> simp [hlast]

theorem amend_release (now : Instant) (ht : t.isConsistent = true) (hk : k ∈ t.waitingOn) :
  Board.amend now (Release.apply ⟨k⟩) t = t.released now k
  := by
  rw [Board.amend, Board.changed?, Release.apply_eq ht hk, if_neg]
  · rfl
  · intro heq
    have hwaits : t.waitingOn.erase k = t.waitingOn := congrArg Tracker.waitingOn heq
    rw [← hwaits] at hk
    apply (SortedSet.mem_erase.mp hk).2 rfl

theorem amend_completed (now : Instant) (ht : t.isConsistent = true) :
  Board.amend now (Force.apply ⟨.completed⟩) t = t.completed now
  := by
  rw [Board.amend, Board.changed?, Tracker.completed]
  by_cases hstatus : t.status = .completed
  · rw [if_pos hstatus, if_pos]
    · rfl
    · change { t with waitingOn := ∅, status := .completed } = t
      rw [← hstatus, ← Tracker.waitingOn_of_completed ht hstatus]
  · rw [if_neg hstatus, if_neg]
    · rfl
    · intro heq
      apply hstatus
      rw [← heq]
      rfl

end Change

/-! ### The cascade -/

namespace Grid

variable {p : Partitioner} {g g' : Grid p} {now : Instant} {retention : Retention} {k j : Key}

/-- The tracker under `j` waits for the other key `k` and goes to its sink, if `k` is tracked. -/
structure Depends (g : Grid p) (k j : Key) (t : Tracker) : Prop where
  other : j ≠ k
  found : g.find? j = some t
  waits : k ∈ t.waitingOn
  sink : ∀ u, g.find? k = some u → t.sink = u.sink

/-- The key `k` is retired and taken from those which depend on it, and all else is as it was. -/
structure Cascades (now : Instant) (retention : Retention) (k : Key) (g g' : Grid p) : Prop where
  dependents : ∀ j t, g.Depends k j t → g'.find? j = some (t.released now k)
  others : ∀ j, j ≠ k → (∀ t, ¬ g.Depends k j t) → g'.find? j = g.find? j
  itself : g'.find? k = match retention with
    | .purge => none
    | .retain => (g.find? k).map (Tracker.completed now)

theorem depends_iff {t : Tracker} (hj : j ≠ k) (ht : g.find? j = some t) :
  g.Depends k j t ↔ Query.WaitingFor.holds ⟨(g.find? k).map Tracker.sink, k⟩ t = true
  := by
  have hholds : Query.WaitingFor.holds ⟨(g.find? k).map Tracker.sink, k⟩ t = true
      ↔ (∀ u, g.find? k = some u → t.sink = u.sink) ∧ k ∈ t.waitingOn := by
    cases g.find? k with
    | none => simp [Query.WaitingFor.holds]
    | some u => simp [Query.WaitingFor.holds, @eq_comm _ u.sink t.sink]
  rw [hholds]
  constructor
  · exact fun h => ⟨h.sink, h.waits⟩
  · exact fun h => ⟨hj, ht, h.2, h.1⟩

/-- Once its cascade is over, the key is gone or completed. -/
theorem Cascades.status_itself (h : Cascades now retention k g g')
    (hg : ∀ j t, g.find? j = some t → t.isConsistent = true) (t' : Tracker)
    (ht' : g'.find? k = some t') :
  retention = .retain ∧ t'.isConsistent = true ∧ t'.status = .completed
  := by
  rw [h.itself] at ht'
  cases retention with
  | purge => cases ht'
  | retain =>
    obtain ⟨t, ht, rfl⟩ := Option.map_eq_some_iff.mp ht'
    exact ⟨rfl, t.isConsistent_completed now (hg k t ht), t.completed_status now⟩

/-- If all who waited for the key depended on it, nobody waits for it any more. -/
theorem Cascades.not_waits (h : Cascades now retention k g g')
    (hg : ∀ j t, g.find? j = some t → t.isConsistent = true)
    (hall : ∀ j t, j ≠ k → g.find? j = some t → k ∈ t.waitingOn → g.Depends k j t) (j : Key)
    (t' : Tracker) (ht' : g'.find? j = some t') :
  k ∉ t'.waitingOn
  := by
  intro hmem
  by_cases hj : j = k
  · rw [hj] at ht'
    obtain ⟨-, hconsistent, hstatus⟩ := h.status_itself hg t' ht'
    rw [Tracker.waitingOn_of_completed hconsistent hstatus] at hmem
    apply List.not_mem_nil hmem
  · by_cases hdepends : ∃ t, g.Depends k j t
    · obtain ⟨t, ht⟩ := hdepends
      rw [h.dependents j t ht] at ht'
      cases ht'
      apply (SortedSet.mem_erase.mp hmem).2 rfl
    · rw [h.others j hj (fun t ht => hdepends ⟨t, ht⟩)] at ht'
      apply hdepends ⟨t', hall j t' hj ht' hmem⟩

end Grid

variable {p : Partitioner} {σ : Type}

namespace Scheduler

variable {s : Scheduler p σ} {k : Key}

/-- What is found after a completion are the trackers before it, after the cascade. -/
theorem cascades_of_find? {now : Instant} {k : Key} {g' : Grid p}
    (hconsistent : ∀ j t, s.grid.find? j = some t → t.isConsistent = true)
    (hfind : ∀ j, g'.find? j =
      if j = k then retired s.settings.retention now (s.grid.find? k)
      else (s.grid.find? j).map (releaseFrom now k ((s.grid.find? k).map Tracker.sink))) :
  Grid.Cascades now s.settings.retention k s.grid g'
  := by
  constructor
  · intro j t ht
    rw [hfind, if_neg ht.other, ht.found, Option.map_some, releaseFrom,
      if_pos ((Grid.depends_iff ht.other ht.found).mp ht),
      Change.amend_release now (hconsistent j t ht.found) ht.waits]
  · intro j hj hnot
    rw [hfind, if_neg hj]
    cases ht : s.grid.find? j with
    | none => rfl
    | some t =>
      rw [Option.map_some, releaseFrom, if_neg]
      exact fun hq => hnot t ((Grid.depends_iff hj ht).mpr hq)
  · rw [hfind, if_pos rfl]
    cases s.settings.retention with
    | purge => rfl
    | retain =>
      cases ht : s.grid.find? k with
      | none => rfl
      | some t =>
        rw [retired, Option.map_some, Option.map_some,
          Change.amend_completed now (hconsistent k t ht)]

variable [Store σ] [LawfulStore σ]

/-- If nobody waits for a key which is gone or completed, completing it does nothing. -/
theorem complete_idle (hs : s.grid.WellFiled) (now : Instant)
    (hitself : ∀ t, s.grid.find? k = some t → s.settings.retention = .retain ∧
      t.isConsistent = true ∧ t.status = .completed)
    (hnone : ∀ j t, s.grid.find? j = some t → k ∉ t.waitingOn) :
  (complete now k).Ends s
    (fun released s' => released = ∅ ∧ s'.ready = s.ready ∧ s'.grid = s.grid)
    (fun _ _ => ¬ LawfulStore.works s.board.store)
  := by
  have hcommits := commitsOnly_complete (p := p) (σ := σ) (F := True) now k
    (P := fun _ _ => True) (fun _ => trivial) (fun _ => trivial) (fun _ => trivial) s
  have hholds : ∀ {j t}, s.grid.find? j = some t →
      Query.WaitingFor.holds ⟨(s.grid.find? k).map Tracker.sink, k⟩ t = false := by
    intro j t ht
    simp [Query.WaitingFor.holds, hnone j t ht]
  apply ((complete_ends hs now k).and hcommits).mono
  · rintro released s' ⟨⟨hready, -, hreleased, hfind⟩, hcommits⟩
    have hempty : released = ∅ := by
      apply SortedSet.ext
      intro j
      rw [hreleased]
      constructor
      · rintro ⟨-, t, ht, hq, -⟩
        cases (hholds ht).symm.trans hq
      · exact fun hj => absurd hj List.not_mem_nil
    have hlist : released.toList = [] := by
      rw [hempty]
      rfl
    refine ⟨hempty, ?_, ?_⟩
    · rw [hready, hlist, ite_self, List.append_nil]
    · apply ((hcommits hs).filed hs).ext hs
      intro j
      change s'.grid.find? j = s.grid.find? j
      rw [hfind]
      split
      · rename_i hj
        rw [hj]
        cases ht : s.grid.find? k with
        | none => cases s.settings.retention <;> rfl
        | some t =>
          obtain ⟨hretention, hconsistent, hstatus⟩ := hitself t ht
          rw [hretention, retired, Option.map_some, Change.amend_completed now hconsistent,
            Tracker.completed, if_pos hstatus]
      · cases ht : s.grid.find? j with
        | none => rfl
        | some t =>
          rw [Option.map_some, releaseFrom, hholds ht]
          rfl
  · exact fun _ _ h => h.1

/--
Completing a key takes it from the trackers which depend on it and touches no other but its own;
whom this releases is the result and is sent, in ascending order.  If all who waited for the key
depended on it, completing it again does nothing.
-/
theorem complete_releases_exactly (hs : s.grid.WellFiled)
    (hconsistent : ∀ t ∈ s.grid.trackers, t.isConsistent = true) (now : Instant) (k : Key) :
  (complete now k).Ends s
    (fun released s' =>
      Grid.Cascades now s.settings.retention k s.grid s'.grid ∧
      (∀ j, j ∈ released ↔ ∃ t, s.grid.Depends k j t ∧ t.waitingOn.toList = [k]) ∧
      s'.ready = ⟨s.ready.listening,
        s.ready.sent ++ if s.ready.listening then released.toList else []⟩ ∧
      s'.settings = s.settings ∧
      (LawfulStore.works s.board.store → LawfulStore.works s'.board.store) ∧
      ((∀ j t, j ≠ k → s.grid.find? j = some t → k ∈ t.waitingOn → s.grid.Depends k j t) →
        ∀ now', (complete now' k).Ends s'
          (fun released' s'' => released' = ∅ ∧ s''.ready = s'.ready ∧ s''.grid = s'.grid)
          (fun _ _ => ¬ LawfulStore.works s'.board.store)))
    (fun _ _ => ¬ LawfulStore.works s.board.store)
  := by
  have hcommits := commitsOnly_complete (p := p) (σ := σ) (F := True) now k
    (P := fun _ _ => True) (fun _ => trivial) (fun _ => trivial) (fun _ => trivial) s
  have hconsistent : ∀ j t, s.grid.find? j = some t → t.isConsistent = true := by
    intro j t ht
    apply hconsistent t
    obtain rfl := hs.key ht
    apply (Grid.mem_values hs).mpr ⟨ht, rfl⟩
  apply ((complete_ends hs now k).and hcommits).mono
  · rintro released s' ⟨⟨hready, hsettings, hreleased, hfind⟩, hcommits⟩
    have hcascades := cascades_of_find? hconsistent hfind
    refine ⟨hcascades, ?_, hready, hsettings, (hcommits hs).works, ?_⟩
    · intro j
      rw [hreleased]
      constructor
      · rintro ⟨hj, t, ht, hq, hlast⟩
        have hdepends := (Grid.depends_iff hj ht).mpr hq
        use t, hdepends
        rw [Change.Release.apply_eq (hconsistent j t ht) hdepends.waits] at hlast
        apply of_decide_eq_true hlast
      · rintro ⟨t, ht, hlast⟩
        refine ⟨ht.other, t, ht.found, (Grid.depends_iff ht.other ht.found).mp ht, ?_⟩
        rw [Change.Release.apply_eq (hconsistent j t ht.found) ht.waits]
        apply decide_eq_true hlast
    · intro hall now'
      apply complete_idle ((hcommits hs).filed hs)
      · rw [hsettings]
        apply hcascades.status_itself hconsistent
      · apply hcascades.not_waits hconsistent hall
  · exact fun _ _ h => h.1

/-- Of three chunks with one match key the second waits for the first, and the third for it. -/
theorem complete_releases_exactly_of_three :
  let s := afterAll [.register (.sample 1 0 ["a"]) none, .register (.sample 1 1 ["a"]) none,
    .register (.sample 1 2 ["a"]) none]
  (∀ t ∈ s.grid.trackers, t.isConsistent = true) ∧
    (complete default ⟨1, 0⟩).Yields s (fun released s' =>
      s'.grid.find? ⟨1, 0⟩ = none ∧ s'.grid.find? ⟨1, 2⟩ = s.grid.find? ⟨1, 2⟩ ∧
        ⟨1, 1⟩ ∈ released ∧ ⟨1, 2⟩ ∉ released)
  := by
  intro s
  have hs : Reachable (fun _ _ => True) (start .standard true (Memory.ofList [])) s :=
    reachable_afterAll ⟨trivial, trivial, trivial, trivial⟩
  have hfiled := (hs.tidy trivial rfl).1.filed
  have hconsistent : ∀ t ∈ s.grid.trackers, t.isConsistent = true := by decide +kernel
  have hretention : s.settings.retention = .purge := by decide +kernel
  have hfirst : (s.grid.find? ⟨1, 0⟩).map Tracker.sink = some 1 := by decide +kernel
  have hsecond : (s.grid.find? ⟨1, 1⟩).map (fun t => (t.sink, t.waitingOn.toList))
      = some (1, [⟨1, 0⟩]) := by decide +kernel
  have hthird : (s.grid.find? ⟨1, 2⟩).map (fun t => t.waitingOn.toList) = some [⟨1, 1⟩] := by
    decide +kernel
  clear_value s
  use hconsistent
  obtain ⟨t₀, ht₀, hsink₀⟩ := Option.map_eq_some_iff.mp hfirst
  obtain ⟨t₁, ht₁, heq⟩ := Option.map_eq_some_iff.mp hsecond
  obtain ⟨hsink₁, hwaits₁⟩ := Prod.mk.inj heq
  obtain ⟨t₂, ht₂, hwaits₂⟩ := Option.map_eq_some_iff.mp hthird
  have hnot : ∀ t, ¬ s.grid.Depends ⟨1, 0⟩ ⟨1, 2⟩ t := by
    intro t ht
    obtain rfl := Option.some.inj (ht₂.symm.trans ht.found)
    have hmem := SortedSet.mem_iff.mp ht.waits
    rw [hwaits₂] at hmem
    revert hmem
    decide
  apply (complete_releases_exactly hfiled hconsistent default ⟨1, 0⟩).mono
  · rintro released s' ⟨hcascades, hreleased, -⟩
    refine ⟨?_, hcascades.others _ (by decide) hnot, ?_, ?_⟩
    · rw [hcascades.itself, hretention]
    · apply (hreleased _).mpr
      refine ⟨t₁, ⟨by decide, ht₁, ?_, ?_⟩, hwaits₁⟩
      · rw [SortedSet.mem_iff, hwaits₁]
        apply List.mem_singleton_self
      · intro u hu
        obtain rfl := Option.some.inj (ht₀.symm.trans hu)
        rw [hsink₁, hsink₀]
    · intro hmem
      obtain ⟨t, ht, -⟩ := (hreleased _).mp hmem
      apply hnot t ht
  · exact fun _ _ hnot => hnot trivial

end Scheduler

end ChunkDispatch
