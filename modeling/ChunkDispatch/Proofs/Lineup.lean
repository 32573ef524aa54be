import ChunkDispatch.Proofs.Admission
import ChunkDispatch.Proofs.Rounds

/-!
# The lineup before a queue

The trackers of a sink which are ready for a phase stand in a *lineup*, the more urgent ones first;
those for which there is room in the queue are *chosen*.  The order is strict, so the lineup is
known from who stands in it.  When the first of those chosen is moved into the queue, the others
are chosen anew, so to schedule in bulk is a round which may be left at any time.
-/

namespace ChunkDispatch

open Attempt

variable {p : Partitioner} {σ : Type}

/-! ### Who is the most urgent -/

namespace Tracker

/-- The tracker is more urgent than the other, or as urgent and its key is smaller. -/
def Precedes (t u : Tracker) : Prop :=
  u.priority < t.priority ∨ u.priority = t.priority ∧ t.key < u.key

instance : Std.Irrefl Precedes where
  irrefl t h := by
    obtain h | ⟨-, h⟩ := h
    · exact Std.lt_irrefl h
    · exact Std.lt_irrefl h

instance : IsTrans Tracker Precedes where
  trans t u v h h' := by
    obtain h | ⟨h, hkey⟩ := h <;> obtain h' | ⟨h', hkey'⟩ := h'
    · exact Or.inl (Std.lt_trans h' h)
    · exact Or.inl (h' ▸ h)
    · exact Or.inl (h ▸ h')
    · exact Or.inr ⟨h'.trans h, Std.lt_trans hkey hkey'⟩

instance : Std.Antisymm Precedes where
  antisymm t _ h h' := absurd (IsTrans.trans t _ t h h') (Std.Irrefl.irrefl t)

end Tracker

namespace Scheduler

theorem pairwise_insertByUrgency {t : Tracker} {ts : List Tracker}
    (hts : ts.Pairwise Tracker.Precedes) (ht : ∀ u ∈ ts, t.key ≠ u.key) :
  (insertByUrgency t ts).Pairwise Tracker.Precedes
  := by
  induction ts with
  | nil => apply List.pairwise_singleton
  | cons u rest ih =>
    obtain ⟨hu, hrest⟩ := List.pairwise_cons.mp hts
    have hne := ht u List.mem_cons_self
    rw [insertByUrgency]
    split
    · rename_i hbefore
      have htu : t.Precedes u := by
        obtain h | ⟨h, hle⟩ := hbefore
        · exact Or.inl h
        · exact Or.inr ⟨h, Std.lt_of_le_of_ne hle hne⟩
      apply List.pairwise_cons.mpr ⟨_, hts⟩
      intro v hv
      obtain rfl | hv := List.mem_cons.mp hv
      · exact htu
      · apply IsTrans.trans t u v htu (hu v hv)
    · rename_i hnot
      have hut : u.Precedes t := by
        obtain hlt | heq | hgt := Std.lt_trichotomy u.priority t.priority
        · exact absurd (Or.inl hlt) hnot
        · refine Or.inr ⟨heq.symm, ?_⟩
          rw [← Std.not_le]
          exact fun hle => hnot (Or.inr ⟨heq, hle⟩)
        · exact Or.inl hgt
      apply List.pairwise_cons.mpr ⟨_, ih hrest (fun v hv => ht v (List.mem_cons_of_mem u hv))⟩
      intro v hv
      obtain rfl | hv := List.mem_cons.mp ((insertByUrgency_perm t rest).mem_iff.mp hv)
      · exact hut
      · apply hu v hv

theorem pairwise_byUrgency {ts : List Tracker} (hts : ts.Pairwise (fun t u => t.key ≠ u.key)) :
  (byUrgency ts).Pairwise Tracker.Precedes
  := by
  induction ts with
  | nil => apply List.Pairwise.nil
  | cons t rest ih =>
    obtain ⟨ht, hrest⟩ := List.pairwise_cons.mp hts
    apply pairwise_insertByUrgency (ih hrest)
    exact fun u hu => ht u ((byUrgency_perm rest).mem_iff.mp hu)

/-! ### Scheduling in bulk -/

variable {s s' : Scheduler p σ} {now : Instant} {sink : Int32} {phase : Phase}

/-- The trackers of a sink which are ready for a phase, the most urgent first, undated. -/
def lineup (s : Scheduler p σ) (sink : Int32) (phase : Phase) : List Tracker :=
  (byUrgency (s.grid.values (Query.ByStatus.holds ⟨some sink, phase.ready⟩))).map Tracker.undated

theorem chosen_eq (s : Scheduler p σ) (sink : Int32) (phase : Phase) :
  s.chosen sink phase = ((s.lineup sink phase).take
    (s.settings.maxEnqueued - s.grid.census sink phase.queued)).map Tracker.key
  := by
  rw [chosen, find, lineup, ← List.map_take, List.map_map]
  rfl

theorem pairwise_lineup (hs : s.grid.WellFiled) (sink : Int32) (phase : Phase) :
  (s.lineup sink phase).Pairwise Tracker.Precedes
  := by
  apply List.pairwise_map.mpr
  apply pairwise_byUrgency
  apply SortedMap.pairwise_values
  intro k t ht
  rw [Grid.find?_select hs, Option.filter_eq_some_iff] at ht
  exact hs.key ht.1

theorem mem_lineup (hs : s.grid.WellFiled) {t : Tracker} :
  t ∈ s.lineup sink phase ↔ s.grid.undated? t.key = some t ∧ t.isOf sink phase.ready = true
  := by
  simp only [lineup, List.mem_map, mem_found hs, Grid.undated?, Option.map_eq_some_iff]
  constructor
  · rintro ⟨u, ⟨hu, hof⟩, rfl⟩
    exact ⟨⟨u, hu, rfl⟩, hof⟩
  · rintro ⟨⟨u, hu, rfl⟩, hof⟩
    exact ⟨u, ⟨hu, hof⟩, rfl⟩

/-- The most urgent of the ready chunks leaves the lineup when it is moved into the queue. -/
theorem lineup_moved (hs : s.grid.WellFiled) {t : Tracker} {others : List Tracker}
    (hlineup : s.lineup sink phase = t :: others)
    (h : Grid.Revises t.key (Tracker.moved phase.queued) s.grid s'.grid) :
  s'.lineup sink phase = others ∧
    s'.grid.census sink phase.queued = s.grid.census sink phase.queued + 1
  := by
  have hmem : ∀ u, u ∈ s.lineup sink phase
      ↔ s.grid.undated? u.key = some u ∧ u.isOf sink phase.ready = true := fun _ => mem_lineup hs
  have hpairwise := pairwise_lineup hs sink phase
  rw [hlineup] at hmem hpairwise
  obtain ⟨hfirst, hothers⟩ := List.pairwise_cons.mp hpairwise
  obtain ⟨ht, hof⟩ := (hmem t).mp List.mem_cons_self
  obtain ⟨hsink, hready⟩ := Tracker.isOf_iff.mp hof
  have hmoved : s'.grid.undated? t.key = some (t.moved phase.queued) := by
    rw [h.itself, ht]
    rfl
  constructor
  · apply (pairwise_lineup h.filed sink phase).eq_of_mem_iff hothers
    intro u
    rw [mem_lineup h.filed]
    by_cases hu : u.key = t.key
    · constructor
      · rintro ⟨hfound, hof'⟩
        rw [hu, hmoved] at hfound
        cases hfound
        exact absurd (Tracker.isOf_iff.mp hof').2.symm phase.ready_ne_queued
      · intro hmem'
        have hfound := ((hmem u).mp (List.mem_cons_of_mem t hmem')).1
        rw [hu, ht] at hfound
        cases hfound
        exact absurd (hfirst t hmem') (Std.Irrefl.irrefl t)
    · rw [h.undated, if_neg hu, ← hmem, List.mem_cons]
      apply or_iff_right
      rintro rfl
      exact hu rfl
  · have hcensus := Grid.census_of_others hs h.filed h.others sink phase.queued
    rw [← Grid.any_undated? (fun _ => rfl), ← Grid.any_undated? (fun _ => rfl), hmoved,
      ht] at hcensus
    have hwas : t.isOf sink phase.queued = false := by
      rw [Bool.eq_false_iff, ne_eq, Tracker.isOf_iff]
      exact fun hqueued => phase.ready_ne_queued (hready.symm.trans hqueued.2)
    have his : (t.moved phase.queued).isOf sink phase.queued = true :=
      Tracker.isOf_iff.mpr ⟨hsink, rfl⟩
    rw [Option.any_some, Option.any_some, hwas, his] at hcensus
    exact hcensus

/-- When the first of the chosen chunks is moved into the queue, those which are left are chosen. -/
theorem chosen_moved (hs : s.grid.WellFiled) (hsettings : s'.settings = s.settings) {k : Key}
    {rest : List Key} (hchosen : s.chosen sink phase = k :: rest)
    (h : Grid.Revises k (Tracker.moved phase.queued) s.grid s'.grid) :
  s'.chosen sink phase = rest
  := by
  rw [chosen_eq] at hchosen
  cases hlineup : s.lineup sink phase with
  | nil =>
    rw [hlineup, List.take_nil] at hchosen
    cases hchosen
  | cons t others =>
    cases hroom : s.settings.maxEnqueued - s.grid.census sink phase.queued with
    | zero =>
      rw [hroom, List.take_zero] at hchosen
      cases hchosen
    | succ n =>
      rw [hlineup, hroom, List.take_succ_cons, List.map_cons] at hchosen
      obtain ⟨rfl, rfl⟩ := List.cons.inj hchosen
      obtain ⟨hlineup', hcensus⟩ := lineup_moved hs hlineup h
      have hroom' : s'.settings.maxEnqueued - s'.grid.census sink phase.queued = n := by
        rw [hsettings, hcensus]
        omega
      rw [chosen_eq, hlineup', hroom']

/-- To move the first of the chosen chunks into the queue keeps the goal. -/
theorem scheduled_moved (hs : s.grid.WellFiled) {k : Key} {rest : List Key}
    (h : Grid.Revises k (Tracker.moved phase.queued) s.grid s'.grid) (j : Key) :
  (s'.grid.undated? j).map (Tracker.scheduled phase rest)
    = (s.grid.undated? j).map (Tracker.scheduled phase (k :: rest))
  := by
  rw [h.undated]
  split
  · rename_i hj
    rw [← hj]
    cases ht : s.grid.undated? j with
    | none => rfl
    | some t =>
      obtain rfl := hs.key_undated? ht
      apply congrArg some
      rw [Tracker.scheduled, Tracker.scheduled, if_pos List.mem_cons_self]
      split <;> rfl
  · rename_i hj
    cases ht : s.grid.undated? j with
    | none => rfl
    | some t =>
      obtain rfl := hs.key_undated? ht
      apply congrArg some
      simp only [Tracker.scheduled, List.mem_cons, hj, false_or]

variable [Store σ]

/-- To schedule in bulk is to move the chosen chunks, which are none if there is no room. -/
theorem ends_bulkSchedule (hs : s.Counted) {Q : List Key → Scheduler p σ → Prop}
    {E : Error → Scheduler p σ → Prop} :
  (bulkSchedule now sink phase).Ends s Q E
    ↔ (transitionAll now phase.ready phase.queued (s.chosen sink phase)).Ends s Q E
  := by
  rw [bulkSchedule, ends_bind, ends_get]
  simp only []
  rw [hs.enqueued_queue]
  split
  · rename_i hroom
    rw [chosen_eq, hroom, List.take_zero]
    rfl
  · rfl

variable [LawfulStore σ]

/-- The chosen chunks are moved in their order. -/
theorem transitionAll_aims (hs : s.grid.WellFiled) (now : Instant) {ks : List Key}
    (hks : s.chosen sink phase = ks) :
  (transitionAll now phase.ready phase.queued ks).Ends s
    (fun _ s' => ∀ k, s'.grid.undated? k = (s.grid.undated? k).map (Tracker.scheduled phase ks))
    (fun _ s' => ∀ k, (s'.grid.undated? k).map (Tracker.scheduled phase (s'.chosen sink phase))
      = (s.grid.undated? k).map (Tracker.scheduled phase ks))
  := by
  induction ks generalizing s with
  | nil =>
    intro k
    have hnone : Tracker.scheduled phase [] = id := funext fun t => if_neg List.not_mem_nil
    rw [hnone, Option.map_id_fun, id]
  | cons k rest ih =>
    have hready : (s.grid.find? k).all (fun t => t.status = phase.ready) = true := by
      have hk : k ∈ s.chosen sink phase := by
        rw [hks]
        apply List.mem_cons_self
      obtain ⟨t, ht, -, hstatus⟩ := Grid.isOf_iff.mp (isOf_of_mem_find hs hk)
      rw [ht]
      exact decide_eq_true hstatus
    have hsettings := (steps_sameSettings (p := p) (σ := σ) now).walks_transition k
      phase.ready phase.queued s
    rw [transitionAll, ends_bind]
    have hrevises := transition_revises hs now hready phase.ready_ne_blocked
      phase.queued_ne_blocked phase.ready_ne_queued
    apply (hrevises.and hsettings).mono
    · rintro moved s₁ ⟨h, hsame⟩
      rw [ends_bind]
      apply (ih h.filed (chosen_moved hs hsame hks h)).mono
      · intro others s₂ hrest j
        rw [hrest, scheduled_moved hs h]
      · intro _ s₂ hrest j
        rw [hrest, scheduled_moved hs h]
    · rintro _ s₁ ⟨hgrid, hsame⟩ j
      have hchosen : s₁.chosen sink phase = s.chosen sink phase := by
        rw [chosen, chosen, find, find, hgrid, hsame]
      rw [hchosen, hks, hgrid]

theorem bulkSchedule_aims (hs : s.Counted) (now : Instant) (sink : Int32) (phase : Phase) :
  (bulkSchedule now sink phase).Ends s
    (fun _ s' => ∀ k, s'.grid.undated? k = s.goal (.bulkSchedule sink phase) k)
    (fun _ s' => ∀ k, s'.goal (.bulkSchedule sink phase) k
      = s.goal (.bulkSchedule sink phase) k)
  := by
  have hgoal : ∀ (s : Scheduler p σ) k, s.goal (.bulkSchedule sink phase) k
      = (s.grid.undated? k).map (Tracker.scheduled phase (s.chosen sink phase)) :=
    fun s k => (Option.map_eq_bind).symm
  simp only [hgoal]
  rw [ends_bulkSchedule hs]
  apply transitionAll_aims hs.filed now rfl

end Scheduler

end ChunkDispatch
