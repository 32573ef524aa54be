import ChunkDispatch.Proofs.Completion
import ChunkDispatch.Proofs.Registration
import ChunkDispatch.Scheduler.Operation

/-!
# What each operation does to the grid

`Effect now s o g'` says of each operation `o` made on the scheduler `s` what the grid `g'` after it
may be.  Every operation on a sound board leaves a sound board and has its effect
(`perform_effect`); that some trackers are kept by all operations, and others by some, is read off
the effects.
-/

namespace ChunkDispatch.Operation

open Attempt

variable {p : Partitioner} {σ : Type}

/-- The grid `g'` is the one `s` had, with what the operation makes of its trackers. -/
def Effect (now : Instant) (s : Scheduler p σ) (g' : Grid p) : Operation → Prop
  | load | processingDone _ | resend _ | boost _ _ | bulkSchedule _ _ =>
    s.grid.Each Tracker.Steady g'
  | forceMode _ _ _ | updateMode _ _ | recount _ => g' = s.grid
  | register c barrier =>
    (s.grid.isLive c.key = true → s.grid.Each Tracker.Eases g' ∧ (s.grid.Orderly → g' = s.grid)) ∧
      (s.grid.isLive c.key = false →
        ∃ t, s.Enrols now c barrier t ∧ g' = s.grid.insert t)
  | complete k => Scheduler.Completes now k s.grid g'
  | removeFromWaitingOn _ _ => s.grid.Each Tracker.Eases g'
  | transition _ _ target | setStatus _ target | resetStatus _ target _ =>
    s.grid.Each Tracker.Trims g' ∧ (target ≠ .completed → s.grid.Each Tracker.Eases g')
  | remove k => g' = s.grid.erase k
  | removeJob job =>
    ∀ k, g'.find? k = (s.grid.find? k).filter (fun t => !Query.OfJob.holds ⟨job⟩ t)
  | recheck => s.grid.Each Tracker.Eases g' ∧ (s.grid.Orderly → g' = s.grid)
  | purge => ∀ k, g'.find? k = (s.grid.find? k).filter Tracker.isLive

variable [Store σ] [LawfulStore σ] {s : Scheduler p σ}

/-- Taking a key out of a wait set eases the tracker. -/
theorem rel_release (now : Instant) (j : Key) (t : Tracker) :
  Option.Rel Tracker.Eases (some t) (some (Board.amend now (Change.Release.apply ⟨j⟩) t))
  := Option.Rel.some (Board.eases_amend now (Change.Release.eases ⟨j⟩ t))

/-- A move between live statuses which are not blocked is steady. -/
theorem rel_move (now : Instant) {source target : Status} (hsource : source ≠ .blocked)
    (htarget : target ≠ .blocked) (hlive : source ≠ .completed) (hlive' : target ≠ .completed)
    (t : Tracker) :
  Option.Rel Tracker.Steady (some t)
    (some (Board.amend now (Change.Move.apply ⟨source, target⟩) t))
  := Option.Rel.some (Board.steady_amend now (Change.Move.steady hsource htarget hlive hlive' t))

/-- What an operation leaves whose commits relate the trackers of each key. -/
theorem becomes_stateAfter {α : Type} {R : Tracker → Tracker → Prop} [Std.Refl R]
    [IsTrans Tracker R] {x : Attempt (Scheduler p σ) α}
    (hx : Scheduler.CommitsOnly (Option.Rel R) True x) (hs : s.board.Sound) :
  s.Becomes R (x.stateAfter s)
  := Ends.stateAfter ((hx.becomes hs).mono (fun _ _ => id) (fun _ _ => And.right))

/-- A forced status trims trackers, and eases them unless it is completed. -/
theorem becomes_force {α : Type} {x : Attempt (Scheduler p σ) α} {now : Instant} {status : Status}
    (hx : ∀ {P : Option Tracker → Option Tracker → Prop},
      (∀ t, P (some t) (some (Board.amend now (Change.Force.apply ⟨status⟩) t))) →
        Scheduler.CommitsOnly P True x)
    (hs : s.board.Sound) :
  (x.stateAfter s).board.Sound ∧ s.grid.Each Tracker.Trims (x.stateAfter s).grid ∧
    (status ≠ .completed → s.grid.Each Tracker.Eases (x.stateAfter s).grid)
  := by
  obtain ⟨hsound, htrims⟩ := becomes_stateAfter
    (hx (fun t => Option.Rel.some (Board.trims_amend now (Change.Force.trims ⟨status⟩ t)))) hs
  refine ⟨hsound, htrims, ?_⟩
  intro hlive
  apply (becomes_stateAfter (hx _) hs).2
  intro t
  apply Option.Rel.some
  apply Board.eases_amend
  apply Change.Force.eases hlive

/-- A move trims trackers, and eases them unless it completes them. -/
theorem becomes_move (hs : s.board.Sound) (now : Instant) (k : Key) (source target : Status) :
  ((Scheduler.transition now k source target).stateAfter s).board.Sound ∧
    s.grid.Each Tracker.Trims ((Scheduler.transition now k source target).stateAfter s).grid ∧
    (target ≠ .completed →
      s.grid.Each Tracker.Eases ((Scheduler.transition now k source target).stateAfter s).grid)
  := by
  have hx : ∀ {P : Option Tracker → Option Tracker → Prop}, (source ≠ .blocked →
      target ≠ .blocked → ∀ t, P (some t)
        (some (Board.amend now (Change.Move.apply ⟨source, target⟩) t))) →
      Scheduler.CommitsOnly P True
        (Scheduler.transition now k source target : Attempt (Scheduler p σ) Bool) :=
    Scheduler.commitsOnly_transition now k (fun _ => trivial)
  obtain ⟨hsound, htrims⟩ := becomes_stateAfter (hx (fun hsource htarget t =>
    Option.Rel.some (Board.trims_amend now (Change.Move.trims hsource htarget t)))) hs
  refine ⟨hsound, htrims, ?_⟩
  intro hlive
  apply (becomes_stateAfter (hx _) hs).2
  intro hsource htarget t
  apply Option.Rel.some
  apply Board.eases_amend
  apply Change.Move.eases hsource htarget hlive

theorem register_effect (hs : s.board.Sound) (now : Instant) (c : Chunk)
    (barrier : Option String) :
  ((Scheduler.register now c barrier).stateAfter s).board.Sound ∧
    (register c barrier).Effect now s ((Scheduler.register now c barrier).stateAfter s).grid
  := by
  cases hlive : s.grid.isLive c.key with
  | true =>
    obtain ⟨hsound, heases⟩ : s.Becomes Tracker.Eases
        ((Scheduler.register now c barrier).stateAfter s) :=
      Yields.stateAfter (Scheduler.register_yields_of_live hs now barrier hlive)
    refine ⟨hsound, ?_, ?_⟩
    · intro _
      use heases
      intro hg
      have hsame : (Scheduler.register now c barrier).stateAfter s = s :=
        Yields.stateAfter (P := (· = s))
          ((Scheduler.register_yields_of_orderly hg now barrier hlive).mono (fun _ _ => And.right))
      rw [hsame]
    · intro hnot
      cases hlive.symm.trans hnot
  | false =>
    obtain ⟨t, s', heq, hsound, henrols, hgrid⟩ := yields_iff.mp
      (Scheduler.register_yields hs now barrier hlive)
    have hafter : (Scheduler.register now c barrier).stateAfter s = s' := by
      rw [Attempt.stateAfter, heq]
    rw [hafter]
    refine ⟨hsound, ?_, ?_⟩
    · intro hnot
      cases hlive.symm.trans hnot
    · intro _
      exact ⟨t, henrols, hgrid⟩

theorem recheck_effect (hs : s.board.Sound) (now : Instant) :
  ((Scheduler.recheck now).stateAfter s).board.Sound ∧
    recheck.Effect now s ((Scheduler.recheck now).stateAfter s).grid
  := by
  obtain ⟨hsound, heases⟩ :=
    becomes_stateAfter (Scheduler.commitsOnly_recheck now (rel_release now)) hs
  refine ⟨hsound, heases, ?_⟩
  intro hg
  have hsame : (Scheduler.recheck now).stateAfter s = s :=
    Yields.stateAfter (P := (· = s))
      ((Scheduler.recheck_yields_of_orderly hs.filed hg).mono (fun _ _ => And.right))
  rw [hsame]

/-- Every operation leaves a sound board and has its effect on the grid. -/
theorem perform_effect (hs : s.board.Sound) (now : Instant) (o : Operation) :
  ((o.perform now).stateAfter s).board.Sound ∧ o.Effect now s ((o.perform now).stateAfter s).grid
  := by
  cases o with
  | load =>
    rw [perform, stateAfter_bind_pure]
    apply Yields.stateAfter (Scheduler.load_yields now hs)
  | register c barrier =>
    rw [perform, stateAfter_bind_pure]
    apply register_effect hs
  | complete k =>
    rw [perform, stateAfter_bind_pure]
    apply Yields.stateAfter (Scheduler.complete_yields hs now k)
  | removeFromWaitingOn k sink =>
    rw [perform, stateAfter_bind_pure]
    apply becomes_stateAfter _ hs
    apply Scheduler.commitsOnly_removeFromWaitingOn now k sink (rel_release now k)
  | processingDone k =>
    rw [perform, stateAfter_bind_pure]
    apply becomes_stateAfter _ hs
    apply Scheduler.commitsOnly_processingDone now k
    · apply rel_move now <;> decide
    · apply rel_move now <;> decide
  | transition k source target =>
    rw [perform, stateAfter_bind_pure]
    apply becomes_move hs
  | setStatus k status =>
    rw [perform, stateAfter_bind_pure]
    apply becomes_force (Scheduler.commitsOnly_setStatus now k) hs
  | resetStatus source target jobs =>
    rw [perform, stateAfter_bind_pure]
    apply becomes_force (Scheduler.commitsOnly_resetStatus now jobs (fun _ => trivial)) hs
  | resend k =>
    rw [perform, stateAfter_bind_pure]
    apply becomes_stateAfter _ hs
    apply Scheduler.commitsOnly_resend now k
    intro t
    apply Option.Rel.some (Board.steady_amend now (Change.Resend.steady ⟨⟩ t))
  | boost ks priority =>
    rw [perform, stateAfter_bind_pure]
    apply becomes_stateAfter _ hs
    apply Scheduler.commitsOnly_boost now ks
    intro t
    apply Option.Rel.some (Board.steady_amend now (Change.Raise.steady ⟨priority⟩ t))
  | remove k =>
    rw [perform, stateAfter_bind_pure]
    apply Yields.stateAfter (Scheduler.remove_yields hs now k)
  | removeJob job =>
    rw [perform, stateAfter_bind_pure]
    apply Yields.stateAfter (Scheduler.removeJob_yields hs now job)
  | recheck =>
    rw [perform, stateAfter_bind_pure]
    apply recheck_effect hs
  | purge =>
    rw [perform, stateAfter_bind_pure]
    apply Yields.stateAfter (Scheduler.purge_yields hs now)
  | bulkSchedule sink phase =>
    rw [perform, stateAfter_bind_pure]
    apply becomes_stateAfter _ hs
    apply Scheduler.commitsOnly_bulkSchedule now sink
    cases phase <;> (apply rel_move now <;> decide)
  | forceMode sink phase mode =>
    exact ⟨Scheduler.sound_of_eq hs rfl rfl, rfl⟩
  | updateMode sink phase =>
    exact ⟨Scheduler.sound_of_eq hs rfl rfl, rfl⟩
  | recount sinks =>
    exact ⟨Scheduler.sound_of_eq hs rfl rfl, rfl⟩

omit [Store σ] [LawfulStore σ] in
/-- After an operation which enrols nobody, every tracker is one from before, perhaps trimmed. -/
theorem Effect.trims {now : Instant} {g' : Grid p} {o : Operation} (h : o.Effect now s g')
    (hlive : ∀ c barrier, o = register c barrier → s.grid.isLive c.key = true) {k : Key}
    {t' : Tracker} (ht' : g'.find? k = some t') :
  ∃ t, s.grid.find? k = some t ∧ t.Trims t'
  := by
  have heach : s.grid.Each Tracker.Trims g' → ∃ t, s.grid.find? k = some t ∧ t.Trims t' :=
    fun heach => heach.source ht'
  have hsame : s.grid.find? k = some t' → ∃ t, s.grid.find? k = some t ∧ t.Trims t' :=
    fun ht => ⟨t', ht, Std.Refl.refl t'⟩
  have heases : s.grid.Each Tracker.Eases g' → ∃ t, s.grid.find? k = some t ∧ t.Trims t' :=
    fun h => heach (h.mono (fun _ _ hR => hR.toTrims))
  have hsteady : s.grid.Each Tracker.Steady g' → ∃ t, s.grid.find? k = some t ∧ t.Trims t' :=
    fun h => heases (h.mono (fun _ _ hR => hR.eases))
  cases o with
  | register c barrier => apply heases (h.1 (hlive c barrier rfl)).1
  | complete => apply Scheduler.Completes.trims h ht'
  | removeFromWaitingOn => apply heases h
  | transition | setStatus | resetStatus => apply heach h.1
  | remove k' =>
    apply hsame
    rw [show g' = s.grid.erase k' from h, Grid.find?_erase] at ht'
    split at ht'
    · cases ht'
    · apply ht'
  | removeJob =>
    apply hsame
    rw [h k, Option.filter_eq_some_iff] at ht'
    apply ht'.1
  | recheck => apply heases h.1
  | purge =>
    apply hsame
    rw [h k, Option.filter_eq_some_iff] at ht'
    apply ht'.1
  | load | processingDone | resend | boost | bulkSchedule => apply hsteady h
  | forceMode | updateMode | recount =>
    apply hsame
    rwa [show g' = s.grid from h] at ht'

end ChunkDispatch.Operation
