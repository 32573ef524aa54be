import ChunkDispatch.Proofs.CompletionOrder
import ChunkDispatch.Proofs.Interruption

/-!
# What operations aim at

Seven operations may be *repeated* if the store fails in the middle of them.  The *aim* of such an
operation is what it is to make of each tracker, but for the instant of its last change, and its
*goal* is what it is to leave under each key.  The aim is read off the scheduler when the operation
begins; an operation which ends early has to leave a scheduler with the same goal.  What is written
*agrees* with an aim if the aim makes the same of what was there before and of what is there now.
-/

namespace ChunkDispatch

open Attempt

/-! ### Trackers under way -/

namespace Tracker

/-- The tracker in a status, and waiting for nothing. -/
def forced (status : Status) (t : Tracker) : Tracker :=
  { t with waitingOn := ∅, status := status }

/-- The tracker in a status. -/
def moved (status : Status) (t : Tracker) : Tracker :=
  { t with status := status }

/-- What a reset makes of a tracker. -/
def resetTo (source target : Status) (jobs : List Int32) (t : Tracker) : Tracker :=
  if t.status = source ∧ t.key.job ∈ jobs then t.forced target else t

/-- The tracker in the queue of a phase, if it is among those chosen. -/
def scheduled (phase : Phase) (ks : List Key) (t : Tracker) : Tracker :=
  if t.key ∈ ks then t.moved phase.queued else t

end Tracker

/-! ### Aims and goals -/

section Aims

variable {p : Partitioner} {σ : Type}

/-- The tracker without the keys in its wait set which are gone, if it is blocked. -/
def Scheduler.restored (s : Scheduler p σ) (t : Tracker) : Tracker :=
  if t.status = .blocked then t.relieved (s.goneFrom t) else t

/-- The ready chunks of a sink for which there is room in the queue of a phase, the most urgent
first. -/
def Scheduler.chosen (s : Scheduler p σ) (sink : Int32) (phase : Phase) : List Key :=
  s.find phase.ready (some sink)
    (some (s.settings.maxEnqueued - s.grid.census sink phase.queued))

/-- An operation which may be repeated. -/
def Operation.IsRepeated : Operation → Prop
  | complete _ | removeFromWaitingOn _ _ | removeJob _ | purge | recheck | resetStatus _ _ _
  | bulkSchedule _ _ => True
  | _ => False

/-- What an operation made at `s` is to make of a tracker. -/
def Operation.aim (s : Scheduler p σ) : Operation → Tracker → Option Tracker
  | complete k, t => t.settled s.settings.retention [k] t.key
  | removeFromWaitingOn k sink, t =>
    some (if sink.all (· = t.sink) then t.relieved [k] else t)
  | removeJob job, t => if t.key.job = job then none else some t
  | purge, t => if t.status = .completed then none else some t
  | recheck, t => some (s.restored t)
  | resetStatus source target jobs, t => some (t.resetTo source target jobs)
  | bulkSchedule sink phase, t => some (t.scheduled phase (s.chosen sink phase))
  | _, t => some t

/-- What an operation made at `s` is to leave under a key. -/
def Scheduler.goal (s : Scheduler p σ) (o : Operation) (k : Key) : Option Tracker :=
  (s.grid.undated? k).bind (o.aim s)

end Aims

/-- The aim `f` makes the same of what is there now as of what was there before. -/
def Agrees (f : Tracker → Option Tracker) (old new : Option Tracker) : Prop :=
  (new.map Tracker.undated).bind f = (old.map Tracker.undated).bind f

section Agrees

variable (f : Tracker → Option Tracker)

instance : Std.Refl (Agrees f) where
  refl _ := rfl

instance : IsTrans (Option Tracker) (Agrees f) where
  trans _ _ _ h h' := h'.trans h

variable {f}

theorem agrees_amend (now : Instant) {α : Type} {c : Tracker → α × Tracker} {t : Tracker}
    (h : f (c t).2.undated = f t.undated) :
  Agrees f (some t) (some (Board.amend now c t))
  := by
  rw [Agrees, Option.map_some, Option.map_some, Board.undated_amend]
  exact h

variable {p : Partitioner} {σ : Type} [Store σ] [LawfulStore σ]

theorem Board.Commits.agrees {b b' : Board p σ} (h : b.Commits (Agrees f) b') (k : Key) :
  (b'.grid.undated? k).bind f = (b.grid.undated? k).bind f
  := h.rel k

end Agrees

/-! ### Removals -/

namespace Scheduler

variable {p : Partitioner} {σ : Type} [Store σ] [LawfulStore σ] {s : Scheduler p σ}

/-- What is removed is removed in several parts or at once. -/
theorem removeWhere_aims (hs : s.grid.WellFiled) (now : Instant) {q : Tracker → Bool}
    {f : Tracker → Option Tracker}
    (hf : ∀ t, f t.undated = if q t then none else some t.undated) :
  (onBoard (Board.removeWhere now q)).Ends s
    (fun _ s' => ∀ k, s'.grid.undated? k = (s.grid.undated? k).bind f)
    (fun _ s' => ∀ k, (s'.grid.undated? k).bind f = (s.grid.undated? k).bind f)
  := by
  have hcommits : Board.CommitsOnly (Agrees f)
      (Board.removeWhere now q : Attempt (Board p σ) (SortedSet Key)) := by
    apply Board.commitsOnly_removeWhere
    intro t ht
    rw [Agrees, Option.map_some, Option.bind_some, hf, if_pos ht]
    rfl
  rw [ends_onBoard]
  apply ((Board.removeWhere_ends hs now q).and (hcommits s.board)).mono
  · rintro _ b ⟨⟨-, hfind⟩, -⟩ k
    rw [withBoard_grid s b, Grid.undated?, Grid.undated?, hfind]
    change ((s.grid.find? k).filter _).map _ = _
    cases s.grid.find? k with
    | none => rfl
    | some t =>
      rw [Option.map_some, Option.bind_some, hf, Option.filter_some]
      cases q t <;> rfl
  · exact fun _ _ h => (h.2 hs).1.agrees

theorem removeJob_aims (hs : s.grid.WellFiled) (now : Instant) (job : Int32) :
  (removeJob now job).Ends s (fun _ s' => ∀ k, s'.grid.undated? k = s.goal (.removeJob job) k)
    (fun _ s' => ∀ k, s'.goal (.removeJob job) k = s.goal (.removeJob job) k)
  := by
  apply removeWhere_aims hs now
  intro t
  change (if t.key.job = job then none else some t.undated) = _
  simp only [Query.OfJob.holds, decide_eq_true_eq]

theorem purge_aims (hs : s.grid.WellFiled) (now : Instant) :
  (purge now).Ends s (fun _ s' => ∀ k, s'.grid.undated? k = s.goal .purge k)
    (fun _ s' => ∀ k, s'.goal .purge k = s.goal .purge k)
  := by
  apply removeWhere_aims hs now
  intro t
  change (if t.status = .completed then none else some t.undated) = _
  simp only [Query.ByStatus.holds, Option.all_none, and_true, decide_eq_true_eq]

/-! ### Releases -/

theorem releaseFrom_undated (now : Instant) (k : Key) (sink : Option Int32) (t : Tracker) :
  (releaseFrom now k sink t).undated
    = if sink.all (· = t.sink) then t.undated.relieved [k] else t.undated
  := by
  split
  · rename_i hsink
    exact undated_releaseFrom (fun _ => hsink)
  · rename_i hsink
    rw [releaseFrom, if_neg]
    simp [Query.WaitingFor.holds, hsink]

theorem removeFromWaitingOn_aims (hs : s.grid.WellFiled) (now : Instant) (k : Key)
    (sink : Option Int32) :
  (removeFromWaitingOn now k sink).Ends s
    (fun _ s' => ∀ j, s'.grid.undated? j = s.goal (.removeFromWaitingOn k sink) j)
    (fun _ s' => ∀ j, s'.goal (.removeFromWaitingOn k sink) j
      = s.goal (.removeFromWaitingOn k sink) j)
  := by
  have hcommits : CommitsOnly (Agrees (Operation.aim s (.removeFromWaitingOn k sink))) True
      (removeFromWaitingOn now k sink : Attempt (Scheduler p σ) (SortedSet Key)) := by
    apply walks_bind_pure
    apply commitsOnly_onBoard
    apply Board.commitsOnly_adjustWhere now (Change.Release.apply_key _)
    intro t hq
    have hsink : sink.all (· = t.sink) = true := (of_decide_eq_true hq).1
    apply agrees_amend
    rw [Change.Release.apply_eq_relieved]
    change some (if sink.all (· = t.sink) then (t.undated.relieved [k]).relieved [k] else _)
      = some (if sink.all (· = t.sink) then t.undated.relieved [k] else _)
    rw [if_pos hsink, if_pos hsink, Tracker.relieved_relieved]
  apply ((removeFromWaitingOn_ends hs now k sink).and (hcommits s)).mono
  · rintro _ s' ⟨⟨-, -, -, hfind⟩, -⟩ j
    rw [goal, Grid.undated?, Grid.undated?, hfind]
    cases s.grid.find? j with
    | none => rfl
    | some t =>
      exact congrArg some (releaseFrom_undated now k sink t)
  · exact fun _ _ h => (h.2 hs).1.agrees

/-! ### Completions -/

/-- A tracker which is retired is settled, and one which is relieved is settled the same. -/
theorem settled_kept (retention : Retention) {ks : List Key} {t : Tracker} (hk : t.key ∈ ks) :
  (t.kept retention).bind (fun u => u.settled retention ks u.key)
    = t.settled retention ks t.key
  := by
  rw [Tracker.settled_of_mem hk]
  cases retention with
  | purge => rfl
  | retain => apply Tracker.settled_of_mem hk

theorem settled_relieved (retention : Retention) (ks : List Key) (k : Key) (t : Tracker) :
  (t.relieved ks).settled retention ks k = t.settled retention ks k
  := by
  rw [Tracker.settled, Tracker.settled, Tracker.kept_relieved, Tracker.relieved_relieved]

/-- A completion which fails may be taken up again. -/
theorem complete_agrees (hs : s.grid.WellFiled) (now : Instant) (k : Key) :
  (complete now k).Ends s (fun _ _ => True)
    (fun _ s' => ∀ j, (s'.grid.undated? j).bind (Operation.aim s (.complete k))
      = s.goal (.complete k) j)
  := by
  have hretire := commitsOnly_retire (p := p) (σ := σ) (F := True) now k
    (P := fun _ _ => True) (fun _ => trivial) (fun _ => trivial) s
  have hrelease : ∀ sink, CommitsOnly (Agrees (Operation.aim s (.complete k))) True
      (releaseDependents now k sink : Attempt (Scheduler p σ) (SortedSet Key)) := by
    intro sink
    apply commitsOnly_releaseDependents
    intro t
    apply agrees_amend
    rw [Change.Release.apply_eq_relieved]
    exact settled_relieved s.settings.retention [k] t.key t.undated
  rw [complete_eq, ends_bind]
  apply (((retire_ends hs now k).and hretire).and (retire_refused now k)).mono
  · rintro sink s₁ ⟨⟨⟨-, -, rfl, hfind⟩, hcommits⟩, -⟩
    have hretired : ∀ j, (s₁.grid.undated? j).bind (Operation.aim s (.complete k))
        = s.goal (.complete k) j := by
      intro j
      rw [goal, Grid.undated?, hfind]
      split
      · rename_i hj
        subst hj
        rw [undated_retired, Grid.undated?]
        cases ht : s.grid.find? j with
        | none => rfl
        | some t =>
          obtain rfl := hs.key ht
          apply settled_kept s.settings.retention (t := t.undated) List.mem_cons_self
      · rfl
    apply (hrelease _ s₁).mono
    · exact fun _ _ _ => trivial
    · intro _ s₂ h j
      rw [← hretired]
      apply (h ((hcommits hs).filed hs)).1.agrees
  · rintro _ s₁ ⟨-, -, -, hgrid⟩ j
    rw [hgrid]
    rfl

theorem complete_aims (hs : s.grid.WellFiled) (now : Instant) {k : Key}
    (hk : s.grid.Gathered k) :
  (complete now k).Ends s (fun _ s' => ∀ j, s'.grid.undated? j = s.goal (.complete k) j)
    (fun _ s' => ∀ j, s'.goal (.complete k) j = s.goal (.complete k) j)
  := by
  have hsettings : (complete now k).Ends s (fun _ s' => s'.settings = s.settings)
      (fun _ s' => s'.settings = s.settings) := by
    apply ends_of_stateAfter
    have hafter := Operation.perform_settings now (.complete k) s
    rwa [Operation.perform, stateAfter_bind_pure] at hafter
  apply (((complete_ends hs now k).and (complete_agrees hs now k)).and hsettings).mono
  · rintro _ s' ⟨⟨⟨-, -, -, hfind⟩, -⟩, -⟩ j
    rw [undated?_of_find? hk hfind, goal, Grid.undated?]
    cases ht : s.grid.find? j with
    | none => rfl
    | some t =>
      obtain rfl := hs.key ht
      rfl
  · rintro _ s' ⟨⟨-, hagrees⟩, hsame⟩ j
    have haim : Operation.aim s' (.complete k) = Operation.aim s (.complete k) := by
      funext t
      change t.settled s'.settings.retention [k] t.key = t.settled s.settings.retention [k] t.key
      rw [hsame]
    rw [← hagrees, goal, haim]

end Scheduler

end ChunkDispatch
