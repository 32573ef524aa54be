import ChunkDispatch.Proofs.Alike
import ChunkDispatch.Proofs.Refill

/-!
# Schedulers in lockstep

Two schedulers related by `R` are in *lockstep* if the same chunks are ready in both, their queues
are the same, and to move a chunk between live statuses is alike on them.  Then everything which is
put together from such moves is alike on them: filling up a queue, and handing a processed chunk
over to its delivery.
-/

namespace ChunkDispatch.Scheduler

open Attempt

variable {p p' : Partitioner} {σ τ : Type} [Store σ] [Store τ] [LawfulStore τ] {now : Instant}

/-- Schedulers related by `R` agree on the ready chunks and on the queues, and so do the moves
between live statuses, which leave such schedulers. -/
structure Lockstep (now : Instant) (R : Scheduler p σ → Scheduler p' τ → Prop) : Prop where
  filed {s : Scheduler p σ} {s' : Scheduler p' τ} : R s s' → s'.grid.WellFiled
  maxEnqueued {s : Scheduler p σ} {s' : Scheduler p' τ} : R s s' →
    s.settings.maxEnqueued = s'.settings.maxEnqueued
  queue {s : Scheduler p σ} {s' : Scheduler p' τ} : R s s' → ∀ sink phase,
    (s.book.get now sink).queue phase = (s'.book.get now sink).queue phase
  ready {s : Scheduler p σ} {s' : Scheduler p' τ} : R s s' → ∀ (phase : Phase) sink limit,
    s.find phase.ready sink limit = s'.find phase.ready sink limit
  found {s : Scheduler p σ} {s' : Scheduler p' τ} : R s s' → ∀ {k}, s'.grid.isLive k = true →
    s.find? k = s'.find? k
  updateMode {s : Scheduler p σ} {s' : Scheduler p' τ} : R s s' → ∀ sink phase,
    (s.updateMode now sink phase).1 = (s'.updateMode now sink phase).1 ∧
      R (s.updateMode now sink phase).2 (s'.updateMode now sink phase).2
  transition {s : Scheduler p σ} {s' : Scheduler p' τ} : R s s' → ∀ k {source target},
    source ≠ .completed → target ≠ .completed →
      Alike R (transition now k source target) s (transition now k source target) s'

/-- A chunk which was moved into a live status is live. -/
theorem transition_isLive {s : Scheduler p τ} (hs : s.grid.WellFiled) (now : Instant) (k : Key)
    {source target : Status} (hsource : source ≠ .blocked) (htarget : target ≠ .blocked)
    (hlive : target.isLive = true) :
  (transition now k source target).Ends s
    (fun moved s' => moved = true → s'.grid.isLive k = true) (fun _ _ => True)
  := by
  apply (transition_ends hs now k hsource htarget).mono
  · rintro moved s' ⟨rfl, hfind⟩ hmoved
    obtain ⟨t, ht, hyes⟩ := (Option.any_eq_true _ _).mp hmoved
    apply Grid.isLive_iff.mpr
    use Board.amend now (Change.Move.apply ⟨source, target⟩) t
    constructor
    · rw [hfind, if_pos rfl, ht, Option.map_some]
    · rcases Change.Move.apply_status ⟨source, target⟩ t with ⟨heq, -⟩ | ⟨-, -, -, hstatus⟩
      · rw [heq] at hyes
        cases hyes
      · rw [Board.amend_isLive, Tracker.isLive, hstatus, hlive]
  · exact fun _ _ _ => trivial

namespace Lockstep

variable {R : Scheduler p σ → Scheduler p' τ → Prop} (hR : Lockstep now R)
variable {s : Scheduler p σ} {s' : Scheduler p' τ} (h : R s s')

include hR h

omit [LawfulStore τ] in
theorem transitionAll {source target : Status} (hsource : source ≠ .completed)
    (htarget : target ≠ .completed) (ks : List Key) :
  Alike R (transitionAll now source target ks) s (transitionAll now source target ks) s'
  := by
  induction ks generalizing s s' with
  | nil => apply alike_pure [] h
  | cons k rest ih =>
    apply (hR.transition h k hsource htarget).bind
    intro moved t t' ht
    apply (ih ht).bind_pure

omit [LawfulStore τ] in
theorem bulkSchedule (sink : Int32) (phase : Phase) :
  Alike R (bulkSchedule now sink phase) s (bulkSchedule now sink phase) s'
  := by
  apply alike_get
  simp only [hR.maxEnqueued h, hR.queue h, hR.ready h]
  apply alike_ite
  · exact fun _ => alike_pure [] h
  · intro _
    apply hR.transitionAll h phase.ready_ne_completed phase.queued_ne_completed

omit [LawfulStore τ] in
/-- A chunk which moved is live, so that both schedulers find its tracker. -/
theorem refill {k : Key} {moved : Bool} (hmoved : moved = true → s'.grid.isLive k = true) :
  Alike R (refill now k moved) s (refill now k moved) s'
  := by
  apply alike_ite
  · intro hyes
    apply alike_get
    rw [hR.found h (hmoved hyes)]
    cases s'.find? k with
    | none => apply alike_pure true h
    | some t =>
      obtain ⟨hchanged, hmode⟩ := hR.updateMode h t.sink .processing
      apply (alike_modifyGet hchanged hmode).bind
      intro _ t₁ t₁' ht₁
      apply alike_get
      have hqueue : (t₁.book.get now t.sink).processing = (t₁'.book.get now t.sink).processing :=
        hR.queue ht₁ t.sink .processing
      rw [hqueue]
      apply alike_ite
      · intro _
        apply (hR.bulkSchedule ht₁ t.sink .processing).bind_pure
      · exact fun _ => alike_pure true ht₁
  · exact fun _ => alike_pure false h

theorem processingDone (k : Key) :
  Alike R (processingDone now k) s (processingDone now k) s'
  := by
  have hqueued : Status.queuedForProcessing ≠ .blocked ∧
      Status.queuedForProcessing ≠ .completed := by
    decide
  have hready : Status.readyForDelivery ≠ .blocked ∧ Status.readyForDelivery ≠ .completed := by
    decide
  have hlive := transition_isLive (hR.filed h) now k hqueued.1 hready.1 rfl
  rw [processingDone_eq, processingDone_eq]
  apply (hR.transition h k hqueued.2 hready.2).bind_of_ends hlive
  intro moved t t' ht hmoved
  apply hR.refill ht hmoved

end Lockstep

end ChunkDispatch.Scheduler
