import ChunkDispatch.Proofs.Completion
import ChunkDispatch.Proofs.Registration
import ChunkDispatch.Scheduler.Operation

/-!
# What operations write

Whatever operations other than loading write to the board replaces what is found under a key by one
of a few means: a chunk which is not live is enrolled with a consistent live tracker, a tracker is
changed, and never moved into or out of being blocked, or it is removed.  This holds however the
operation ends, so for whatever of its writes the store takes (`perform_commitsOnly`).
-/

namespace ChunkDispatch

open Attempt

variable {p : Partitioner} {σ : Type}

/-- What an operation at `now` may put in the place of what it finds under a key. -/
inductive Replaces (now : Instant) : Option Tracker → Option Tracker → Prop where
  | enrol {old : Option Tracker} {t : Tracker} (hold : old.any Tracker.isLive = false)
      (hlive : t.isLive = true) (ht : t.isConsistent = true) : Replaces now old (some t)
  | release (c : Change.Release) (t : Tracker) :
      Replaces now (some t) (some (Board.amend now c.apply t))
  | force (c : Change.Force) (t : Tracker) :
      Replaces now (some t) (some (Board.amend now c.apply t))
  | move {c : Change.Move} (hsource : c.source ≠ .blocked) (htarget : c.target ≠ .blocked)
      (t : Tracker) : Replaces now (some t) (some (Board.amend now c.apply t))
  | raise (c : Change.Raise) (t : Tracker) :
      Replaces now (some t) (some (Board.amend now c.apply t))
  | resend (c : Change.Resend) (t : Tracker) :
      Replaces now (some t) (some (Board.amend now c.apply t))
  | remove (old : Option Tracker) : Replaces now old none

/-- What replaces a consistent tracker, or none, is consistent. -/
theorem Replaces.consistent {now : Instant} {old new : Option Tracker} (h : Replaces now old new)
    (hold : ∀ t, old = some t → t.isConsistent = true) (t' : Tracker) (ht' : new = some t') :
  t'.isConsistent = true
  := by
  have hamend : ∀ {α : Type} {f : Tracker → α × Tracker} {t : Tracker}, old = some t →
      t.Trims (f t).2 → Board.amend now f t = t' → t'.isConsistent = true := by
    rintro α f t ht htrims rfl
    apply (Board.trims_amend now htrims).consistent (hold t ht)
  cases h with
  | enrol _ _ ht =>
    cases ht'
    apply ht
  | release c t => apply hamend rfl (c.eases t).toTrims (Option.some.inj ht')
  | force c t => apply hamend rfl (c.trims t) (Option.some.inj ht')
  | move hsource htarget t =>
    apply hamend rfl (Change.Move.trims hsource htarget t) (Option.some.inj ht')
  | raise c t => apply hamend rfl (c.steady t).eases.toTrims (Option.some.inj ht')
  | resend c t => apply hamend rfl (c.steady t).eases.toTrims (Option.some.inj ht')
  | remove => cases ht'

/-- The relation permits what any operation at `now`, save registering and sending again, puts in a
place. -/
structure AllowsEdits (now : Instant) (P : Option Tracker → Option Tracker → Prop) : Prop where
  release : ∀ (c : Change.Release) (t : Tracker), P (some t) (some (Board.amend now c.apply t))
  force : ∀ (c : Change.Force) (t : Tracker), P (some t) (some (Board.amend now c.apply t))
  move : ∀ {c : Change.Move}, c.source ≠ .blocked → c.target ≠ .blocked →
    ∀ t : Tracker, P (some t) (some (Board.amend now c.apply t))
  raise : ∀ (c : Change.Raise) (t : Tracker), P (some t) (some (Board.amend now c.apply t))
  remove : ∀ old : Option Tracker, P old none

/-- The relation permits what any operation at `now`, save registering, puts in a place. -/
structure Allows (now : Instant) (P : Option Tracker → Option Tracker → Prop) : Prop
    extends AllowsEdits now P where
  resend : ∀ (c : Change.Resend) (t : Tracker), P (some t) (some (Board.amend now c.apply t))

theorem Replaces.allows (now : Instant) :
  Allows now (Replaces now)
  := ⟨⟨.release, .force, .move, .raise, .remove⟩, .resend⟩

namespace Operation

variable [Store σ] [LawfulStore σ]

/-- Operations other than loading and registering put in a place only what is allowed; what sending
again puts need be allowed only if they do so. -/
theorem commitsOnly_of_allowsEdits {P : Option Tracker → Option Tracker → Prop} {now : Instant}
    (hP : AllowsEdits now P) {o : Operation} (hload : o ≠ load)
    (hregister : ∀ c barrier, o ≠ register c barrier)
    (hresend : ∀ k, o = resend k →
      ∀ t, P (some t) (some (Board.amend now (Change.Resend.apply ⟨⟩) t))) :
  Scheduler.CommitsOnly P True (o.perform now : Attempt (Scheduler p σ) Answer)
  := by
  cases o with
  | load => exact absurd rfl hload
  | register c barrier => exact absurd rfl (hregister c barrier)
  | complete k =>
    apply walks_bind_pure
    apply Scheduler.commitsOnly_complete
    · exact hP.remove
    · exact hP.force ⟨.completed⟩
    · exact hP.release ⟨k⟩
  | removeFromWaitingOn k sink =>
    apply walks_bind_pure
    apply Scheduler.commitsOnly_removeFromWaitingOn
    exact hP.release ⟨k⟩
  | processingDone k =>
    apply walks_bind_pure
    apply Scheduler.commitsOnly_processingDone
    · apply hP.move <;> decide
    · apply hP.move <;> decide
  | transition k source target =>
    apply walks_bind_pure
    apply Scheduler.commitsOnly_transition
    · exact fun _ => trivial
    · exact fun hsource htarget => hP.move hsource htarget
  | setStatus k status =>
    apply walks_bind_pure
    apply Scheduler.commitsOnly_setStatus
    exact hP.force ⟨status⟩
  | resetStatus source target jobs =>
    apply walks_bind_pure
    apply Scheduler.commitsOnly_resetStatus
    · exact fun _ => trivial
    · exact hP.force ⟨target⟩
  | resend k =>
    apply walks_bind_pure
    apply Scheduler.commitsOnly_resend
    exact hresend k rfl
  | boost ks priority =>
    apply walks_bind_pure
    apply Scheduler.commitsOnly_boost
    exact hP.raise ⟨priority⟩
  | remove k =>
    apply walks_bind_pure
    apply Scheduler.commitsOnly_onBoard
    apply Board.commitsOnly_remove
    exact hP.remove
  | removeJob job =>
    apply walks_bind_pure
    apply Scheduler.commitsOnly_onBoard
    apply Board.commitsOnly_removeWhere
    exact fun _ _ => hP.remove _
  | recheck =>
    apply walks_bind_pure
    apply Scheduler.commitsOnly_recheck
    exact fun j => hP.release ⟨j⟩
  | purge =>
    apply walks_bind_pure
    apply Scheduler.commitsOnly_onBoard
    apply Board.commitsOnly_removeWhere
    exact fun _ _ => hP.remove _
  | bulkSchedule sink phase =>
    apply walks_bind_pure
    apply Scheduler.commitsOnly_bulkSchedule
    cases phase <;> (apply hP.move <;> decide)
  | forceMode sink phase mode =>
    apply walks_bind_pure
    apply walks_modify
    exact fun _ _ => Relation.ReflTransGen.single (.book ⟨_, rfl⟩)
  | updateMode sink phase =>
    apply walks_bind_pure (Scheduler.commitsOnly_updateMode now sink phase)
  | recount sinks =>
    apply walks_bind_pure (Scheduler.commitsOnly_recount now sinks)

theorem commitsOnly_of_allows {P : Option Tracker → Option Tracker → Prop} {now : Instant}
    (hP : Allows now P) {o : Operation} (hload : o ≠ load)
    (hregister : ∀ c barrier, o ≠ register c barrier) :
  Scheduler.CommitsOnly P True (o.perform now : Attempt (Scheduler p σ) Answer)
  := commitsOnly_of_allowsEdits hP.toAllowsEdits hload hregister (fun _ _ => hP.resend ⟨⟩)

/-- Operations other than loading replace trackers, and do nothing else to the board. -/
theorem perform_commitsOnly (now : Instant) {o : Operation} (ho : o ≠ load) :
  Scheduler.CommitsOnly (Replaces now) True (o.perform now : Attempt (Scheduler p σ) Answer)
  := by
  by_cases hregister : ∃ c barrier, o = register c barrier
  · obtain ⟨c, barrier, rfl⟩ := hregister
    apply walks_bind_pure
    apply Scheduler.commitsOnly_register
    · exact fun j => .release ⟨j⟩
    · exact fun _ _ => .enrol
  · apply commitsOnly_of_allows (Replaces.allows now) ho
    exact fun c barrier heq => hregister ⟨c, barrier, heq⟩

end Operation

end ChunkDispatch
