import ChunkDispatch.Board.Mutation
import ChunkDispatch.Proofs.Completion
import ChunkDispatch.Proofs.Registration
import ChunkDispatch.Scheduler.Operation

/-!
# Operations step by step

An action of the board is put together from a few *steps*: an action of its store, a tracker placed
in the grid, a key dropped from it.  Its *writes* are each an action of the store with the steps
that follow it.  An operation is put together from actions of the board, from keys sent and from
changes of mode.  Whoever shows of two relations that each step, or each write, walks along them
has shown it of all actions of the board, and of all operations but loading and recounting.
-/

namespace ChunkDispatch

open Attempt

variable {p : Partitioner} {σ : Type}

namespace Board

/-- The writes of the board, each with what it does to the grid, walk along `T` and `E`. -/
structure Writes [Store σ] (now : Instant) (T E : Board p σ → Board p σ → Prop) : Prop where
  set : ∀ t, (Board.set now t).Walks T E
  setAll : ∀ ts, (Board.setAll now ts).Walks T E
  putAll : ∀ ts : List Tracker, Walks T E (do
    onStore (Store.putAll ts)
    modify (fun b => ts.foldl (fun b t => b.place now t) b))
  delete : ∀ k, Walks T E (do
    onStore (Store.delete k)
    modify (drop now k))
  deleteAll : ∀ ks : List Key, Walks T E (do
    onStore (Store.deleteAll ks)
    modify (fun b => ks.foldl (fun b k => b.drop now k) b))

namespace Writes

variable [Store σ] {now : Instant} {T E : Board p σ → Board p σ → Prop} (h : Writes now T E)

include h

theorem walks_remove (k : Key) :
  (Board.remove now k).Walks T E
  := walks_bind_of_modify (h.delete k) (fun _ => rfl)

variable [Composes T E] {α : Type}

theorem walks_removeWhere (q : Tracker → Bool) :
  (Board.removeWhere now q).Walks T E
  := by
  apply walks_bind_pure
  apply walks_mapM
  intro i
  apply walks_bind walks_get
  intro b
  apply walks_ite
  · exact fun _ => walks_pure _
  · exact fun _ => walks_bind_of_modify (h.deleteAll _) (fun _ => rfl)

theorem walks_adjust (k : Key) (f : Tracker → α × Tracker) :
  (Board.adjust now k f).Walks T E
  := by
  apply walks_bind walks_get
  intro b
  split
  · apply walks_pure
  · simp only []
    split
    · apply walks_pure
    · apply walks_bind_pure (h.set _)

theorem walks_adjustWhere (q : Tracker → Bool) (f : Tracker → α × Tracker) :
  (Board.adjustWhere now q f).Walks T E
  := by
  apply walks_bind_pure
  apply walks_mapM
  intro i
  apply walks_bind walks_get
  intro b
  apply walks_ite
  · exact fun _ => walks_bind_of_modify (h.putAll _) (fun _ => rfl)
  · exact fun _ => walks_pure _

/-- Every mutation but loading walks along what its writes walk along. -/
theorem walks_perform {m : Mutation} (hload : m ≠ .loadAll) :
  (m.perform now).Walks T E
  := by
  cases m with
  | set t => apply walks_bind_pure (h.set t)
  | setAll ts => apply walks_bind_pure (h.setAll ts)
  | remove k => apply walks_bind_pure (h.walks_remove k)
  | removeWhere q => apply walks_bind_pure (h.walks_removeWhere _)
  | adjust k c => apply walks_bind_pure (h.walks_adjust k _)
  | adjustKeys ks c => apply walks_bind_pure (h.walks_adjustWhere _ _)
  | adjustWhere q c => apply walks_bind_pure (h.walks_adjustWhere _ _)
  | loadAll => exact absurd rfl hload

end Writes

/-- What an action of the board does by itself walks along `T` and `E`. -/
structure Steps (now : Instant) (T E : Board p σ → Board p σ → Prop) : Prop where
  store : ∀ {α : Type} (x : Attempt σ α), (onStore x).Walks T E
  place : ∀ t b, T b (place now t b)
  drop : ∀ k b, T b (drop now k b)

namespace Steps

variable {now : Instant} {T E : Board p σ → Board p σ → Prop} [Composes T E] (h : Steps now T E)

include h

theorem foldl_place (ts : List Tracker) (b : Board p σ) :
  T b (ts.foldl (fun b t => b.place now t) b)
  := by
  induction ts generalizing b with
  | nil => apply Composes.refl E
  | cons t rest ih => apply Composes.trans E (h.place t b) (ih _)

theorem foldl_drop (ks : List Key) (b : Board p σ) :
  T b (ks.foldl (fun b k => b.drop now k) b)
  := by
  induction ks generalizing b with
  | nil => apply Composes.refl E
  | cons k rest ih => apply Composes.trans E (h.drop k b) (ih _)

/-- Actions of the store with what they do to the grid walk along what the single steps do. -/
theorem writes [Store σ] :
  Writes now T E
  where
  set t := walks_bind (h.store _) (fun _ => walks_modify (h.place t))
  setAll ts := by
    apply walks_ite
    · exact fun _ => walks_pure _
    · exact fun _ => walks_bind (h.store _) (fun _ => walks_modify (h.foldl_place _))
  putAll ts := walks_bind (h.store _) (fun _ => walks_modify (h.foldl_place ts))
  delete k := walks_bind (h.store _) (fun _ => walks_modify (h.drop k))
  deleteAll ks := walks_bind (h.store _) (fun _ => walks_modify (h.foldl_drop ks))

end Steps

end Board

namespace Scheduler

variable [Store σ]

/-- What an operation does by itself walks along `T` and `E`. -/
structure Steps (now : Instant) (T E : Scheduler p σ → Scheduler p σ → Prop) : Prop where
  set : ∀ t, (onBoard (Board.set now t)).Walks T E
  remove : ∀ k, (onBoard (Board.remove now k)).Walks T E
  removeWhere : ∀ q, (onBoard (Board.removeWhere now q)).Walks T E
  adjust : ∀ {α : Type} k (f : Tracker → α × Tracker), (onBoard (Board.adjust now k f)).Walks T E
  adjustWhere : ∀ {α : Type} q (f : Tracker → α × Tracker),
    (onBoard (Board.adjustWhere now q f)).Walks T E
  send : ∀ k s, T s (send k s)
  updateMode : ∀ sink phase s, T s (updateMode now sink phase s).2
  forceMode : ∀ sink phase mode s, T s (forceMode now sink phase mode s)
  refuse : ∀ s, E s s

namespace Steps

variable {now : Instant} {T E : Scheduler p σ → Scheduler p σ → Prop} [Composes T E]
variable (h : Steps now T E)

include h

theorem foldl_send (ks : List Key) (s : Scheduler p σ) :
  T s (ks.foldl (fun s k => s.send k) s)
  := by
  induction ks generalizing s with
  | nil => apply Composes.refl E
  | cons k rest ih => apply Composes.trans E (h.send k s) (ih _)

theorem walks_transition (k : Key) (source target : Status) :
  (transition now k source target).Walks T E
  := by
  rw [transition]
  apply walks_ite
  · exact fun _ => walks_throw h.refuse _ _
  · intro _
    apply walks_bind (h.adjust k _)
    intro moved
    apply walks_ite
    · intro _
      apply walks_ite
      · exact fun _ => walks_bind_pure (walks_modify (h.send k)) _
      · exact fun _ => walks_pure _
    · exact fun _ => walks_pure _

theorem walks_bulkSchedule (sink : Int32) (phase : Phase) :
  (bulkSchedule now sink phase).Walks T E
  := Scheduler.walks_bulkSchedule now sink (fun k => h.walks_transition k _ _)

theorem walks_processingDone (k : Key) :
  (processingDone now k).Walks T E
  := by
  rw [processingDone_eq]
  apply walks_bind (h.walks_transition k _ _)
  intro moved
  apply walks_refill
  · exact fun sink => walks_modifyGet (h.updateMode sink _)
  · exact fun k' => h.walks_transition k' _ _

theorem walks_setStatus (k : Key) (status : Status) :
  (setStatus now k status).Walks T E
  := by
  apply walks_bind (h.adjust k _)
  intro changed
  apply walks_ite
  · intro _
    apply walks_ite
    · exact fun _ => walks_bind_pure (walks_modify (h.send k)) _
    · exact fun _ => walks_pure _
  · exact fun _ => walks_pure _

theorem walks_repair (k : Key) (gone : List Key) :
  (repair now k gone).Walks T E
  := by
  apply walks_forM
  intro prerequisite _
  apply walks_bind (h.adjust k _)
  intro released
  apply walks_ite
  · exact fun _ => walks_modify (h.send k)
  · exact fun _ => walks_pure _

theorem walks_removeFromWaitingOn (k : Key) (sink : Option Int32) :
  (removeFromWaitingOn now k sink).Walks T E
  := walks_bind_pure (h.adjustWhere _ _) _

theorem walks_complete (k : Key) :
  (complete now k).Walks T E
  := by
  rw [complete_eq]
  apply walks_bind
  · apply walks_bind walks_get
    intro _
    split
    · apply walks_bind_pure (h.remove k)
    · apply walks_bind_pure (h.adjust k _)
  · intro sink
    apply walks_bind (h.walks_removeFromWaitingOn k sink)
    intro released
    apply walks_bind_pure (walks_modify (h.foldl_send _))

theorem plan (c : Chunk) (barrier : Option String) (s : Scheduler p σ) :
  T s (s.plan now c barrier).2
  := by
  rw [Scheduler.plan]
  split
  · apply Composes.refl E
  · simp only [planNew]
    split
    · apply h.updateMode
    · apply Composes.refl E

theorem walks_dropFrom (t : Tracker) (gone : List Key) :
  (dropFrom now t gone).Walks T E
  := Scheduler.walks_dropFrom t gone (fun _ => h.adjust _ _)

theorem walks_register (c : Chunk) (barrier : Option String) :
  (register now c barrier).Walks T E
  := by
  apply walks_bind (walks_modifyGet (h.plan c barrier))
  rintro (t | ⟨t, gone⟩)
  · apply walks_bind (h.set t)
    intro _
    apply walks_bind walks_get
    intro s
    apply walks_bind (h.walks_dropFrom t _)
    intro t'
    apply walks_ite
    · exact fun _ => walks_bind_pure (walks_modify (h.send _)) _
    · exact fun _ => walks_pure _
  · apply walks_bind (h.walks_dropFrom t gone)
    intro t'
    apply walks_ite
    · exact fun _ => walks_bind_pure (walks_modify (h.send _)) _
    · exact fun _ => walks_pure _

/-- Every operation but loading and recounting walks along what its steps walk along. -/
theorem walks_perform {o : Operation} (hload : o ≠ .load)
    (hrecount : ∀ sinks, o ≠ .recount sinks) :
  (o.perform now).Walks T E
  := by
  cases o with
  | load => exact absurd rfl hload
  | register c barrier => apply walks_bind_pure (h.walks_register c barrier)
  | complete k => apply walks_bind_pure (h.walks_complete k)
  | removeFromWaitingOn k sink => apply walks_bind_pure (h.walks_removeFromWaitingOn k sink)
  | processingDone k => apply walks_bind_pure (h.walks_processingDone k)
  | transition k source target => apply walks_bind_pure (h.walks_transition k source target)
  | setStatus k status => apply walks_bind_pure (h.walks_setStatus k status)
  | resetStatus source target jobs =>
    apply walks_bind_pure
    apply walks_resetStatus
    · exact fun _ => h.refuse
    · exact fun k => h.walks_setStatus k target
  | resend k => apply walks_bind_pure (h.adjust k _)
  | boost ks priority =>
    apply walks_bind_pure
    apply walks_boost
    exact fun ks' => h.adjustWhere _ _
  | remove k => apply walks_bind_pure (h.remove k)
  | removeJob job => apply walks_bind_pure (h.removeWhere _)
  | recheck =>
    apply walks_bind_pure
    apply walks_recheck
    exact h.walks_repair
  | purge => apply walks_bind_pure (h.removeWhere _)
  | bulkSchedule sink phase => apply walks_bind_pure (h.walks_bulkSchedule sink phase)
  | forceMode sink phase mode =>
    apply walks_bind_pure
    apply walks_modify (h.forceMode sink phase mode)
  | updateMode sink phase =>
    apply walks_bind_pure
    apply walks_modifyGet (h.updateMode sink phase)
  | recount sinks => exact absurd rfl (hrecount sinks)

end Steps

end Scheduler

/-! ### Settings -/

namespace Scheduler

/-- The settings are the same. -/
def SameSettings (s s' : Scheduler p σ) : Prop :=
  s'.settings = s.settings

instance : Composes (SameSettings (p := p) (σ := σ)) SameSettings where
  refl _ := rfl
  trans h h' := h'.trans h
  last h h' := h'.trans h

theorem walks_onBoard_sameSettings {α : Type} (x : Attempt (Board p σ) α) :
  (onBoard x).Walks (SameSettings (p := p) (σ := σ)) SameSettings
  := by
  intro s
  rw [ends_onBoard]
  apply ends_of_forall
  · exact fun _ _ => rfl
  · exact fun _ _ => rfl

theorem sameSettings_recount (now : Instant) (sinks : SortedSet Int32) (s : Scheduler p σ) :
  s.SameSettings (s.recount now sinks)
  := rfl

theorem steps_sameSettings [Store σ] (now : Instant) :
  Steps (p := p) (σ := σ) now SameSettings SameSettings
  := by
  constructor
  · exact fun t => walks_onBoard_sameSettings _
  · exact fun k => walks_onBoard_sameSettings _
  · exact fun q => walks_onBoard_sameSettings _
  · exact fun k f => walks_onBoard_sameSettings _
  · exact fun q f => walks_onBoard_sameSettings _
  · intro k s
    rw [SameSettings, send]
    split <;> rfl
  · exact fun _ _ _ => rfl
  · exact fun _ _ _ _ => rfl
  · exact fun _ => rfl

end Scheduler

/-- No operation changes the settings. -/
theorem Operation.perform_settings [Store σ] (now : Instant) (o : Operation)
    (s : Scheduler p σ) :
  ((o.perform now).stateAfter s).settings = s.settings
  := by
  apply Ends.stateAfter (P := fun s' : Scheduler p σ => s.SameSettings s')
  by_cases hload : o = load
  · subst hload
    apply walks_bind_pure
    apply walks_bind (Scheduler.walks_onBoard_sameSettings _)
    intro n
    apply walks_bind_pure (walks_modify (Scheduler.sameSettings_recount now ∅))
  · by_cases hrecount : ∃ sinks, o = recount sinks
    · obtain ⟨sinks, rfl⟩ := hrecount
      apply walks_bind_pure (walks_modify (Scheduler.sameSettings_recount now sinks))
    · apply (Scheduler.steps_sameSettings now).walks_perform hload (not_exists.mp hrecount)

end ChunkDispatch
