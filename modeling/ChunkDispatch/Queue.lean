import ChunkDispatch.Json.Codec

/-!
# Queues

Every sink has a queue for each phase.  Its *submit mode* says how chunks get into it: in
*direct* mode a chunk enters as soon as it is ready; in *bulk* mode, when the queue is full,
chunks stay ready until they are moved together; the way back leads through a *transition*, in
which chunks enter at once but which lasts some time, so that the mode does not flap.
-/

namespace ChunkDispatch

/-- How chunks get into a queue. -/
inductive SubmitMode where
  | direct
  | bulk
  | transitionToDirect
deriving DecidableEq, Repr, Inhabited

namespace SubmitMode

/-- All submit modes. -/
def all : List SubmitMode :=
  [direct, bulk, transitionToDirect]

/-- The name of a submit mode in records. -/
def tag : SubmitMode → String
  | direct => "DIRECT"
  | bulk => "BULK"
  | transitionToDirect => "TRANSITION_TO_DIRECT"

/-- The submit mode with a name in records. -/
def ofTag? (s : String) : Option SubmitMode :=
  all.find? (fun m => m.tag = s)

theorem ofTag?_tag (m : SubmitMode) :
  ofTag? m.tag = some m
  := by
  cases m <;> decide

instance : Codec SubmitMode :=
  .choice tag ofTag?

end SubmitMode

/-- What is known of a queue: how many chunks are ready for it and in it, and its mode. -/
structure Queue where
  ready : Nat
  enqueued : Nat
  mode : SubmitMode
  modeChangedAt : Instant
deriving DecidableEq, Repr

namespace Queue

/-- The queue nothing is known of: empty, and in direct mode since `now`. -/
def fresh (now : Instant) : Queue :=
  ⟨0, 0, .direct, now⟩

/-- Whether a chunk may enter as soon as it is ready. -/
def admitsDirectly (q : Queue) : Bool :=
  q.mode ≠ .bulk

/-- The queue put into the mode `m` at `now`. -/
def setMode (now : Instant) (m : SubmitMode) (q : Queue) : Queue :=
  if q.mode = m then q else { q with mode := m, modeChangedAt := now }

@[simp]
theorem setMode_mode (now : Instant) (m : SubmitMode) (q : Queue) :
  (q.setMode now m).mode = m
  := by
  rw [setMode]
  split
  · assumption
  · rfl

@[simp]
theorem setMode_ready (now : Instant) (m : SubmitMode) (q : Queue) :
  (q.setMode now m).ready = q.ready
  := by
  rw [setMode]
  split <;> rfl

@[simp]
theorem setMode_enqueued (now : Instant) (m : SubmitMode) (q : Queue) :
  (q.setMode now m).enqueued = q.enqueued
  := by
  rw [setMode]
  split <;> rfl

/-- The nanoseconds a transition lasts at least. -/
def grace : Int := 2000000000

/--
The mode a queue has to be in at `now`.  With `max` chunks in it a queue goes to bulk; from bulk
it goes to the transition once no more than `mark` chunks are left; from the transition to direct
once the grace is over.
-/
def dueMode (max mark : Nat) (now : Instant) (q : Queue) : SubmitMode :=
  match q.mode with
  | .direct => if max ≤ q.enqueued then .bulk else .direct
  | .bulk => if q.enqueued ≤ mark then .transitionToDirect else .bulk
  | .transitionToDirect =>
    if max ≤ q.enqueued then .bulk
    else if grace ≤ q.modeChangedAt.nanosUntil now then .direct
    else .transitionToDirect

/-- The queue in the mode it has to be in at `now`, and whether that is another than before. -/
def updateMode (max mark : Nat) (now : Instant) (q : Queue) : Bool × Queue :=
  let due := q.dueMode max mark now
  (decide (due ≠ q.mode), q.setMode now due)

instance : Codec Queue :=
  .record ["ready", "enqueued", "mode", "mode_changed_at"]
    (fun q => (q.ready, q.enqueued, q.mode, q.modeChangedAt, ()))
    (fun (ready, enqueued, mode, modeChangedAt, ()) => ⟨ready, enqueued, mode, modeChangedAt⟩)

end Queue

end ChunkDispatch
