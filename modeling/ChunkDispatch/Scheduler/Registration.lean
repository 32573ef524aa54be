import ChunkDispatch.Prerequisites
import ChunkDispatch.Scheduler.Submission

/-!
# Registration

A chunk is registered in two steps.  First it is *planned*: what the chunk has to wait for is read
off the trackers, and with it its status.  Then the plan is *carried out*: the tracker is written,
and prerequisites which are gone by then are dropped from its wait set.  In between others may
remove trackers; what the second step drops makes up for it.  A key which is live already is not
planned anew: its tracker stays as it is, save for prerequisites which are gone.
-/

namespace ChunkDispatch

/-- How a registration is to be carried out. -/
inductive Registration where
  /-- The chunk is new and gets this tracker. -/
  | enrol (t : Tracker)
  /-- The chunk is live with this tracker, of whose prerequisites these are gone. -/
  | renew (t : Tracker) (gone : List Key)

namespace Scheduler

variable {p : Partitioner} {σ : Type}

/-- The chunks a tracker has to wait for; a barrier is one match key more to share. -/
def prerequisites (s : Scheduler p σ) (t : Tracker) (barrier : Option String) :
    SortedSet Key :=
  if t.hashes.isEmpty ∧ barrier.isNone then ∅
  else
    let query := Query.Sharing.of t.sink t.submitter t.hashes barrier
    let candidates := (s.grid.values query.holds).filter (fun c =>
      c.key ≠ t.key ∧ t.key ∉ c.waitingOn)
    Prerequisites.minimal query.hashes candidates

/-- Whether a chunk may enter the queue of a sink at once. -/
def admitsDirectly (now : Instant) (sink : Int32) (s : Scheduler p σ) : Bool × Scheduler p σ :=
  let (_, s) := s.updateMode now sink .processing
  ((s.book.get now sink).processing.admitsDirectly, s)

/-- The tracker a new chunk gets: blocked, queued or ready. -/
def planNew (now : Instant) (c : Chunk) (barrier : Option String) (s : Scheduler p σ) :
    Tracker × Scheduler p σ :=
  let chunk := barrier.elim c (fun b => c.withMatchKey b)
  let t := chunk.track now
  let waitingOn := s.prerequisites t barrier
  if waitingOn.isEmpty then
    let (direct, s) := s.admitsDirectly now t.sink
    ({ t with status := if direct then .queuedForProcessing else .readyForProcessing }, s)
  else
    ({ t with waitingOn := waitingOn, status := .blocked }, s)

/-- Plans the registration of a chunk. -/
def plan (now : Instant) (c : Chunk) (barrier : Option String) (s : Scheduler p σ) :
    Registration × Scheduler p σ :=
  match (s.find? c.key).filter Tracker.isLive with
  | some t => (.renew t (s.goneFrom t), s)
  | none =>
    let (t, s) := s.planNew now c barrier
    (.enrol t, s)

variable [Store σ]

/-- Takes keys out of the wait set of a tracker, one after another; the tracker after it. -/
def dropFrom (now : Instant) (t : Tracker) (gone : List Key) :
    Attempt (Scheduler p σ) Tracker := do
  if gone.isEmpty then
    return t
  gone.forM (fun k => do
    let _ ← onBoard (Board.adjust now t.key (Change.Release.apply ⟨k⟩)))
  return ((← get).find? t.key).getD t

/-- Carries a registration out; the tracker the chunk has then. -/
def carryOut (now : Instant) : Registration → Attempt (Scheduler p σ) Tracker
  | .enrol t => do
    onBoard (Board.set now t)
    let t' ← dropFrom now t ((← get).goneFrom t)
    if t'.status = .queuedForProcessing then
      modify (send t.key)
    return t'
  | .renew t gone => do
    let t' ← dropFrom now t gone
    if t.status = .blocked ∧ t'.status = .queuedForProcessing then
      modify (send t.key)
    return t'

/-- Registers a chunk; the tracker it has then. -/
def register (now : Instant) (c : Chunk) (barrier : Option String) :
    Attempt (Scheduler p σ) Tracker := do
  let r ← modifyGet (plan now c barrier)
  carryOut now r

/--
Registers a chunk while another caller removes the chunk `k`: the removal comes between the plan
and its carrying out.  What the two come to, and the scheduler after both.
-/
def registerWhileRemoving (now : Instant) (c : Chunk) (barrier : Option String) (k : Key)
    (s : Scheduler p σ) : (Except Error Tracker × Except Error (Option Tracker)) × Scheduler p σ :=
  let (r, s) := s.plan now c barrier
  let removal : Attempt (Scheduler p σ) (Option Tracker) := onBoard (Board.remove now k)
  let s' := removal.stateAfter s
  (((carryOut now r).outcome s', removal.outcome s), (carryOut now r).stateAfter s')

end Scheduler

end ChunkDispatch
