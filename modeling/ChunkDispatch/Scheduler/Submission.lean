import ChunkDispatch.Scheduler

/-!
# Submission to the queues

Chunks get into the queue of a phase one by one while its mode is direct, and in bulk while it is
full.  A chunk moves between statuses on request only if it is still in the status it is to leave,
and never into or out of being blocked.
-/

namespace ChunkDispatch.Scheduler

variable {p : Partitioner} {σ : Type}

/-- Puts a queue of a sink into a mode. -/
def forceMode (now : Instant) (sink : Int32) (phase : Phase) (mode : SubmitMode)
    (s : Scheduler p σ) : Scheduler p σ :=
  s.mapBook (·.update now sink (·.mapQueue phase (·.setMode now mode)))

/-- Puts a queue of a sink into the mode it has to be in; whether that is another than before. -/
def updateMode (now : Instant) (sink : Int32) (phase : Phase) (s : Scheduler p σ) :
    Bool × Scheduler p σ :=
  let (changed, book) :=
    s.book.updateMode s.settings.maxEnqueued s.settings.directMark now sink phase
  (changed, s.mapBook (fun _ => book))

variable [Store σ]

/-- Moves a chunk from one status to another, if it is still in the first; whether it moved. -/
def transition (now : Instant) (k : Key) (source target : Status) :
    Attempt (Scheduler p σ) Bool := do
  if source = .blocked ∨ target = .blocked then
    throw (.badTransition source target)
  let moved ← onBoard (Board.adjust now k (Change.Move.apply ⟨source, target⟩))
  if moved = some true then
    if target = .queuedForProcessing then
      modify (send k)
    return true
  else
    return false

/-- Moves each of some chunks from one status to another; the keys of those which moved. -/
def transitionAll (now : Instant) (source target : Status) :
    List Key → Attempt (Scheduler p σ) (List Key)
  | [] => return []
  | k :: rest => do
    let moved ← transition now k source target
    let others ← transitionAll now source target rest
    return if moved then k :: others else others

/--
Moves as many ready chunks of a sink into the queue of a phase as there is room for, the most
urgent first; their keys in that order.
-/
def bulkSchedule (now : Instant) (sink : Int32) (phase : Phase) :
    Attempt (Scheduler p σ) (List Key) := do
  let s ← get
  let room := s.settings.maxEnqueued - ((s.book.get now sink).queue phase).enqueued
  if room = 0 then
    return []
  transitionAll now phase.ready phase.queued (s.find phase.ready (some sink) (some room))

/--
A queued chunk was processed and now waits for its delivery; whether it was queued.  The place it
leaves in the queue is for the ready chunks of its sink.
-/
def processingDone (now : Instant) (k : Key) : Attempt (Scheduler p σ) Bool := do
  let moved ← transition now k .queuedForProcessing .readyForDelivery
  if moved then
    match (← get).find? k with
    | none => return true
    | some t =>
      let _ ← modifyGet (updateMode now t.sink .processing)
      if 0 < ((← get).book.get now t.sink).processing.ready then
        let _ ← bulkSchedule now t.sink .processing
      return true
  else
    return false

end ChunkDispatch.Scheduler
