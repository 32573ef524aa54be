import ChunkDispatch.Queue
import ChunkDispatch.Status

/-!
# Sinks

The *sink status* counts the chunks of a sink by their status and holds the modes of its two
queues.  Counting a chunk and taking it off again moves one of the six counts, which one the
status of the chunk says.
-/

namespace ChunkDispatch

/-- How many chunks of a sink are in which status, and the modes of its queues. -/
structure SinkStatus where
  processing : Queue
  delivering : Queue
  blocked : Nat
  completed : Nat
deriving DecidableEq, Repr

namespace SinkStatus

/-- The status of a sink without chunks. -/
def fresh (now : Instant) : SinkStatus :=
  ⟨.fresh now, .fresh now, 0, 0⟩

/-- The queue of a phase. -/
def queue (s : SinkStatus) : Phase → Queue
  | .processing => s.processing
  | .delivering => s.delivering

/-- The sink with what `f` makes of the queue of a phase. -/
def mapQueue (p : Phase) (f : Queue → Queue) (s : SinkStatus) : SinkStatus :=
  match p with
  | .processing => { s with processing := f s.processing }
  | .delivering => { s with delivering := f s.delivering }

/-- How many chunks are counted in a status. -/
def count (s : SinkStatus) : Status → Nat
  | .readyForProcessing => s.processing.ready
  | .queuedForProcessing => s.processing.enqueued
  | .blocked => s.blocked
  | .readyForDelivery => s.delivering.ready
  | .queuedForDelivery => s.delivering.enqueued
  | .completed => s.completed

/-- The sink with what `f` makes of the count of a status. -/
def mapCount (t : Status) (f : Nat → Nat) (s : SinkStatus) : SinkStatus :=
  match t with
  | .readyForProcessing => { s with processing.ready := f s.processing.ready }
  | .queuedForProcessing => { s with processing.enqueued := f s.processing.enqueued }
  | .blocked => { s with blocked := f s.blocked }
  | .readyForDelivery => { s with delivering.ready := f s.delivering.ready }
  | .queuedForDelivery => { s with delivering.enqueued := f s.delivering.enqueued }
  | .completed => { s with completed := f s.completed }

/-- One chunk more in a status. -/
def add (t : Status) : SinkStatus → SinkStatus :=
  mapCount t (· + 1)

/-- One chunk less in a status; a count of zero stays. -/
def remove (t : Status) : SinkStatus → SinkStatus :=
  mapCount t (· - 1)

/-- The counts of both sinks together, with the modes of the first. -/
def addCounts (s other : SinkStatus) : SinkStatus :=
  Status.all.foldl (fun s t => s.mapCount t (· + other.count t)) s

theorem count_mapCount (s : SinkStatus) (t t' : Status) (f : Nat → Nat) :
  (s.mapCount t f).count t' = if t' = t then f (s.count t) else s.count t'
  := by
  cases t <;> cases t' <;> rfl

theorem count_add (s : SinkStatus) (t t' : Status) :
  (s.add t).count t' = if t' = t then s.count t + 1 else s.count t'
  := count_mapCount s t t' _

theorem count_remove (s : SinkStatus) (t t' : Status) :
  (s.remove t).count t' = if t' = t then s.count t - 1 else s.count t'
  := count_mapCount s t t' _

instance : Codec SinkStatus :=
  .record ["processing", "delivering", "blocked", "completed"]
    (fun s => (s.processing, s.delivering, s.blocked, s.completed, ()))
    (fun (processing, delivering, blocked, completed, ()) =>
      ⟨processing, delivering, blocked, completed⟩)

end SinkStatus

end ChunkDispatch
