import ChunkDispatch.Scheduler

/-!
# Completion

When a chunk is delivered its tracker is removed or kept as completed, as the retention says, and
its key is taken out of every wait set of its sink.  The chunks left with nothing to wait for are
queued for processing and sent on the ready stream.
-/

namespace ChunkDispatch.Scheduler

variable {p : Partitioner} {σ : Type} [Store σ]

/-- Takes a key out of the wait sets of a sink, or of all sinks; the chunks that releases. -/
def removeFromWaitingOn (now : Instant) (k : Key) (sink : Option Int32) :
    Attempt (Scheduler p σ) (SortedSet Key) := do
  let released ← onBoard
    (Board.adjustWhere now (Query.WaitingFor.holds ⟨sink, k⟩) (Change.Release.apply ⟨k⟩))
  return (released.filter (fun _ queued => queued)).keySet

/-- Does with the tracker of a delivered chunk what the retention says; its sink. -/
def retire (now : Instant) (k : Key) : Attempt (Scheduler p σ) (Option Int32) := do
  let s ← get
  match s.settings.retention with
  | .purge =>
    let old ← onBoard (Board.remove now k)
    return old.map Tracker.sink
  | .retain =>
    let _ ← onBoard (Board.adjust now k (Change.Force.apply ⟨.completed⟩))
    return (s.find? k).map Tracker.sink

/--
A chunk was delivered; the keys of the chunks this releases.  A key which is not tracked is taken
out of the wait sets of all sinks.
-/
def complete (now : Instant) (k : Key) : Attempt (Scheduler p σ) (SortedSet Key) := do
  let sink ← retire now k
  let released ← removeFromWaitingOn now k sink
  modify (fun s => released.toList.foldl (fun s k => s.send k) s)
  return released

end ChunkDispatch.Scheduler
