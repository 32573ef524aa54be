import ChunkDispatch.Scheduler

/-!
# Overrides

An operator may set a status by force, send chunks again, raise priorities, remove trackers, and
repair trackers which wait for chunks that are gone.
-/

namespace ChunkDispatch.Scheduler

variable {p : Partitioner} {σ : Type} [Store σ]

/-- Puts a chunk into a status; whether it was in another. -/
def setStatus (now : Instant) (k : Key) (status : Status) : Attempt (Scheduler p σ) Bool := do
  let changed ← onBoard (Board.adjust now k (Change.Force.apply ⟨status⟩))
  if changed = some true then
    if status = .queuedForProcessing then
      modify (send k)
    return true
  else
    return false

/-- Puts all chunks of some jobs in one status into another; how many were in the first. -/
def resetStatus (now : Instant) (source target : Status) (jobs : List Int32) :
    Attempt (Scheduler p σ) Nat := do
  if source = .blocked ∨ target = .blocked then
    throw (.badTransition source target)
  let keys := (← get).grid.keys (Query.InJobs.holds ⟨source, .ofList jobs⟩)
  keys.forM (fun k => do
    let _ ← setStatus now k target)
  return keys.length

/-- Sends a queued chunk again; how often this was done, if the chunk is tracked. -/
def resend (now : Instant) (k : Key) : Attempt (Scheduler p σ) (Option Int32) :=
  onBoard (Board.adjust now k (Change.Resend.apply ⟨⟩))

/--
Raises the priority of the chunks of `pending`, then of the chunks those wait for whose priority
this raised, and so on; `visited` are the chunks met so far, and `raised` counts.  Each round but
the last raises a tracker for good, so as many rounds as there are trackers, and one, are enough.
-/
def boostFrom (now : Instant) (change : Change.Raise) :
    Nat → SortedSet Key → List Key → Nat → Attempt (Scheduler p σ) Nat
  | 0, _, _, raised => return raised
  | rounds + 1, visited, pending, raised => do
    if pending.isEmpty then
      return raised
    let outcomes ← onBoard (Board.adjustKeys now pending change.apply)
    let waitSets := outcomes.values.filterMap id
    let next := (SortedSet.ofList (waitSets.flatMap SortedSet.toList)).filter (· ∉ visited)
    boostFrom now change rounds (visited.union next) next.toList (raised + waitSets.length)

/-- Raises the priority of some chunks and of all they wait for; how many this raised. -/
def boost (now : Instant) (keys : List Key) (priority : Int32) :
    Attempt (Scheduler p σ) Nat := do
  let rounds := (← get).grid.size + 1
  boostFrom now ⟨priority⟩ rounds (.ofList keys) keys 0

/-- Removes a chunk; the tracker it had. -/
def remove (now : Instant) (k : Key) : Attempt (Scheduler p σ) (Option Tracker) :=
  onBoard (Board.remove now k)

/-- Removes all chunks of a job, whoever waits for them; their keys. -/
def removeJob (now : Instant) (job : Int32) : Attempt (Scheduler p σ) (SortedSet Key) :=
  onBoard (Board.removeWhere now (Query.OfJob.holds ⟨job⟩))

/-- Removes the completed chunks; their keys. -/
def purge (now : Instant) : Attempt (Scheduler p σ) (SortedSet Key) :=
  onBoard (Board.removeWhere now (Query.ByStatus.holds ⟨none, .completed⟩))

/-- Takes keys out of the wait set of a chunk, and sends the chunk when that releases it. -/
def repair (now : Instant) (k : Key) (gone : List Key) : Attempt (Scheduler p σ) Unit :=
  gone.forM (fun prerequisite => do
    let released ← onBoard (Board.adjust now k (Change.Release.apply ⟨prerequisite⟩))
    if released = some true then
      modify (send k))

/-- The blocked chunks with prerequisites which are gone, and those prerequisites. -/
def broken (s : Scheduler p σ) : List (Key × List Key) :=
  (s.grid.values (Query.ByStatus.holds ⟨none, .blocked⟩)).filterMap (fun t =>
    let gone := s.goneFrom t
    if gone.isEmpty then none else some (t.key, gone))

/-- Repairs the blocked chunks which wait for chunks that are gone; their keys. -/
def recheck (now : Instant) : Attempt (Scheduler p σ) (SortedSet Key) := do
  let found := (← get).broken
  found.forM (fun (k, gone) => repair now k gone)
  return SortedSet.ofList (found.map Prod.fst)

end ChunkDispatch.Scheduler
