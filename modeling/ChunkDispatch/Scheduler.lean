import ChunkDispatch.Board
import ChunkDispatch.Settings

/-!
# The scheduler

The *scheduler* is the board together with the settings and the *ready stream*, on which the key
of every chunk is sent that becomes queued for processing.  This module has what all its
operations share, and the lookups, which change nothing.
-/

namespace ChunkDispatch

/-- The keys sent so far, the oldest first; once nobody listens no more are sent. -/
structure ReadyStream where
  listening : Bool
  sent : List Key
deriving DecidableEq, Repr

/-- The tracked chunks and all that schedules them. -/
structure Scheduler (p : Partitioner) (σ : Type) where
  board : Board p σ
  settings : Settings
  ready : ReadyStream

namespace Scheduler

variable {p : Partitioner} {σ : Type}

/-- A scheduler over a store of which nothing is loaded yet. -/
def start (settings : Settings) (listening : Bool) (store : σ) :
    Scheduler (.ofCount settings.partitions) σ :=
  ⟨.start _ store, settings, ⟨listening, []⟩⟩

/-- The trackers in memory. -/
def grid (s : Scheduler p σ) : Grid p :=
  s.board.grid

/-- The book of sinks. -/
def book (s : Scheduler p σ) : Book :=
  s.board.book

/-- An action on the board. -/
def onBoard {α : Type} (x : Attempt (Board p σ) α) : Attempt (Scheduler p σ) α :=
  x.within board (fun b s => { s with board := b })

/-- The scheduler with what `f` makes of the book. -/
def mapBook (f : Book → Book) (s : Scheduler p σ) : Scheduler p σ :=
  { s with board.book := f s.board.book }

/-- The scheduler after a key was sent on the ready stream. -/
def send (k : Key) (s : Scheduler p σ) : Scheduler p σ :=
  if s.ready.listening then { s with ready.sent := s.ready.sent ++ [k] } else s

/-- Nobody listens to the ready stream any more. -/
def closeReady (s : Scheduler p σ) : Scheduler p σ :=
  { s with ready.listening := false }

/-! ### Lookups -/

/-- The tracker of a key. -/
def find? (s : Scheduler p σ) (k : Key) : Option Tracker :=
  s.grid.find? k

/-- The tracker of a key, which has to be tracked. -/
def require (s : Scheduler p σ) (k : Key) : Except Error Tracker :=
  match s.find? k with
  | some t => .ok t
  | none => .error (.notTracked k)

/-- The trackers of a job, in the order of their chunks. -/
def snapshot (s : Scheduler p σ) (job : Int32) : List Tracker :=
  s.grid.values (Query.OfJob.holds ⟨job⟩)

/-- The prerequisites of a tracker which are not tracked or are completed. -/
def goneFrom (s : Scheduler p σ) (t : Tracker) : List Key :=
  t.waitingOn.toList.filter (fun k => !s.grid.isLive k)

/-- The tracker put before the first less urgent one: of lower priority, or the same and later. -/
def insertByUrgency (t : Tracker) : List Tracker → List Tracker
  | [] => [t]
  | t' :: rest =>
    if t'.priority < t.priority ∨ t'.priority = t.priority ∧ t.key ≤ t'.key then t :: t' :: rest
    else t' :: insertByUrgency t rest

/-- The trackers by descending priority, then by key. -/
def byUrgency (ts : List Tracker) : List Tracker :=
  ts.foldr insertByUrgency []

/-- The keys of the trackers in a status, of one sink or of all, the most urgent first. -/
def find (s : Scheduler p σ) (status : Status) (sink : Option Int32) (limit : Option Nat) :
    List Key :=
  let found := byUrgency (s.grid.values (Query.ByStatus.holds ⟨sink, status⟩))
  (limit.elim found found.take).map Tracker.key

/-- The keys of the trackers of a sink which wait for a chunk. -/
def waitingFor (s : Scheduler p σ) (k : Key) (sink : Int32) : List Key :=
  s.grid.keys (Query.WaitingFor.holds ⟨some sink, k⟩)

/-- The keys of the live chunks a barrier for a whole job has to wait for. -/
def jobBarrier (s : Scheduler p σ) (sink job : Int32) (matchKeys : SortedSet String) : List Key :=
  s.grid.keys (Query.JobBarrier.holds ⟨sink, job, matchKeys⟩)

/-- The keys of the live chunks of a lane which have the first of some match keys. -/
def firstKeyHolders (s : Scheduler p σ) (sink submitter : Int32)
    (matchKeys : SortedSet String) : List Key :=
  s.grid.keys (Query.FirstKey.holds ⟨sink, submitter, matchKeys⟩)

/-- The trackers in a status which at `now` have not changed for more than some seconds. -/
def stale (s : Scheduler p σ) (now : Instant) (status : Status) (seconds : Int) : List Tracker :=
  s.grid.values (Query.Stale.holds ⟨status, now.before seconds⟩)

/-! ### Counts -/

/-- The sinks with chunks in a status, or with live chunks if none is given. -/
def activeSinks (s : Scheduler p σ) (status : Option Status) : SortedSet Int32 :=
  s.grid.tally (.activeSinks status)

/-- How many jobs and chunks are on their way to a sink. -/
def jobCount (s : Scheduler p σ) (sink : Int32) : Tally.JobCount :=
  s.grid.tally (.jobCount sink)

/-- How many chunks of a sink are in a status. -/
def statusCount (s : Scheduler p σ) (sink : Int32) (status : Status) : Nat :=
  s.grid.tally (.statusCount sink status)

/-- The chunks of some sinks by status, of all sinks if none is given. -/
def statusCounts (s : Scheduler p σ) (now : Instant) (sinks : SortedSet Int32) :
    SortedMap Int32 SinkStatus :=
  s.grid.tally (.statusCounts now sinks)

/-- The chunks in a status by sink. -/
def sinkCounts (s : Scheduler p σ) (status : Status) : SortedMap Int32 Nat :=
  s.grid.tally (.sinkCounts status)

/-- The latest live chunk of each channel. -/
def latest (s : Scheduler p σ) : SortedMap Channel Key :=
  s.grid.tally .latest

/-! ### Loading -/

/--
The scheduler with the counts of some sinks, of all if none is given, made anew from the trackers.
Queues counted anew start in bulk mode.
-/
def recount (now : Instant) (sinks : SortedSet Int32) (s : Scheduler p σ) : Scheduler p σ :=
  let counts := (s.statusCounts now sinks).map (fun c =>
    (c.mapQueue .processing (·.setMode now .bulk)).mapQueue .delivering (·.setMode now .bulk))
  s.mapBook (·.replace counts (if sinks.isEmpty then none else some sinks.toList))

/-- Loads the trackers of the store and counts them; how many they are. -/
def load [Store σ] (now : Instant) : Attempt (Scheduler p σ) Nat := do
  let n ← onBoard Board.loadAll
  modify (recount now ∅)
  return n

end Scheduler

end ChunkDispatch
