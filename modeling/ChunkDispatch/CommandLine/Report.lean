import ChunkDispatch.Instant.Rfc3339
import ChunkDispatch.Scheduler

/-!
# Reports

What an operator is shown are lines of text.  A table has columns of a fixed width, two blanks
apart; a longer entry pushes what follows it to the right.
-/

namespace ChunkDispatch.CommandLine

open Text

/-! ### Layout -/

/-- A text at the left of a column. -/
def left (width : Nat) (s : String) : String :=
  s ++ String.ofList (List.replicate (width - s.length) ' ')

/-- A text at the right of a column. -/
def right (width : Nat) (s : String) : String :=
  String.ofList (List.replicate (width - s.length) ' ') ++ s

/-- A row of a table. -/
def row (columns : List String) : String :=
  "  ".intercalate columns

/-- The line under the head of a table. -/
def rule : String :=
  String.ofList (List.replicate 80 '-')

/-- A 32 bit integer as text. -/
def number (n : Int32) : String :=
  Integer.render n.toInt

/-- Keys with commas between them. -/
def keyList (ks : SortedSet Key) : String :=
  ", ".intercalate (ks.toList.map Key.render)

namespace Report

/-! ### Counts by sink -/

/-- A row of the counts: the sink, its counts by status, and its jobs. -/
def countRow (sink : String) (counts : List String) (jobs : String) : String :=
  row (left 6 sink :: counts.map (right 8) ++ [right 6 jobs])

/-- The head of the counts. -/
def countHead : List String :=
  [countRow "SINK" ["RDY_PRC", "QUE_PRC", "BLOCKED", "RDY_DLV", "QUE_DLV", "DONE"] "JOBS", rule]

/-- The counts of a sink. -/
def counts (sink : Int32) (s : SinkStatus) (jobs : Nat) : String :=
  countRow (number sink) (Status.all.map (fun t => (s.count t).repr)) jobs.repr

/-- How many trackers the scheduler and the database have. -/
def totals (cached stored : Nat) : List String :=
  ["", cached.repr ++ " tracker(s) in memory, " ++ stored.repr ++ " in database"]

/-! ### Trackers -/

/-- All about a tracker. -/
def tracker (t : Tracker) : List String :=
  let waitingOn := if t.waitingOn.isEmpty then "-" else keyList t.waitingOn
  ["Key:         " ++ t.key.render,
    "Sink:        " ++ number t.sink,
    "Submitter:   " ++ number t.submitter,
    "Status:      " ++ t.status.name,
    "Priority:    " ++ number t.priority,
    "Retries:     " ++ number t.retries,
    "Waiting On:  " ++ waitingOn,
    "Match Keys:  " ++ ", ".intercalate t.matchKeys.toList,
    "Modified:    " ++ t.lastModified.renderSpaced]

/-- A row of the list of a job. -/
def jobRow (key sink status priority retries waitingOn : String) : String :=
  row [left 12 key, left 6 sink, left 22 status, left 4 priority, left 7 retries, waitingOn]

/-- A tracker in the list of a job. -/
def jobEntry (t : Tracker) : String :=
  jobRow t.key.render (number t.sink) t.status.name (number t.priority)
    (number t.retries) t.waitingOn.size.repr

/-- The list of the trackers of a job. -/
def job (job : Int32) (ts : List Tracker) : List String :=
  if ts.isEmpty then ["No trackers for job " ++ number job ++ "."]
  else
    [jobRow "KEY" "SINK" "STATUS" "PRI" "RETRIES" "WAITING_ON", rule] ++ ts.map jobEntry ++
      ["", ts.length.repr ++ " tracker(s)"]

/-- A tracker in the list of blocked chunks. -/
def blockedEntry (t : Tracker) : String :=
  row [left 12 t.key.render, "sink " ++ left 6 (number t.sink),
    "pri " ++ left 4 (number t.priority), "waiting on " ++ keyList t.waitingOn]

/-- The list of blocked chunks. -/
def blocked (ts : List Tracker) : List String :=
  ts.map blockedEntry ++ ["", ts.length.repr ++ " blocked chunk(s)"]

/-! ### Work done -/

/-- So many trackers were put from one status into another. -/
def reset (n : Nat) (source target : Status) : String :=
  "Reset " ++ n.repr ++ " tracker(s) from " ++ source.name ++ " to " ++ target.name ++ "."

/-- So many trackers were repaired. -/
def repaired (n : Nat) : String :=
  "Repaired " ++ n.repr ++ " tracker(s)."

/-- So many trackers of a job were removed. -/
def removed (n : Nat) (job : Int32) : String :=
  "Removed " ++ n.repr ++ " tracker(s) of job " ++ number job ++ "."

/-- So many completed trackers were removed. -/
def purged (n : Nat) : String :=
  "Purged " ++ n.repr ++ " completed tracker(s)."

end Report

end ChunkDispatch.CommandLine
