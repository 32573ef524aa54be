import ChunkDispatch.CommandLine.Command
import ChunkDispatch.CommandLine.Report
import ChunkDispatch.Scheduler.Override
import ChunkDispatch.Settings
import ChunkDispatch.Store.Database

/-!
# The command line

An operator gives a command line to a program which has the environment and a database.  The
command line is read first, then the settings; then the table is set up, and the command is done.
The first of these which fails ends the program, and what it has printed by then stands.
-/

namespace ChunkDispatch.CommandLine

/-- What a program works on, and what it has printed so far. -/
structure Console (σ : Type) where
  state : σ
  printed : String

namespace Console

variable {σ : Type}

/-- Prints lines. -/
def print (lines : List String) : Attempt (Console σ) Unit :=
  modify (fun c => { c with printed := c.printed ++ String.join (lines.map (· ++ "\n")) })

/-- An action on what the program works on. -/
def act {α : Type} (x : Attempt σ α) : Attempt (Console σ) α :=
  x.within state (fun s c => { c with state := s })

end Console

open Console

variable {p : Partitioner}

/-! ### Commands -/

/-- Prints the counts by sink, and how many trackers there are in both places. -/
def stats (now : Instant) : Attempt (Console (Scheduler p Database)) Unit := do
  let s := (← get).state
  let counts := (s.statusCounts now ∅).toList
  if counts.isEmpty then
    print ["No trackers."]
  else
    print Report.countHead
    print (counts.map (fun (sink, c) => Report.counts sink c (s.jobCount sink).jobs))
    let stored ← act (Scheduler.onBoard (Board.onStore Database.countBySinkAndStatus))
    print (Report.totals s.grid.size (stored.foldl (fun n e => n + e.2.2) 0))

/-- Does a task with a scheduler whose trackers are loaded. -/
def perform (now : Instant) : Task → Attempt (Console (Scheduler p Database)) Unit
  | .stats => stats now
  | .inspect k => do
    let t ← act (do Attempt.ofExcept ((← get).require k))
    print (Report.tracker t)
  | .job j => do
    print (Report.job j ((← get).state.snapshot j))
  | .blocked sink limit => do
    let s := (← get).state
    print (Report.blocked ((s.find .blocked sink (some limit)).filterMap s.find?))
  | .retransmit jobs source target => do
    let n ← act (Scheduler.resetStatus now source target jobs)
    print [Report.reset n source target]
  | .recheck => do
    let repaired ← act (Scheduler.recheck now)
    print [Report.repaired repaired.size]
  | .removeJob j => do
    let removed ← act (Scheduler.removeJob now j)
    print [Report.removed removed.size j]
  | .purge => do
    let purged ← act (Scheduler.purge now)
    print [Report.purged purged.size]

/-- An action with a scheduler over the database. -/
def withScheduler (settings : Settings)
    (x : Attempt (Console (Scheduler (.ofCount settings.partitions) Database)) Unit) :
    Attempt (Console Database) Unit :=
  x.within
    (fun c => ⟨.start settings false c.state, c.printed⟩)
    (fun c _ => ⟨c.state.board.store, c.printed⟩)

/-- Does a command. -/
def execute (now : Instant) (settings : Settings) : Command → Attempt (Console Database) Unit
  | .migrate => print ["Migrations applied."]
  | .health => do
    act Database.health
    print ["Database OK."]
  | .task t =>
    withScheduler settings (do
      let _ ← act (Scheduler.load now)
      perform now t)

/-! ### Programs -/

/-- How a program ends. -/
inductive Outcome where
  /-- The command line stands for no command. -/
  | usage
  /-- Something failed after `printed` was printed. -/
  | failed (printed : String) (e : Error)
  | succeeded (printed : String)

namespace Outcome

/-- The number a program ends with. -/
def code : Outcome → Nat
  | usage => 2
  | failed _ _ => 1
  | succeeded _ => 0

/-- How the program is used. -/
def usageText : String :=
  "Usage: migrate | health | stats | show KEY | job JOB | blocked [--sink SINK] [--limit N] | " ++
    "retransmit JOB... [--from STATUS] [--to STATUS] | recheck | remove-job JOB | purge\n"

/-- What was printed as the result. -/
def printed : Outcome → String
  | usage => ""
  | failed s _ => s
  | succeeded s => s

/-- What is printed as a complaint. -/
def complaint : Outcome → String
  | usage => usageText
  | failed _ e => "Error: " ++ e.message ++ "\n"
  | succeeded _ => ""

end Outcome

/-- Does what a command line asks for; how it ends, and the database it leaves. -/
def run (env : Environment) (now : Instant) (args : List String) (db : Database) :
    Outcome × Database :=
  match Command.parse? args with
  | none => (.usage, db)
  | some command =>
    match Configuration.read env with
    | .error fault => (.failed "" (.settings fault), db)
    | .ok configuration =>
      let program : Attempt (Console Database) Unit := do
        act Database.migrate
        execute now configuration.settings command
      match program ⟨db, ""⟩ with
      | .ok _ c => (.succeeded c.printed, c.state)
      | .error e c => (.failed c.printed e, c.state)

end ChunkDispatch.CommandLine
