import ChunkDispatch.CommandLine
import ChunkDispatch.Json.Printer
import ChunkDispatch.Json.Reader
import Std.Time.DateTime.Timestamp

/-!
# The program

The program takes its database from the file which the variable `DATABASE_URL` names, does what its
arguments ask for, and puts the rows of the table back into the file.  The file is a JSON array of
rows; where there is none the table is still to be set up.
-/

namespace ChunkDispatch.Main

/-- The variables of the environment which are looked at. -/
def variableNames : List String :=
  ["DATABASE_URL", "TRACKER_PARTITIONS", "TRACKER_RETENTION", "TRACKER_MAX_ENQUEUED_PER_SINK",
    "TRACKER_TRANSITION_TO_DIRECT_MARK", "OTEL_ENDPOINT", "LOG_LEVEL"]

/-- The environment the program was started in. -/
def environment : IO Environment := do
  let values ← variableNames.mapM (fun name => do return (name, ← IO.getEnv name))
  return fun name => (values.lookup name).join

/-- The present instant. -/
def now : IO Instant := do
  let t ← Std.Time.Timestamp.now
  return Instant.ofMicros (t.toNanosecondsSinceUnixEpoch.val / 1000)

/-- The text of a file, if it can be read. -/
def readFile? (path : String) : IO (Option String) :=
  try
    return some (← IO.FS.readFile path)
  catch _ =>
    return none

/-- The database which the text of a file holds. -/
def database? : Option String → Option Database
  | none => some .empty
  | some text => ((Json.parse? text).bind decode?).map Database.ofRows

/-- Prints how the program ends; the number it ends with. -/
def finish (outcome : CommandLine.Outcome) : IO UInt32 := do
  IO.print outcome.printed
  IO.eprint outcome.complaint
  return outcome.code.toUInt32

/-- Does what the arguments ask for. -/
def run (args : List String) : IO UInt32 := do
  let env ← environment
  let path := env "DATABASE_URL"
  match database? (← path.elim (pure none) readFile?) with
  | none => finish (.failed "" .badColumn)
  | some db =>
    let (outcome, db') := CommandLine.run env (← now) args db
    if let (some path, some _) := (path, db'.table) then
      IO.FS.writeFile path ((encode db'.rows).render ++ "\n")
    finish outcome

end ChunkDispatch.Main

/-- Runs the program with its arguments. -/
def main (args : List String) : IO UInt32 :=
  ChunkDispatch.Main.run args
