import ChunkDispatch.CommandLine.Arguments
import ChunkDispatch.Key
import ChunkDispatch.Status

/-!
# Commands

A *command* is what an operator asks for on the command line.  Some commands concern the database
alone; the others, the *tasks*, are done by a scheduler over it.
-/

namespace ChunkDispatch.CommandLine

open Text

/-- A command for a scheduler. -/
inductive Task where
  /-- Counts the trackers by sink and status. -/
  | stats
  /-- Tells all about one tracker. -/
  | inspect (key : Key)
  /-- Lists the trackers of a job. -/
  | job (job : Int32)
  /-- Lists blocked chunks of one sink or of all, the most urgent first. -/
  | blocked (sink : Option Int32) (limit : Nat)
  /-- Puts the chunks of some jobs back from one status to another. -/
  | retransmit (jobs : List Int32) (source target : Status)
  /-- Repairs blocked chunks whose prerequisites are gone. -/
  | recheck
  /-- Removes the trackers of a job. -/
  | removeJob (job : Int32)
  /-- Removes the trackers kept as completed. -/
  | purge
deriving DecidableEq, Repr

/-- What an operator asks for. -/
inductive Command where
  /-- Sets the table up. -/
  | migrate
  /-- Sees whether the table can be reached. -/
  | health
  | task (t : Task)
deriving DecidableEq, Repr

namespace Command

/-- The 32 bit integer a value is. -/
def number? (s : String) : Option Int32 :=
  (Integer.readInt32 s.toList).toOption

/-- What an option comes to, read by `read?`; `standard` if it is not set. -/
def option? {α : Type} (a : Arguments) (name : String) (standard : α)
    (read? : String → Option α) : Option α :=
  (a.option? name).elim (some standard) read?

/-- The command `c`, if there are no arguments. -/
def bare? (c : Command) (args : List String) : Option Command := do
  let a ← Arguments.read? [] args
  if a.places.isEmpty then some c else none

/-- The command `c` makes of what `read?` reads in the only argument. -/
def single? {α : Type} (c : α → Command) (read? : String → Option α) (args : List String) :
    Option Command := do
  let a ← Arguments.read? [] args
  match a.places with
  | [place] => (read? place).map c
  | _ => none

/-- How many blocked chunks are listed where nothing else is said. -/
def standardLimit : Nat := 50

/-- The command for a list of blocked chunks. -/
def blocked? (args : List String) : Option Command := do
  let a ← Arguments.read? ["sink", "limit"] args
  if !a.places.isEmpty then none
  let sink ← option? a "sink" none (fun s => (number? s).map some)
  let limit ← option? a "limit" standardLimit (fun s => (Integer.readNat64 s.toList).toOption)
  some (.task (.blocked sink limit))

/-- The command to put chunks back. -/
def retransmit? (args : List String) : Option Command := do
  let a ← Arguments.read? ["from", "to"] args
  if a.places.isEmpty then none
  let jobs ← a.places.mapM number?
  let source ← option? a "from" .queuedForDelivery Status.parse?
  let target ← option? a "to" .readyForDelivery Status.parse?
  some (.task (.retransmit jobs source target))

/-- The command a command line stands for. -/
def parse? : List String → Option Command
  | [] => none
  | name :: args =>
    match name with
    | "migrate" => bare? .migrate args
    | "health" => bare? .health args
    | "stats" => bare? (.task .stats) args
    | "show" => single? (fun k => .task (.inspect k)) (fun s => (Key.parse s).toOption) args
    | "job" => single? (fun j => .task (.job j)) number? args
    | "blocked" => blocked? args
    | "retransmit" => retransmit? args
    | "recheck" => bare? (.task .recheck) args
    | "remove-job" => single? (fun j => .task (.removeJob j)) number? args
    | "purge" => bare? (.task .purge) args
    | _ => none

end Command

end ChunkDispatch.CommandLine
