import ChunkDispatch.Key
import ChunkDispatch.Settings
import ChunkDispatch.Status

/-!
# Errors

An operation on the trackers may fail.  The errors are the causes; `Error.message` gives their
wording.  An *attempt* is an action on a state which may fail; what it has done before it fails
stays done.
-/

namespace ChunkDispatch

/-- Why an operation failed. -/
inductive Error where
  /-- No chunk with this key is tracked. -/
  | notTracked (key : Key)
  /-- Chunks do not move between these statuses on request. -/
  | badTransition (source target : Status)
  /-- The database refused a statement. -/
  | database
  /-- A column of a row does not hold what it should. -/
  | badColumn
  /-- A row has a status code which stands for no status. -/
  | unknownCode (code : Int16)
  /-- The store refused a write. -/
  | writeRefused
  /-- The store refused to be read. -/
  | loadRefused
  /-- The tables could not be set up. -/
  | migrationFailed
  /-- The settings are wrong. -/
  | settings (fault : SettingsFault)
  /-- The text is no key. -/
  | badKey (text : String) (fault : Key.Fault)
  /-- The text names no status. -/
  | unknownStatus (text : String)
deriving DecidableEq, Repr

/-- The wording of an error. -/
def Error.message : Error → String
  | notTracked key => "tracker not found: " ++ key.render
  | badTransition source target =>
    "invalid state transition: " ++ source.name ++ " -> " ++ target.name
  | database => "storage error: statement refused"
  | badColumn => "serialization error: unexpected value in a column"
  | unknownCode code =>
    "serialization error: unknown scheduling status code " ++ Text.Integer.render code.toInt
  | writeRefused => "io error: memory store rejected write"
  | loadRefused => "io error: load refused"
  | migrationFailed => "migration failed"
  | settings fault => fault.message
  | badKey text fault => fault.message text
  | unknownStatus text => s!"unknown scheduling status '{text}'"

/-- An action on the state `σ` which may fail. -/
abbrev Attempt (σ α : Type) := EStateM Error σ α

namespace Attempt

/-- An attempt on a part of the state, reached by `get` and put back by `set`. -/
def within {σ τ α : Type} (get : σ → τ) (set : τ → σ → σ) (x : Attempt τ α) : Attempt σ α :=
  fun s =>
    match x (get s) with
    | .ok a t => .ok a (set t s)
    | .error e t => .error e (set t s)

/-- The attempt which comes to `x` and changes nothing. -/
def ofExcept {σ α : Type} : Except Error α → Attempt σ α
  | .ok a => pure a
  | .error e => throw e

/-- The state an attempt leaves, whether it fails or not. -/
def stateAfter {σ α : Type} (x : Attempt σ α) (s : σ) : σ :=
  match x s with
  | .ok _ s' => s'
  | .error _ s' => s'

/-- What an attempt comes to. -/
def outcome {σ α : Type} (x : Attempt σ α) (s : σ) : Except Error α :=
  match x s with
  | .ok a _ => .ok a
  | .error e _ => .error e

end Attempt

end ChunkDispatch
