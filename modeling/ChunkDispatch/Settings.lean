import ChunkDispatch.Text.Blank
import ChunkDispatch.Text.Integer

/-!
# Settings

The *settings* of a scheduler come from named variables of the environment.  They are read in a
fixed order, and the first which is wrong is the one complained of.
-/

namespace ChunkDispatch

open Text

/-- What becomes of the tracker of a completed chunk. -/
inductive Retention where
  /-- The tracker is removed. -/
  | purge
  /-- The tracker stays, as completed, until it is purged. -/
  | retain
deriving DecidableEq, Repr, Inhabited

namespace Retention

/-- All retentions. -/
def all : List Retention :=
  [purge, retain]

/-- The name of a retention. -/
def name : Retention → String
  | purge => "purge"
  | retain => "retain"

/-- A text in small letters, where only the letters A to Z have one. -/
def lowercase (s : String) : String :=
  String.ofList (s.toList.map Char.toLower)

/-- The retention with a name, in capital or small letters. -/
def parse? (s : String) : Option Retention :=
  all.find? (fun r => r.name = lowercase s)

end Retention

/-- How a scheduler works. -/
structure Settings where
  /-- Into how many partitions the trackers are split; none counts as one. -/
  partitions : Nat
  retention : Retention
  /-- How many chunks fill a queue. -/
  maxEnqueued : Nat
  /-- How few chunks have to be left for a full queue to turn back to direct mode. -/
  directMark : Nat
deriving DecidableEq, Repr

/-- The settings where nothing else is said. -/
def Settings.standard : Settings :=
  ⟨16, .purge, 1000, 50⟩

/-- Why there are no settings. -/
inductive SettingsFault where
  | missing (name : String)
  | badNumber (name : String) (fault : Integer.Fault)
  | noPartition
  | badRetention (policy : String)
  | badRetentionVariable (policy : String)
deriving DecidableEq, Repr

namespace SettingsFault

/-- A fault in settings, as it is told. -/
def headline (text : String) : String :=
  "configuration error: " ++ text

/-- A policy which is none, as it is told. -/
def unknownPolicy (policy : String) : String :=
  headline
    ("unknown retention policy '" ++ Retention.lowercase policy ++
      "' (expected purge or retain)")

/-- The wording of a fault. -/
def message : SettingsFault → String
  | missing name => headline s!"required environment variable {name} is not set"
  | badNumber name fault => headline (s!"invalid value for {name}: " ++ fault.message)
  | noPartition => headline "TRACKER_PARTITIONS must be greater than zero"
  | badRetention policy => unknownPolicy policy
  | badRetentionVariable policy =>
    headline ("invalid value for TRACKER_RETENTION: " ++ unknownPolicy policy)

end SettingsFault

/-- The variables of the environment which are set. -/
abbrev Environment := String → Option String

/-- All that a program which runs a scheduler has to know. -/
structure Configuration where
  databaseUrl : String
  telemetryEndpoint : Option String
  logLevel : String
  settings : Settings
deriving DecidableEq, Repr

namespace Configuration

/-- The number a variable is set to, with blanks around it; `standard` if it is not set. -/
def number (env : Environment) (name : String) (standard : Nat) :
    Except SettingsFault Nat :=
  match env name with
  | none => .ok standard
  | some s =>
    match Integer.readNat64 (trim s.toList) with
    | .ok n => .ok n
    | .error fault => .error (.badNumber name fault)

/-- The retention the environment asks for. -/
def retention (env : Environment) : Except SettingsFault Retention :=
  match env "TRACKER_RETENTION" with
  | none => .ok Settings.standard.retention
  | some s =>
    let policy := String.ofList (trim s.toList)
    match Retention.parse? policy with
    | some r => .ok r
    | none => .error (.badRetentionVariable policy)

/-- The configuration an environment gives. -/
def read (env : Environment) : Except SettingsFault Configuration := do
  let partitions ← number env "TRACKER_PARTITIONS" Settings.standard.partitions
  if partitions = 0 then
    throw .noPartition
  let databaseUrl ←
    match env "DATABASE_URL" with
    | some url => pure url
    | none => throw (.missing "DATABASE_URL")
  let retention ← retention env
  let maxEnqueued ← number env "TRACKER_MAX_ENQUEUED_PER_SINK" Settings.standard.maxEnqueued
  let directMark ← number env "TRACKER_TRANSITION_TO_DIRECT_MARK" Settings.standard.directMark
  return {
    databaseUrl := databaseUrl
    telemetryEndpoint := env "OTEL_ENDPOINT"
    logLevel := (env "LOG_LEVEL").getD "info"
    settings := ⟨partitions, retention, maxEnqueued, directMark⟩ }

end Configuration

end ChunkDispatch
