import ChunkDispatch.Json.Codec
import ChunkDispatch.Text.Blank

/-!
# Scheduling status

A chunk is first processed and then delivered to its sink, and each of the two *phases* has a
queue.  The *status* of a chunk says how far it has come: blocked by other chunks, ready for a
phase, queued for it, or completed.  A chunk is *live* until it is completed.
-/

namespace ChunkDispatch

/-- Where a chunk is on its way. -/
inductive Status where
  | readyForProcessing
  | queuedForProcessing
  | blocked
  | readyForDelivery
  | queuedForDelivery
  | completed
deriving DecidableEq, Repr, Inhabited

namespace Status

/-- All statuses, in the order of their codes. -/
def all : List Status :=
  [readyForProcessing, queuedForProcessing, blocked, readyForDelivery, queuedForDelivery,
    completed]

/-- The number which stands for a status in a table. -/
def code : Status → Int16
  | readyForProcessing => 1
  | queuedForProcessing => 2
  | blocked => 3
  | readyForDelivery => 4
  | queuedForDelivery => 5
  | completed => 6

/-- The status a number stands for. -/
def ofCode? (n : Int16) : Option Status :=
  all.find? (fun s => s.code = n)

/-- The name of a status in texts for people. -/
def name : Status → String
  | readyForProcessing => "ready_for_processing"
  | queuedForProcessing => "queued_for_processing"
  | blocked => "blocked"
  | readyForDelivery => "ready_for_delivery"
  | queuedForDelivery => "queued_for_delivery"
  | completed => "completed"

/-- The name of a status in records. -/
def tag : Status → String
  | readyForProcessing => "READY_FOR_PROCESSING"
  | queuedForProcessing => "QUEUED_FOR_PROCESSING"
  | blocked => "BLOCKED"
  | readyForDelivery => "READY_FOR_DELIVERY"
  | queuedForDelivery => "QUEUED_FOR_DELIVERY"
  | completed => "COMPLETED"

/-- The status with a name in records. -/
def ofTag? (s : String) : Option Status :=
  all.find? (fun t => t.tag = s)

/-- The letter `c` as status names are spelled: a small letter, and `_` for `-`. -/
def spelling (c : Char) : Char :=
  if c = '-' then '_' else c.toLower

/-- The status with a name given by a person: blanks around it, capitals and hyphens are free. -/
def parse? (s : String) : Option Status :=
  let wanted := (Text.trim s.toList).map spelling
  all.find? (fun t => t.name.toList = wanted)

/-- Whether a chunk takes part in scheduling. -/
def isLive (s : Status) : Bool :=
  s ≠ completed

/-- The status a queued chunk falls back to when it has to be sent again. -/
def resendTarget? : Status → Option Status
  | queuedForProcessing => some readyForProcessing
  | queuedForDelivery => some readyForDelivery
  | _ => none

instance : Codec Status :=
  .choice tag ofTag?

theorem ofCode?_code (s : Status) :
  ofCode? s.code = some s
  := by
  cases s <;> decide

theorem ofTag?_tag (s : Status) :
  ofTag? s.tag = some s
  := by
  cases s <;> decide

end Status

/-- The two parts of the way of a chunk, each with a queue of its own. -/
inductive Phase where
  | processing
  | delivering
deriving DecidableEq, Repr, Inhabited

namespace Phase

/-- All phases. -/
def all : List Phase :=
  [processing, delivering]

/-- The name of a phase in records. -/
def tag : Phase → String
  | processing => "processing"
  | delivering => "delivering"

/-- The phase with a name in records. -/
def ofTag? (s : String) : Option Phase :=
  all.find? (fun p => p.tag = s)

/-- The status of chunks which may enter the queue of the phase. -/
def ready : Phase → Status
  | processing => .readyForProcessing
  | delivering => .readyForDelivery

/-- The status of chunks in the queue of the phase. -/
def queued : Phase → Status
  | processing => .queuedForProcessing
  | delivering => .queuedForDelivery

instance : Codec Phase :=
  .choice tag ofTag?

theorem ofTag?_tag (p : Phase) :
  ofTag? p.tag = some p
  := by
  cases p <;> decide

theorem ready_ne_blocked (p : Phase) :
  p.ready ≠ .blocked
  := by
  cases p <;> decide

theorem queued_ne_blocked (p : Phase) :
  p.queued ≠ .blocked
  := by
  cases p <;> decide

theorem ready_ne_completed (p : Phase) :
  p.ready ≠ .completed
  := by
  cases p <;> decide

theorem queued_ne_completed (p : Phase) :
  p.queued ≠ .completed
  := by
  cases p <;> decide

theorem ready_ne_queued (p : Phase) :
  p.ready ≠ p.queued
  := by
  cases p <;> decide

end Phase

end ChunkDispatch
