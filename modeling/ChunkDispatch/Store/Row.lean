import ChunkDispatch.Error
import ChunkDispatch.Tracker

/-!
# Rows

A *row* is a tracker as a database table holds it.  The status is a code, and the two sets are
columns of JSON, in which null stands for the empty set.  The hashes are kept in a column for the
sake of searching in the database; when a row is read they are made anew from the match keys.  The
instant of the last change is kept to the microsecond.
-/

namespace ChunkDispatch

/-- The columns of a tracker in a table. -/
structure Row where
  key : Key
  sink : Int32
  status : Int16
  waitingOn : Json
  matchKeys : Json
  priority : Int32
  hashes : List Int32
  submitter : Int32
  lastModified : Instant
  retries : Int32

namespace Row

/-- The set a column of JSON holds. -/
def readSet {α : Type} [LT α] [Codec (SortedSet α)] (column : Json) :
    Except Error (SortedSet α) :=
  if column.isNull then .ok ∅
  else
    match decode? column with
    | some s => .ok s
    | none => .error .badColumn

/-- The status a code stands for. -/
def readStatus (code : Int16) : Except Error Status :=
  match Status.ofCode? code with
  | some s => .ok s
  | none => .error (.unknownCode code)

/-- The row of a tracker. -/
def ofTracker (t : Tracker) : Row where
  key := t.key
  sink := t.sink
  status := t.status.code
  waitingOn := encode t.waitingOn
  matchKeys := encode t.matchKeys
  priority := t.priority
  hashes := t.hashes
  submitter := t.submitter
  lastModified := t.lastModified.wholeMicros
  retries := t.retries

/-- The tracker of a row. -/
def tracker (r : Row) : Except Error Tracker := do
  let status ← readStatus r.status
  let waitingOn ← readSet r.waitingOn
  let matchKeys ← readSet r.matchKeys
  return {
    key := r.key
    sink := r.sink
    submitter := r.submitter
    status := status
    waitingOn := waitingOn
    matchKeys := matchKeys
    hashes := MatchKey.hashes matchKeys
    priority := r.priority
    retries := r.retries
    lastModified := r.lastModified }

instance : Codec Row where
  encode r := .object [
    ("jobid", encode r.key.job),
    ("chunkid", encode r.key.chunk),
    ("sinkid", encode r.sink),
    ("status", .integer r.status.toInt),
    ("waitingon", r.waitingOn),
    ("matchkeys", r.matchKeys),
    ("priority", encode r.priority),
    ("hashes", encode r.hashes),
    ("submitter", encode r.submitter),
    ("lastmodified", encode r.lastModified),
    ("retries", encode r.retries)]
  decode? j := do
    some {
      key := ⟨← j.field? "jobid", ← j.field? "chunkid"⟩
      sink := ← j.field? "sinkid"
      status := Int16.ofInt (← (j.member? "status").bind (Json.integerIn? (-32768) 32767))
      waitingOn := ← j.member? "waitingon"
      matchKeys := ← j.member? "matchkeys"
      priority := ← j.field? "priority"
      hashes := ← j.field? "hashes"
      submitter := ← j.field? "submitter"
      lastModified := ← j.field? "lastmodified"
      retries := ← j.field? "retries" }

end Row

end ChunkDispatch
