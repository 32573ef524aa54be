import ChunkDispatch.Tracker

/-!
# Events

Every change of the tracked chunks is told by an *event*: a tracker was added, updated or
removed.  Events are numbered without gaps, so a listener sees that it missed one.
-/

namespace ChunkDispatch

/-- What happened to a tracker. -/
inductive EventKind where
  | added (key : Key) (sink : Int32) (status : Status)
  | updated (key : Key) (sink : Int32) (source target : Status)
  | removed (key : Key) (sink : Int32) (status : Status)
deriving DecidableEq, Repr

namespace EventKind

/-- The chunk the event is about. -/
def key : EventKind → Key
  | added k _ _ => k
  | updated k _ _ _ => k
  | removed k _ _ => k

/-- What happened where there was `old` and is now `new`; nothing if neither is there. -/
def ofChange? (old new : Option Tracker) : Option EventKind :=
  match old, new with
  | none, some t => some (added t.key t.sink t.status)
  | some o, some t => some (updated t.key t.sink o.status t.status)
  | some o, none => some (removed o.key o.sink o.status)
  | none, none => none

/-- What kind of event a record is of; in an array that comes first. -/
def type? : Json → Option String
  | .array (type :: _) => decode? type
  | j => j.field? "type"

/-- The status under a name in the record of an event. -/
def status? (name : String) (j : Json) : Option Status :=
  (j.member? name).bind (Json.innerChoice? Status.ofTag?)

instance : Codec EventKind where
  encode
    | added k sink status => .object [
      ("type", .string "tracker_added"),
      ("key", encode k),
      ("sink_id", encode sink),
      ("status", encode status)]
    | updated k sink source target => .object [
      ("type", .string "tracker_updated"),
      ("key", encode k),
      ("sink_id", encode sink),
      ("from", encode source),
      ("to", encode target)]
    | removed k sink status => .object [
      ("type", .string "tracker_removed"),
      ("key", encode k),
      ("sink_id", encode sink),
      ("status", encode status)]
  decode? j := do
    match ← type? j with
    | "tracker_added" =>
      let j := j.named ["type", "key", "sink_id", "status"]
      some (added (← j.field? "key") (← j.field? "sink_id") (← status? "status" j))
    | "tracker_updated" =>
      let j := j.named ["type", "key", "sink_id", "from", "to"]
      some (updated (← j.field? "key") (← j.field? "sink_id") (← status? "from" j)
        (← status? "to" j))
    | "tracker_removed" =>
      let j := j.named ["type", "key", "sink_id", "status"]
      some (removed (← j.field? "key") (← j.field? "sink_id") (← status? "status" j))
    | _ => none

end EventKind

/-- A numbered event. -/
structure Event where
  /-- The number: a board starts with 1, and no run is so long that it fills 64 bits. -/
  seq : Nat
  timestamp : Instant
  kind : EventKind
deriving DecidableEq, Repr

instance : Codec Event :=
  .record ["seq", "timestamp", "kind"] (fun e => (e.seq, e.timestamp, e.kind, ()))
    (fun (seq, timestamp, kind, ()) => ⟨seq, timestamp, kind⟩)

end ChunkDispatch
