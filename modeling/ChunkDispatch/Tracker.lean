import ChunkDispatch.Channel
import ChunkDispatch.Key
import ChunkDispatch.MatchKey
import ChunkDispatch.Status

/-!
# Trackers

A *tracker* is the scheduling state of one chunk on its way to one sink.  Its *wait set* holds
the keys of the chunks which must be completed first.  A tracker is *consistent* if it is blocked
exactly when its wait set has a member.
-/

namespace ChunkDispatch

/-! ### Trackers -/

/-- The scheduling state of a chunk. -/
structure Tracker where
  /-- The identity of the chunk. -/
  key : Key
  /-- The number of the sink the chunk goes to. -/
  sink : Int32
  /-- The number of the submitter the chunk came from. -/
  submitter : Int32
  status : Status
  /-- The wait set. -/
  waitingOn : SortedSet Key
  /-- The match keys of the records the chunk touches. -/
  matchKeys : SortedSet String
  /-- The hashes of the match keys, ascending. -/
  hashes : List Int32
  /-- How urgent the chunk is: greater is more urgent. -/
  priority : Int32
  /-- How often the chunk was sent again. -/
  retries : Int32
  /-- The instant of the last change. -/
  lastModified : Instant
deriving DecidableEq

namespace Tracker

/-- Blocked exactly when there is something to wait for. -/
def isConsistent (t : Tracker) : Bool :=
  decide (t.status = .blocked) == !t.waitingOn.isEmpty

/-- Whether the tracker takes part in scheduling. -/
def isLive (t : Tracker) : Bool :=
  t.status.isLive

/-- The lane of the chunk. -/
def lane (t : Tracker) : Lane :=
  ⟨t.sink, t.submitter⟩

/-- Whether `h` is one of the hashes, by binary search. -/
def hasHash (t : Tracker) (h : Int32) : Bool :=
  MatchKey.search h t.hashes

/-- The tracker with other match keys and their hashes. -/
def withMatchKeys (keys : SortedSet String) (t : Tracker) : Tracker :=
  { t with matchKeys := keys, hashes := MatchKey.hashes keys }

/-- The tracker marked as changed at `now`, which is kept to the microsecond. -/
def touch (now : Instant) (t : Tracker) : Tracker :=
  { t with lastModified := now.wholeMicros }

instance : Codec Tracker :=
  .record ["key", "sinkId", "submitter", "status", "waitingOn", "matchKeys", "hashes", "priority",
      "retries", "lastModified"]
    (fun t => (t.key, t.sink, t.submitter, t.status, t.waitingOn, t.matchKeys, t.hashes, t.priority,
      t.retries, t.lastModified, ()))
    (fun (key, sink, submitter, status, waitingOn, matchKeys, hashes, priority, retries,
        lastModified, ()) =>
      ⟨key, sink, submitter, status, waitingOn, matchKeys, hashes, priority, retries, lastModified⟩)

end Tracker

/-! ### Chunks to be registered -/

/-- What a submitter says of a chunk when handing it in. -/
structure Chunk where
  key : Key
  sink : Int32
  submitter : Int32
  matchKeys : SortedSet String
  priority : Int32
deriving DecidableEq

namespace Chunk

/-- The chunk with one more match key. -/
def withMatchKey (key : String) (c : Chunk) : Chunk :=
  { c with matchKeys := c.matchKeys.insert key }

/-- The tracker of a chunk before it is known what it has to wait for. -/
def track (now : Instant) (c : Chunk) : Tracker where
  key := c.key
  sink := c.sink
  submitter := c.submitter
  status := .readyForProcessing
  waitingOn := ∅
  matchKeys := c.matchKeys
  hashes := MatchKey.hashes c.matchKeys
  priority := c.priority
  retries := 0
  lastModified := now.wholeMicros

end Chunk

end ChunkDispatch
