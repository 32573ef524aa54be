import ChunkDispatch.Event
import ChunkDispatch.Sink
import ChunkDispatch.SortedMap

/-!
# The book of sinks

The *book* holds the status of every sink chunks were seen for.  It follows the events, each of
which moves the counts of one sink, and it can be written anew from a count of all chunks.
-/

namespace ChunkDispatch

/-- The status of each sink. -/
structure Book where
  sinks : SortedMap Int32 SinkStatus
deriving DecidableEq

namespace Book

instance : EmptyCollection Book where
  emptyCollection := ⟨∅⟩

/-- The status of a sink; one not in the book is without chunks. -/
def get (b : Book) (now : Instant) (sink : Int32) : SinkStatus :=
  (b.sinks.find? sink).getD (.fresh now)

/-- The book with the status `s` of a sink. -/
def put (sink : Int32) (s : SinkStatus) (b : Book) : Book :=
  ⟨b.sinks.insert sink s⟩

/-- The book with what `f` makes of the status of a sink. -/
def update (now : Instant) (sink : Int32) (f : SinkStatus → SinkStatus) (b : Book) : Book :=
  b.put sink (f (b.get now sink))

/-- The book with a queue put into the mode it has to be in; whether that is another than before. -/
def updateMode (max mark : Nat) (now : Instant) (sink : Int32) (phase : Phase) (b : Book) :
    Bool × Book :=
  let s := b.get now sink
  let (changed, queue) := (s.queue phase).updateMode max mark now
  (changed, b.put sink (s.mapQueue phase (fun _ => queue)))

/-- The book after an event; an update within one status changes nothing. -/
def observe (e : Event) (b : Book) : Book :=
  match e.kind with
  | .added _ sink status => b.update e.timestamp sink (·.add status)
  | .updated _ sink source target =>
    if source = target then b
    else b.update e.timestamp sink (fun s => (s.remove source).add target)
  | .removed _ sink status => b.update e.timestamp sink (·.remove status)

/-- The book with `counts` in the place of the listed sinks, or of all sinks. -/
def replace (counts : SortedMap Int32 SinkStatus) (listed : Option (List Int32)) (b : Book) :
    Book :=
  match listed with
  | none => ⟨counts⟩
  | some sinks => ⟨(sinks.foldl (fun m sink => m.erase sink) b.sinks).union counts⟩

end Book

end ChunkDispatch
