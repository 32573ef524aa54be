import ChunkDispatch.Partitioner
import ChunkDispatch.SortedMap
import ChunkDispatch.Tally
import ChunkDispatch.Tracker

/-!
# The grid

The *grid* holds the trackers in memory, each in the partition its key belongs to.  Looking up a
key asks that partition alone; a query goes through all partitions and gathers what it finds in the
order of the keys, so that it does not show how the trackers are split.

A partition has no order of its own.  Here its trackers are kept in ascending order of their keys,
which shows in the order of the trackers of one write and of the events after it, and nowhere else.
-/

namespace ChunkDispatch

/-- The trackers of one partition, by key. -/
abbrev Entries := SortedMap Key Tracker

/-- Trackers by key, split over the partitions of `p`. -/
structure Grid (p : Partitioner) where
  partitions : Vector Entries p.count

namespace Grid

variable {p : Partitioner}

/-- The grid without trackers. -/
def empty (p : Partitioner) : Grid p :=
  ⟨Vector.replicate p.count ∅⟩

/-- The trackers of the partition `i`. -/
def partition (g : Grid p) (i : Fin p.count) : Entries :=
  g.partitions[i]

/-- The grid with what `f` makes of the partition `i`. -/
def mapPartition (i : Fin p.count) (f : Entries → Entries) (g : Grid p) : Grid p :=
  ⟨g.partitions.set i (f (g.partition i))⟩

/-- The tracker of a key. -/
def find? (g : Grid p) (k : Key) : Option Tracker :=
  (g.partition (p.home k)).find? k

/-- Whether a key is tracked. -/
def contains (g : Grid p) (k : Key) : Bool :=
  (g.find? k).isSome

/-- Whether a key is tracked and its chunk not completed. -/
def isLive (g : Grid p) (k : Key) : Bool :=
  (g.find? k).any Tracker.isLive

/-- The grid with a tracker in the place of the one with its key. -/
def insert (t : Tracker) (g : Grid p) : Grid p :=
  g.mapPartition (p.home t.key) (·.insert t.key t)

/-- The grid without a key. -/
def erase (k : Key) (g : Grid p) : Grid p :=
  g.mapPartition (p.home k) (·.erase k)

/-- The grid of the trackers of a list; of two with one key the later one stays. -/
def ofTrackers (p : Partitioner) (ts : List Tracker) : Grid p :=
  ts.foldl (fun g t => g.insert t) (empty p)

/-- The indices of the partitions, ascending. -/
def indices (p : Partitioner) : List (Fin p.count) :=
  List.finRange p.count

/-- What lies in each partition, in ascending order of the partitions. -/
def parts (g : Grid p) : List Entries :=
  (indices p).map g.partition

/-- The trackers which satisfy `q`, gathered from all partitions. -/
def select (q : Tracker → Bool) (g : Grid p) : Entries :=
  g.parts.foldl (fun found es => found.union (es.filter (fun _ t => q t))) ∅

/-- The trackers which satisfy `q`, in the order of their keys. -/
def values (q : Tracker → Bool) (g : Grid p) : List Tracker :=
  (g.select q).values

/-- The keys of the trackers which satisfy `q`, in ascending order. -/
def keys (q : Tracker → Bool) (g : Grid p) : List Key :=
  (g.select q).keys

/-- All trackers, in the order of their keys. -/
def trackers (g : Grid p) : List Tracker :=
  g.values (fun _ => true)

/-- The number of trackers. -/
def size (g : Grid p) : Nat :=
  g.parts.foldl (fun n es => n + es.size) 0

/-- The trackers of those of the given keys which are tracked. -/
def findAll (ks : List Key) (g : Grid p) : Entries :=
  SortedMap.ofList (ks.filterMap (fun k => (g.find? k).map (fun t => (k, t))))

/-- The result of a tally over all partitions. -/
def tally {σ β : Type} (t : Tally σ β) (g : Grid p) : β :=
  t.ofParts (g.parts.map SortedMap.values)

/-! ### Lookup -/

theorem partition_mapPartition (g : Grid p) (i j : Fin p.count) (f : Entries → Entries) :
  (g.mapPartition i f).partition j = if j = i then f (g.partition i) else g.partition j
  := by
  simp only [partition, mapPartition, Fin.getElem_fin, Vector.getElem_set]
  by_cases h : j = i
  · simp [h]
  · have h' : i.val ≠ j.val := fun hv => h (Fin.ext hv.symm)
    simp [h, h']

theorem find?_empty (k : Key) :
  (empty p).find? k = none
  := by
  simp [find?, partition, empty]

theorem find?_insert (g : Grid p) (t : Tracker) (k : Key) :
  (g.insert t).find? k = if k = t.key then some t else g.find? k
  := by
  rw [find?, insert, partition_mapPartition]
  by_cases h : p.home k = p.home t.key
  · rw [if_pos h, SortedMap.find?_insert, ← h]
    rfl
  · rw [if_neg h, if_neg (fun hk => h (congrArg p.home hk))]
    rfl

theorem find?_erase (g : Grid p) (k k' : Key) :
  (g.erase k).find? k' = if k' = k then none else g.find? k'
  := by
  rw [find?, erase, partition_mapPartition]
  by_cases h : p.home k' = p.home k
  · rw [if_pos h, SortedMap.find?_erase, ← h]
    rfl
  · rw [if_neg h, if_neg (fun hk => h (congrArg p.home hk))]
    rfl

end Grid

end ChunkDispatch
