import ChunkDispatch.SortedMap
import ChunkDispatch.Store

/-!
# The store in memory

This store holds its trackers in a map, and no action on it fails.  Loading several keys gives
their trackers in the order in which they were asked for, repeated keys repeatedly.
-/

namespace ChunkDispatch

/-- Trackers by key. -/
structure Memory where
  rows : SortedMap Key Tracker
deriving DecidableEq

namespace Memory

/-- The store of the trackers of a list; of two with one key the later one stays. -/
def ofList (ts : List Tracker) : Memory :=
  ⟨SortedMap.ofList (ts.map (fun t => (t.key, t)))⟩

/-- The store with a tracker put. -/
def insert (t : Tracker) (m : Memory) : Memory :=
  ⟨m.rows.insert t.key t⟩

/-- The store with a key deleted. -/
def erase (k : Key) (m : Memory) : Memory :=
  ⟨m.rows.erase k⟩

instance : Store Memory where
  put t := modify (·.insert t)
  putAll ts := modify (fun m => ts.foldl (fun m t => m.insert t) m)
  delete k := modify (·.erase k)
  deleteAll ks := modify (fun m => ks.foldl (fun m k => m.erase k) m)
  load k := do return (← get).rows.find? k
  loadAll ks := do
    let m ← get
    return ks.filterMap m.rows.find?
  loadKeys := do return (← get).rows.keys

end Memory

end ChunkDispatch
