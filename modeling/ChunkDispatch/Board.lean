import ChunkDispatch.Book
import ChunkDispatch.Change
import ChunkDispatch.Grid
import ChunkDispatch.Query
import ChunkDispatch.Store

/-!
# The board

The *board* is the grid together with the store behind it.  Every change is written to the store
first and made in the grid only when the store took it, so a refused write leaves the grid as it
was; then an event tells of it, and the book of sinks follows the event.  An action on several
partitions goes through them in ascending order, with one write for each, and stops at the first
which is refused.
-/

namespace ChunkDispatch

/-- The trackers in memory, their store, the events so far and the book kept from them. -/
structure Board (p : Partitioner) (σ : Type) where
  store : σ
  grid : Grid p
  /-- The number of the last event, 0 before the first; no run is so long that it fills 64 bits. -/
  lastSeq : Nat
  /-- The events, the oldest first. -/
  log : List Event
  book : Book

namespace Board

variable {p : Partitioner} {σ : Type}

/-- The board over a store of which nothing is loaded. -/
def start (p : Partitioner) (store : σ) : Board p σ :=
  ⟨store, .empty p, 0, [], ∅⟩

/-- An action of the store. -/
def onStore {α : Type} (x : Attempt σ α) : Attempt (Board p σ) α :=
  x.within store (fun s b => { b with store := s })

/-! ### Committed changes -/

/-- The board after the event of a change from `old` to `new`. -/
def emit (now : Instant) (old new : Option Tracker) (b : Board p σ) : Board p σ :=
  match EventKind.ofChange? old new with
  | none => b
  | some kind =>
    let e : Event := ⟨b.lastSeq + 1, now, kind⟩
    { b with lastSeq := e.seq, log := b.log ++ [e], book := b.book.observe e }

/-- The board with a tracker in the grid, and the event of it. -/
def place (now : Instant) (t : Tracker) (b : Board p σ) : Board p σ :=
  emit now (b.grid.find? t.key) (some t) { b with grid := b.grid.insert t }

/-- The board without a key in the grid, and the event of it. -/
def drop (now : Instant) (k : Key) (b : Board p σ) : Board p σ :=
  emit now (b.grid.find? k) none { b with grid := b.grid.erase k }

variable [Store σ]

/-! ### Writes -/

/-- Puts a tracker in the place of the one with its key. -/
def set (now : Instant) (t : Tracker) : Attempt (Board p σ) Unit := do
  onStore (Store.put t)
  modify (place now t)

/-- Those of some trackers which belong to the partition `i`. -/
def inPartition (i : Fin p.count) (ts : List Tracker) : List Tracker :=
  ts.filter (fun t => p.home t.key = i)

/-- Puts all trackers of a list with one write. -/
def setAll (now : Instant) (ts : List Tracker) : Attempt (Board p σ) Unit := do
  if ts.isEmpty then
    return
  onStore (Store.putAll ts)
  modify (fun b =>
    ((Grid.indices p).flatMap (fun i => inPartition i ts)).foldl (fun b t => b.place now t) b)

/-- Deletes the tracker of a key, in the store even if the grid has none; the tracker it was. -/
def remove (now : Instant) (k : Key) : Attempt (Board p σ) (Option Tracker) := do
  onStore (Store.delete k)
  let old := (← get).grid.find? k
  modify (drop now k)
  return old

/-- Deletes the trackers of a partition which satisfy `q`; their keys. -/
def removeFrom (now : Instant) (q : Tracker → Bool) (i : Fin p.count) :
    Attempt (Board p σ) (List Key) := do
  let doomed := (((← get).grid.partition i).filter (fun _ t => q t)).keys
  if doomed.isEmpty then
    return []
  onStore (Store.deleteAll doomed)
  modify (fun b => doomed.foldl (fun b k => b.drop now k) b)
  return doomed

/-- Deletes the trackers which satisfy `q`; their keys. -/
def removeWhere (now : Instant) (q : Tracker → Bool) : Attempt (Board p σ) (SortedSet Key) := do
  let removed ← (Grid.indices p).mapM (removeFrom now q)
  return SortedSet.ofList removed.flatten

/-! ### Changes of single trackers -/

/-- What a change makes of a tracker, if it is another tracker, marked as changed at `now`. -/
def changed? (now : Instant) (t t' : Tracker) : Option Tracker :=
  if t' = t then none else some (t'.touch now)

/--
Applies `f` to the tracker of a key; its result, or nothing if the key is not tracked.  A tracker
which `f` leaves as it is is not written.
-/
def adjust {α : Type} (now : Instant) (k : Key) (f : Tracker → α × Tracker) :
    Attempt (Board p σ) (Option α) := do
  match (← get).grid.find? k with
  | none => return none
  | some t =>
    let (a, t') := f t
    match changed? now t t' with
    | none => return some a
    | some t'' =>
      set now t''
      return some a

/--
Applies `f` to the trackers of a partition which satisfy `q`, and writes those it changes together;
the keys of all of them with their results.
-/
def adjustIn {α : Type} (now : Instant) (q : Tracker → Bool) (f : Tracker → α × Tracker)
    (i : Fin p.count) : Attempt (Board p σ) (List (Key × α)) := do
  let selected := (((← get).grid.partition i).filter (fun _ t => q t)).values
  let changed := selected.filterMap (fun t => changed? now t (f t).2)
  if !changed.isEmpty then
    onStore (Store.putAll changed)
    modify (fun b => changed.foldl (fun b t => b.place now t) b)
  return selected.map (fun t => (t.key, (f t).1))

/-- Applies `f` to the trackers which satisfy `q`; the results, by key. -/
def adjustWhere {α : Type} (now : Instant) (q : Tracker → Bool) (f : Tracker → α × Tracker) :
    Attempt (Board p σ) (SortedMap Key α) := do
  let results ← (Grid.indices p).mapM (adjustIn now q f)
  return SortedMap.ofList results.flatten

/-- Applies `f` to the trackers of those of some keys which are tracked; the results, by key. -/
def adjustKeys {α : Type} (now : Instant) (ks : List Key) (f : Tracker → α × Tracker) :
    Attempt (Board p σ) (SortedMap Key α) :=
  adjustWhere now (fun t => t.key ∈ ks) f

/-! ### Loading -/

/-- Puts the trackers of the store in the place of those of the grid; how many they are. -/
def loadAll : Attempt (Board p σ) Nat := do
  let keys ← onStore Store.loadKeys
  let ts ← onStore (Store.loadAll keys)
  modify (fun b => { b with grid := .ofTrackers p ts })
  return ts.length

end Board

end ChunkDispatch
