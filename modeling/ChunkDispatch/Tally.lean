import ChunkDispatch.Channel
import ChunkDispatch.Sink
import ChunkDispatch.SortedMap
import ChunkDispatch.Tracker

/-!
# Tallies

A *tally* counts trackers which lie in several parts: each part is counted from nothing, the
counts of the parts are merged, and the result is read off the merged count.
-/

namespace ChunkDispatch

universe u v

/-- A way of counting trackers, with counts in `σ` and the result in `β`. -/
structure Tally (σ : Type u) (β : Type v) where
  /-- The count of nothing. -/
  empty : σ
  /-- The count with one tracker more. -/
  add : σ → Tracker → σ
  /-- The count of two parts together. -/
  merge : σ → σ → σ
  /-- What a count comes to. -/
  result : σ → β

namespace Tally

/-- The count of one part. -/
def part {σ : Type u} {β : Type v} (t : Tally σ β) (trackers : List Tracker) : σ :=
  trackers.foldl t.add t.empty

/-- The result for several parts. -/
def ofParts {σ : Type u} {β : Type v} (t : Tally σ β) (parts : List (List Tracker)) : β :=
  t.result (parts.foldl (fun total trackers => t.merge total (t.part trackers)) t.empty)

/-- The sinks with trackers in a status, or with live trackers if none is given. -/
def activeSinks (status : Option Status) : Tally (SortedSet Int32) (SortedSet Int32) where
  empty := ∅
  add sinks t := if status.elim t.isLive (t.status = ·) then sinks.insert t.sink else sinks
  merge := SortedSet.union
  result := id

/-- How many jobs and how many chunks are on their way to a sink. -/
structure JobCount where
  jobs : Nat
  chunks : Nat
deriving DecidableEq, Repr

instance : Codec JobCount :=
  .record ["jobs", "chunks"] (fun c => (c.jobs, c.chunks, ()))
    (fun (jobs, chunks, ()) => ⟨jobs, chunks⟩)

/-- The live trackers of a sink and their jobs. -/
def jobCount (sink : Int32) : Tally (SortedSet Int32 × Nat) JobCount where
  empty := (∅, 0)
  add c t := if t.sink = sink ∧ t.isLive then (c.1.insert t.key.job, c.2 + 1) else c
  merge c c' := (c.1.union c'.1, c.2 + c'.2)
  result c := ⟨c.1.size, c.2⟩

/-- The map with `k` at a channel, unless a later key is there. -/
def offer (channel : Channel) (k : Key) (latest : SortedMap Channel Key) :
    SortedMap Channel Key :=
  latest.alter channel (fun
    | none => k
    | some k' => if k' < k then k else k')

/-- The latest live tracker of each channel. -/
def latest : Tally (SortedMap Channel Key) (SortedMap Channel Key) where
  empty := ∅
  add m t :=
    if t.isLive then t.hashes.foldl (fun m h => offer ⟨t.lane, h⟩ t.key m) m else m
  merge m m' := m'.toList.foldl (fun m e => offer e.1 e.2 m) m
  result := id

/-- The trackers of the given sinks, of all if none is given, by sink and status. -/
def statusCounts (now : Instant) (sinks : SortedSet Int32) :
    Tally (SortedMap Int32 SinkStatus) (SortedMap Int32 SinkStatus) where
  empty := ∅
  add m t :=
    if sinks.isEmpty ∨ t.sink ∈ sinks then
      m.alter t.sink (fun s => (s.getD (.fresh now)).add t.status)
    else m
  merge m m' :=
    m'.toList.foldl (fun m e => m.alter e.1 (fun s => (s.getD (.fresh now)).addCounts e.2)) m
  result := id

/-- The trackers of a sink in a status. -/
def statusCount (sink : Int32) (status : Status) : Tally Nat Nat where
  empty := 0
  add n t := if t.sink = sink ∧ t.status = status then n + 1 else n
  merge := (· + ·)
  result := id

/-- The trackers in a status, by sink. -/
def sinkCounts (status : Status) : Tally (SortedMap Int32 Nat) (SortedMap Int32 Nat) where
  empty := ∅
  add m t := if t.status = status then m.alter t.sink (fun n => n.getD 0 + 1) else m
  merge m m' := m'.toList.foldl (fun m e => m.alter e.1 (fun n => n.getD 0 + e.2)) m
  result := id

end Tally

end ChunkDispatch
