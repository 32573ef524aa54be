import ChunkDispatch.SortedMap
import ChunkDispatch.Tracker

/-!
# Prerequisites

A chunk has to wait for others which share a hash with it.  Of the *candidates* it suffices to
wait for the latest holder of each hash, since that one waits for the earlier holders itself; and
of these, those another one waits for can be left out.
-/

namespace ChunkDispatch.Prerequisites

/-- The tracker with the greater key; the first if the keys are one. -/
def later (t t' : Tracker) : Tracker :=
  if t.key < t'.key then t' else t

/-- The map with `t` at a hash, unless a tracker with a greater key is there. -/
def offer (t : Tracker) (latest : SortedMap Int32 Tracker) (h : Int32) :
    SortedMap Int32 Tracker :=
  latest.alter h (fun
    | none => t
    | some t' => later t' t)

/-- The latest holder of each of the hashes among the candidates. -/
def latestHolders (hashes : List Int32) (candidates : List Tracker) :
    SortedMap Int32 Tracker :=
  candidates.foldl (fun latest t => (hashes.filter t.hasHash).foldl (offer t) latest) ∅

/-- The keys which one of the trackers waits for. -/
def covered (ts : List Tracker) : SortedSet Key :=
  SortedSet.ofList (ts.flatMap (fun t => t.waitingOn.toList))

/-- The latest holders of the hashes, by their keys. -/
def chosen (hashes : List Int32) (candidates : List Tracker) : SortedMap Key Tracker :=
  SortedMap.ofList ((latestHolders hashes candidates).values.map (fun t => (t.key, t)))

/-- The latest holders of the hashes, save those which another of them waits for. -/
def minimal (hashes : List Int32) (candidates : List Tracker) : SortedSet Key :=
  let latest := chosen hashes candidates
  latest.keySet.filter (fun k => k ∉ covered latest.values)

end ChunkDispatch.Prerequisites
