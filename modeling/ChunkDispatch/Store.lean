import ChunkDispatch.Error
import ChunkDispatch.Tracker

/-!
# Stores

A *store* keeps trackers durably, one for each key.  Its four writes either happen as a whole or
fail and change no tracker; a write may be repeated without harm.  What a store is made of is its
own affair: the scheduler uses the seven actions of the class alone.
-/

namespace ChunkDispatch

/-- A durable home of trackers. -/
class Store (σ : Type) where
  /-- Puts a tracker in the place of the one with its key. -/
  put : Tracker → Attempt σ Unit
  /-- Puts all trackers of a list, in its order. -/
  putAll : List Tracker → Attempt σ Unit
  /-- Deletes the tracker of a key, if there is one. -/
  delete : Key → Attempt σ Unit
  /-- Deletes the trackers of all keys of a list. -/
  deleteAll : List Key → Attempt σ Unit
  /-- The tracker of a key. -/
  load : Key → Attempt σ (Option Tracker)
  /-- The trackers of those keys of a list which have one. -/
  loadAll : List Key → Attempt σ (List Tracker)
  /-- The keys of all trackers, ascending. -/
  loadKeys : Attempt σ (List Key)

end ChunkDispatch
