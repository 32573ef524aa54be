import ChunkDispatch.Store
import ChunkDispatch.Store.Refusals

/-!
# Scripted stores

A *scripted* store passes its actions on to another store, refuses some of them as it was told
beforehand, and keeps a list of the writes it was asked for.  A refused action changes nothing in
the other store.
-/

namespace ChunkDispatch

/-- A write a store was asked for: its form and its keys, in the order of the request. -/
inductive Write where
  | put (key : Key)
  | putAll (keys : List Key)
  | delete (key : Key)
  | deleteAll (keys : List Key)
deriving DecidableEq, Repr

/-- A store, the refusals of its writes and of its loads, and the writes asked for so far. -/
structure Scripted (σ : Type) where
  inner : σ
  writes : List Write
  writeRefusals : Refusals
  loadRefusals : Refusals

namespace Scripted

variable {σ : Type}

/-- A store which refuses nothing. -/
def of (s : σ) : Scripted σ :=
  ⟨s, [], .none, .none⟩

/-- An action of the other store. -/
def onInner {α : Type} (x : Attempt σ α) : Attempt (Scripted σ) α :=
  x.within inner (fun t s => { s with inner := t })

/-- The write `x`, listed as `w`, unless it is refused. -/
def write (w : Write) (x : Attempt σ Unit) : Attempt (Scripted σ) Unit := do
  let s ← get
  set { s with writes := s.writes ++ [w], writeRefusals := s.writeRefusals.advance }
  if s.writeRefusals.next then
    throw .writeRefused
  onInner x

/-- The load `x`, unless it is refused. -/
def load {α : Type} (x : Attempt σ α) : Attempt (Scripted σ) α := do
  let s ← get
  set { s with loadRefusals := s.loadRefusals.advance }
  if s.loadRefusals.next then
    throw .loadRefused
  onInner x

instance [Store σ] : Store (Scripted σ) where
  put t := write (.put t.key) (Store.put t)
  putAll ts := write (.putAll (ts.map Tracker.key)) (Store.putAll ts)
  delete k := write (.delete k) (Store.delete k)
  deleteAll ks := write (.deleteAll ks) (Store.deleteAll ks)
  load k := load (Store.load k)
  loadAll ks := load (Store.loadAll ks)
  loadKeys := load Store.loadKeys

end Scripted

end ChunkDispatch
