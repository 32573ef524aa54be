import ChunkDispatch.Store.Scripted

/-!
# Calls of a store

The seven actions of a store, as data, so that one can speak of any sequence of them.  A sequence is
run call by call and goes on after a call which failed.
-/

namespace ChunkDispatch

/-- Something a store is asked to do. -/
inductive Call where
  | put (t : Tracker)
  | putAll (ts : List Tracker)
  | delete (k : Key)
  | deleteAll (ks : List Key)
  | load (k : Key)
  | loadAll (ks : List Key)
  | loadKeys
deriving DecidableEq

namespace Call

/-- What a call comes to. -/
inductive Reply where
  | done
  | found (t : Option Tracker)
  | trackers (ts : List Tracker)
  | keys (ks : List Key)
deriving DecidableEq

variable {σ : Type} [Store σ]

/-- Makes a call. -/
def perform : Call → Attempt σ Reply
  | put t => do
    Store.put t
    return .done
  | putAll ts => do
    Store.putAll ts
    return .done
  | delete k => do
    Store.delete k
    return .done
  | deleteAll ks => do
    Store.deleteAll ks
    return .done
  | load k => return .found (← Store.load k)
  | loadAll ks => return .trackers (← Store.loadAll ks)
  | loadKeys => return .keys (← Store.loadKeys)

/-- What a sequence of calls comes to, call by call, and the store after all of them. -/
def run (s : σ) : List Call → List (Except Error Reply) × σ
  | [] => ([], s)
  | c :: rest =>
    let (replies, s') := run (c.perform.stateAfter s) rest
    (c.perform.outcome s :: replies, s')

/-- The store told whether it is to refuse whatever comes next. -/
def told {σ : Type} (refusing : Bool) (s : Scripted σ) : Scripted σ :=
  let r := if refusing then Refusals.all else Refusals.none
  { s with writeRefusals := r, loadRefusals := r }

/--
What a sequence of calls comes to in a scripted store which is told before each call whether it is
to refuse it, and the store after all of them.
-/
def runTold (s : Scripted σ) : List (Call × Bool) → List (Except Error Reply) × Scripted σ
  | [] => ([], s)
  | (c, refused) :: rest =>
    let (replies, s') := runTold (c.perform.stateAfter (told refused s)) rest
    (c.perform.outcome (told refused s) :: replies, s')

end Call

end ChunkDispatch
