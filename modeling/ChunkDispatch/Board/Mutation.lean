import ChunkDispatch.Board

/-!
# Mutations of the board

Everything that can be done to a board, as data, so that one can speak of any sequence of it.
-/

namespace ChunkDispatch

/-- Something done to a board. -/
inductive Mutation where
  | set (t : Tracker)
  | setAll (ts : List Tracker)
  | remove (k : Key)
  | removeWhere (q : Query)
  | adjust (k : Key) (c : Change)
  | adjustKeys (ks : List Key) (c : Change)
  | adjustWhere (q : Query) (c : Change)
  | loadAll
deriving DecidableEq

namespace Mutation

/-- What a mutation comes to. -/
inductive Answer where
  | done
  | removed (t : Option Tracker)
  | keys (ks : SortedSet Key)
  | result (r : Option Change.Result)
  | results (rs : SortedMap Key Change.Result)
  | count (n : Nat)
deriving DecidableEq

variable {p : Partitioner} {σ : Type} [Store σ]

/-- Does a mutation. -/
def perform (now : Instant) : Mutation → Attempt (Board p σ) Answer
  | set t => do
    Board.set now t
    return .done
  | setAll ts => do
    Board.setAll now ts
    return .done
  | remove k => return .removed (← Board.remove now k)
  | removeWhere q => return .keys (← Board.removeWhere now q.holds)
  | adjust k c => return .result (← Board.adjust now k c.apply)
  | adjustKeys ks c => return .results (← Board.adjustKeys now ks c.apply)
  | adjustWhere q c => return .results (← Board.adjustWhere now q.holds c.apply)
  | loadAll => return .count (← Board.loadAll)

/-- The board after a sequence of mutations at given instants, each of which may fail. -/
def run (b : Board p σ) (ms : List (Instant × Mutation)) : Board p σ :=
  ms.foldl (fun b m => (m.2.perform m.1).stateAfter b) b

end Mutation

end ChunkDispatch
