import ChunkDispatch.Board.Mutation
import ChunkDispatch.Scheduler.Operation

/-!
# Actions

An *action* is an operation of the scheduler or a mutation made directly on its board.  A sequence
of actions is run one by one, each at an instant of its own, and goes on after one which failed.
-/

namespace ChunkDispatch

/-- Something done to a scheduler or to its board. -/
inductive Action where
  | operation (o : Operation)
  | mutation (m : Mutation)
deriving DecidableEq

namespace Action

variable {p : Partitioner} {σ : Type} [Store σ]

/-- Does an action. -/
def perform (now : Instant) :
    Action → Attempt (Scheduler p σ) (Operation.Answer ⊕ Mutation.Answer)
  | operation o => return .inl (← o.perform now)
  | mutation m => return .inr (← Scheduler.onBoard (m.perform now))

/-- The scheduler after a sequence of actions at given instants, each of which may fail. -/
def run (s : Scheduler p σ) (as : List (Instant × Action)) : Scheduler p σ :=
  as.foldl (fun s a => (a.2.perform a.1).stateAfter s) s

end Action

end ChunkDispatch
