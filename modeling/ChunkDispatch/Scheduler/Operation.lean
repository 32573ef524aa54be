import ChunkDispatch.Scheduler.Completion
import ChunkDispatch.Scheduler.Override
import ChunkDispatch.Scheduler.Registration
import ChunkDispatch.Scheduler.Submission

/-!
# Operations

Everything a scheduler can be asked to do, as data, so that one can speak of any sequence of it.
A sequence is run operation by operation, each at an instant of its own, and goes on after an
operation which failed.
-/

namespace ChunkDispatch

/-- Something a scheduler is asked to do. -/
inductive Operation where
  | load
  | register (c : Chunk) (barrier : Option String)
  | complete (k : Key)
  | removeFromWaitingOn (k : Key) (sink : Option Int32)
  | processingDone (k : Key)
  | transition (k : Key) (source target : Status)
  | setStatus (k : Key) (status : Status)
  | resetStatus (source target : Status) (jobs : List Int32)
  | resend (k : Key)
  | boost (ks : List Key) (priority : Int32)
  | remove (k : Key)
  | removeJob (job : Int32)
  | recheck
  | purge
  | bulkSchedule (sink : Int32) (phase : Phase)
  | forceMode (sink : Int32) (phase : Phase) (mode : SubmitMode)
  | updateMode (sink : Int32) (phase : Phase)
  | recount (sinks : SortedSet Int32)
deriving DecidableEq

namespace Operation

/-- What an operation comes to. -/
inductive Answer where
  | done
  | count (n : Nat)
  | flag (b : Bool)
  | tracker (t : Tracker)
  | removed (t : Option Tracker)
  | keys (ks : List Key)
  | retries (n : Option Int32)
deriving DecidableEq

variable {p : Partitioner} {σ : Type} [Store σ]

/-- Does what is asked for. -/
def perform (now : Instant) : Operation → Attempt (Scheduler p σ) Answer
  | load => return .count (← Scheduler.load now)
  | register c barrier => return .tracker (← Scheduler.register now c barrier)
  | complete k => return .keys (← Scheduler.complete now k).toList
  | removeFromWaitingOn k sink =>
    return .keys (← Scheduler.removeFromWaitingOn now k sink).toList
  | processingDone k => return .flag (← Scheduler.processingDone now k)
  | transition k source target => return .flag (← Scheduler.transition now k source target)
  | setStatus k status => return .flag (← Scheduler.setStatus now k status)
  | resetStatus source target jobs =>
    return .count (← Scheduler.resetStatus now source target jobs)
  | resend k => return .retries (← Scheduler.resend now k)
  | boost ks priority => return .count (← Scheduler.boost now ks priority)
  | remove k => return .removed (← Scheduler.remove now k)
  | removeJob job => return .keys (← Scheduler.removeJob now job).toList
  | recheck => return .keys (← Scheduler.recheck now).toList
  | purge => return .keys (← Scheduler.purge now).toList
  | bulkSchedule sink phase => return .keys (← Scheduler.bulkSchedule now sink phase)
  | forceMode sink phase mode => do
    modify (Scheduler.forceMode now sink phase mode)
    return .done
  | updateMode sink phase => return .flag (← modifyGet (Scheduler.updateMode now sink phase))
  | recount sinks => do
    modify (Scheduler.recount now sinks)
    return .done

/--
What a sequence of operations comes to, operation by operation, and the scheduler after all of
them.
-/
def run (s : Scheduler p σ) : List (Instant × Operation) →
    List (Except Error Answer) × Scheduler p σ
  | [] => ([], s)
  | (now, o) :: rest =>
    let (answers, s') := run ((o.perform now).stateAfter s) rest
    ((o.perform now).outcome s :: answers, s')

end Operation

end ChunkDispatch
