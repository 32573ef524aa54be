import ChunkDispatch.Tracker

/-!
# Queries

A *query* is a question about one tracker which is answered by the tracker alone.  Completed
trackers are history and not part of scheduling, so the queries about dependencies pass them
over.
-/

namespace ChunkDispatch

namespace Query

/-- Trackers in a status, of one sink or of all. -/
structure ByStatus where
  sink : Option Int32
  status : Status
deriving DecidableEq, Repr

def ByStatus.holds (q : ByStatus) (t : Tracker) : Bool :=
  t.status = q.status ∧ q.sink.all (· = t.sink)

/-- Live trackers of a lane which have one of the given hashes. -/
structure Sharing where
  sink : Int32
  submitter : Int32
  hashes : List Int32
deriving DecidableEq, Repr

/-- The query for any of `hashes` and for the hash of the barrier, each once and ascending. -/
def Sharing.of (sink submitter : Int32) (hashes : List Int32) (barrier : Option String) :
    Sharing where
  sink := sink
  submitter := submitter
  hashes := (SortedSet.ofList (hashes ++ (barrier.map MatchKey.hash).toList)).toList

def Sharing.holds (q : Sharing) (t : Tracker) : Bool :=
  t.isLive ∧ t.sink = q.sink ∧ t.submitter = q.submitter ∧ q.hashes.any t.hasHash

/-- Live trackers of a sink which belong to a job or have one of the given match keys. -/
structure JobBarrier where
  sink : Int32
  job : Int32
  matchKeys : SortedSet String
deriving DecidableEq

def JobBarrier.holds (q : JobBarrier) (t : Tracker) : Bool :=
  t.isLive ∧ t.sink = q.sink ∧
    (t.key.job = q.job ∨ t.matchKeys.toList.any (fun k => k ∈ q.matchKeys))

/-- Live trackers of a lane which have the first of the given match keys. -/
structure FirstKey where
  sink : Int32
  submitter : Int32
  matchKeys : SortedSet String
deriving DecidableEq

def FirstKey.holds (q : FirstKey) (t : Tracker) : Bool :=
  match q.matchKeys.min? with
  | none => false
  | some first =>
    t.isLive ∧ t.sink = q.sink ∧ t.submitter = q.submitter ∧ first ∈ t.matchKeys

/-- Trackers which wait for a chunk, of one sink or of all. -/
structure WaitingFor where
  sink : Option Int32
  key : Key
deriving DecidableEq, Repr

def WaitingFor.holds (q : WaitingFor) (t : Tracker) : Bool :=
  q.sink.all (· = t.sink) ∧ q.key ∈ t.waitingOn

/-- Trackers of a job. -/
structure OfJob where
  job : Int32
deriving DecidableEq, Repr

def OfJob.holds (q : OfJob) (t : Tracker) : Bool :=
  t.key.job = q.job

/-- Trackers in a status which have not changed since an instant. -/
structure Stale where
  status : Status
  olderThan : Instant
deriving DecidableEq, Repr

def Stale.holds (q : Stale) (t : Tracker) : Bool :=
  t.status = q.status ∧ t.lastModified < q.olderThan

/-- Trackers in a status which belong to one of the given jobs. -/
structure InJobs where
  status : Status
  jobs : SortedSet Int32
deriving DecidableEq

def InJobs.holds (q : InJobs) (t : Tracker) : Bool :=
  t.status = q.status ∧ t.key.job ∈ q.jobs

/-! ### Records -/

instance : Codec ByStatus :=
  .record ["sinkId", "status"] (fun q => (q.sink, q.status, ()))
    (fun (sink, status, ()) => ⟨sink, status⟩)

instance : Codec Sharing :=
  .record ["sinkId", "submitter", "hashes"] (fun q => (q.sink, q.submitter, q.hashes, ()))
    (fun (sink, submitter, hashes, ()) => ⟨sink, submitter, hashes⟩)

instance : Codec JobBarrier :=
  .record ["sinkId", "jobId", "matchKeys"] (fun q => (q.sink, q.job, q.matchKeys, ()))
    (fun (sink, job, matchKeys, ()) => ⟨sink, job, matchKeys⟩)

instance : Codec FirstKey :=
  .record ["sinkId", "submitter", "matchKeys"] (fun q => (q.sink, q.submitter, q.matchKeys, ()))
    (fun (sink, submitter, matchKeys, ()) => ⟨sink, submitter, matchKeys⟩)

instance : Codec WaitingFor :=
  .record ["sinkId", "key"] (fun q => (q.sink, q.key, ())) (fun (sink, key, ()) => ⟨sink, key⟩)

instance : Codec OfJob :=
  .record ["jobId"] (fun q => (q.job, ())) (fun (job, ()) => ⟨job⟩)

instance : Codec Stale :=
  .record ["status", "olderThan"] (fun q => (q.status, q.olderThan, ()))
    (fun (status, olderThan, ()) => ⟨status, olderThan⟩)

instance : Codec InJobs :=
  .record ["status", "jobIds"] (fun q => (q.status, q.jobs, ()))
    (fun (status, jobs, ()) => ⟨status, jobs⟩)

end Query

/-- A question about a tracker. -/
inductive Query where
  | everything
  | byStatus (q : Query.ByStatus)
  | sharing (q : Query.Sharing)
  | jobBarrier (q : Query.JobBarrier)
  | firstKey (q : Query.FirstKey)
  | waitingFor (q : Query.WaitingFor)
  | ofJob (q : Query.OfJob)
  | stale (q : Query.Stale)
  | inJobs (q : Query.InJobs)
deriving DecidableEq

/-- Whether a tracker is among those asked for. -/
def Query.holds : Query → Tracker → Bool
  | .everything, _ => true
  | .byStatus q, t => q.holds t
  | .sharing q, t => q.holds t
  | .jobBarrier q, t => q.holds t
  | .firstKey q, t => q.holds t
  | .waitingFor q, t => q.holds t
  | .ofJob q, t => q.holds t
  | .stale q, t => q.holds t
  | .inJobs q, t => q.holds t

end ChunkDispatch
