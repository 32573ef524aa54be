import ChunkDispatch.Proofs.Aggregation
import ChunkDispatch.Scheduler

/-!
# Counting by sink and status

A map of sinks *counts* for each sink and status the chunks its entry has in that status, and none
if the sink has no entry.  One tracker more raises one count by one.  So a tally over the parts of a
grid counts the trackers of the grid, and the book counted anew says of every sink how many of its
trackers are in which status.
-/

namespace ChunkDispatch

namespace SinkStatus

variable {m m' : SortedMap Int32 SinkStatus} {sink : Int32} {status : Status}

/-- How many chunks of a sink a map counts in a status. -/
def countIn (m : SortedMap Int32 SinkStatus) (sink : Int32) (status : Status) : Nat :=
  (m.find? sink).elim 0 (fun s => s.count status)

theorem count_fresh (now : Instant) (status : Status) :
  (fresh now).count status = 0
  := by
  cases status <;> rfl

theorem count_getD_fresh (now : Instant) (s : Option SinkStatus) (status : Status) :
  (s.getD (.fresh now)).count status = s.elim 0 (fun s => s.count status)
  := by
  cases s with
  | none => apply count_fresh
  | some s => rfl

/-- The mode of a queue is no matter of how many chunks there are. -/
theorem count_setMode (s : SinkStatus) (p : Phase) (now : Instant) (mode : SubmitMode)
    (status : Status) :
  (s.mapQueue p (·.setMode now mode)).count status = s.count status
  := by
  cases p <;> cases status <;> simp [mapQueue, count]

theorem countIn_alter (k : Int32) (f : Option SinkStatus → SinkStatus) :
  countIn (m.alter k f) sink status
    = if sink = k then (f (m.find? k)).count status else countIn m sink status
  := by
  rw [countIn, SortedMap.find?_alter]
  split <;> rfl

end SinkStatus

namespace Tally

open SinkStatus

variable {now : Instant} {sinks : SortedSet Int32} {sink : Int32} {status : Status}

/-- The tracker is one of those of a sink in a status, and the sink is one of those asked for. -/
def IsCounted (sinks : SortedSet Int32) (sink : Int32) (status : Status) (t : Tracker) : Bool :=
  t.sink = sink ∧ t.status = status ∧ (sinks.isEmpty ∨ t.sink ∈ sinks)

theorem countIn_add (m : SortedMap Int32 SinkStatus) (t : Tracker) :
  countIn ((statusCounts now sinks).add m t) sink status
    = countIn m sink status + if IsCounted sinks sink status t then 1 else 0
  := by
  simp only [statusCounts, IsCounted]
  split
  · rename_i hwanted
    rw [countIn_alter]
    split
    · rename_i hsink
      rw [count_add, count_getD_fresh, count_getD_fresh, hsink, countIn]
      by_cases hstatus : t.status = status
      · simp [hstatus, hwanted]
      · simp [hstatus, Ne.symm hstatus]
    · rename_i hsink
      simp [Ne.symm hsink]
  · rename_i hnot
    simp [hnot]

theorem countIn_foldl_add (ts : List Tracker) (m : SortedMap Int32 SinkStatus) :
  countIn (ts.foldl (statusCounts now sinks).add m) sink status
    = countIn m sink status + ts.countP (IsCounted sinks sink status)
  := by
  induction ts generalizing m with
  | nil => rfl
  | cons t rest ih =>
    rw [List.foldl_cons, ih, countIn_add, List.countP_cons]
    omega

theorem countIn_ofParts (parts : List (List Tracker)) :
  countIn ((statusCounts now sinks).ofParts parts) sink status
    = parts.flatten.countP (IsCounted sinks sink status)
  := by
  rw [(addsUp_statusCounts now sinks).ofParts_eq]
  apply (countIn_foldl_add _ _).trans
  apply Nat.zero_add

end Tally

namespace Scheduler

open SinkStatus

variable {p : Partitioner} {σ : Type} {s : Scheduler p σ}

/-- The counts are those of the trackers, however they are split over the partitions. -/
theorem countIn_statusCounts (hs : s.grid.WellFiled) (now : Instant) (sinks : SortedSet Int32)
    (sink : Int32) (status : Status) :
  countIn (s.statusCounts now sinks) sink status
    = s.grid.trackers.countP (Tally.IsCounted sinks sink status)
  := by
  rw [statusCounts, Grid.tally, Tally.countIn_ofParts]
  apply (Grid.perm_parts hs).countP_eq

/-- The book counted anew says how many trackers of a sink are in a status. -/
theorem count_recount (hs : s.grid.WellFiled) (now now' : Instant) (sink : Int32)
    (status : Status) :
  (((s.recount now ∅).book.get now' sink).count status)
    = s.grid.trackers.countP (fun t => t.sink = sink ∧ t.status = status)
  := by
  have hcounted : Tally.IsCounted ∅ sink status
      = fun t => decide (t.sink = sink ∧ t.status = status) := by
    funext t
    simp [Tally.IsCounted, show (∅ : SortedSet Int32).isEmpty = true from rfl]
  rw [Book.get, count_getD_fresh, ← hcounted, ← countIn_statusCounts hs now, countIn]
  change (SortedMap.find? (SortedMap.map _ _) _).elim _ _ = _
  rw [SortedMap.find?_map]
  cases (s.statusCounts now ∅).find? sink with
  | none => rfl
  | some c => simp [count_setMode]

end Scheduler

end ChunkDispatch
