import ChunkDispatch.Proofs.LastHolders
import ChunkDispatch.Proofs.Tally
import Mathlib.Data.List.Dedup

/-!
# What tallies come to

Trackers are *gathered* by counting parts of them from nothing and merging the counts, in whatever
order.  A tally which comes to the same however given trackers are gathered *comes to* a result for
these trackers.  Every tally comes to what is defined directly on the list of them: the sinks in
use, the distinct jobs and the number of chunks of a sink, the latest chunk of each channel, and the
number of chunks for each sink and status.  So the tallies which count by sink and status agree with
one another.
-/

namespace ChunkDispatch

/-- A way of gathering trackers: parts are counted, and counts are merged. -/
inductive Gathering where
  | part (trackers : List Tracker)
  | merged (first second : Gathering)

/-- The trackers which are gathered. -/
def Gathering.trackers : Gathering → List Tracker
  | part ts => ts
  | merged first second => first.trackers ++ second.trackers

/-- The status of a sink with given counts, whose queues are in direct mode since `now`. -/
def SinkStatus.counted (now : Instant) (n : Status → Nat) : SinkStatus where
  processing := ⟨n .readyForProcessing, n .queuedForProcessing, .direct, now⟩
  delivering := ⟨n .readyForDelivery, n .queuedForDelivery, .direct, now⟩
  blocked := n .blocked
  completed := n .completed

namespace Tally

open SinkStatus

variable {σ β : Type} {t : Tally σ β}

/-! ### Gathering -/

/-- The count of what is gathered. -/
def gather (t : Tally σ β) : Gathering → σ
  | .part ts => t.part ts
  | .merged first second => t.merge (t.gather first) (t.gather second)

/-- The tally comes to the result `b` for some trackers, in whatever parts and order they come. -/
structure ComesTo (t : Tally σ β) (ts : List Tracker) (b : β) : Prop where
  ofParts : ∀ parts : List (List Tracker), parts.flatten.Perm ts → t.ofParts parts = b
  gather : ∀ g : Gathering, g.trackers.Perm ts → t.result (t.gather g) = b

/-- What is gathered is counted as if it were one part. -/
theorem AddsUp.gather_eq (h : t.AddsUp) (g : Gathering) :
  t.gather g = t.part g.trackers
  := by
  induction g with
  | part ts => rfl
  | merged first second ih ih' =>
    rw [gather, ih, ih', h.merge_part, Gathering.trackers, part, part, List.foldl_append]

/-- A tally which adds up comes to what it makes of one part. -/
theorem AddsUp.comesTo (h : t.AddsUp) (ts : List Tracker) :
  t.ComesTo ts (t.result (t.part ts))
  := by
  constructor
  · exact fun _ hperm => h.ofParts_perm hperm
  · intro g hperm
    rw [h.gather_eq, h.part_perm hperm]

theorem part_append_singleton (t : Tally σ β) (ts : List Tracker) (x : Tracker) :
  t.part (ts ++ [x]) = t.add (t.part ts) x
  := by
  rw [part, List.foldl_append]
  rfl

/-! ### Sinks and jobs -/

/-- The tracker is in the status, or is live if none is given. -/
def IsAsked : Option Status → Tracker → Prop
  | some s, t => t.status = s
  | none, t => t.isLive = true

/-- A tracker adds its sink if it is one of those asked for. -/
theorem mem_add_activeSinks {status : Option Status} {sinks : SortedSet Int32} {t : Tracker}
    {sink : Int32} :
  sink ∈ (activeSinks status).add sinks t ↔ sink ∈ sinks ∨ IsAsked status t ∧ t.sink = sink
  := by
  have hasked : status.elim t.isLive (fun s => decide (t.status = s)) = true
      ↔ IsAsked status t := by
    cases status <;> simp [IsAsked]
  rw [← hasked]
  simp only [activeSinks]
  split
  · rename_i h
    rw [SortedSet.mem_insert, or_comm, and_iff_right h, eq_comm]
  · rename_i h
    rw [or_iff_left (fun h' => h h'.1)]

theorem mem_part_activeSinks {status : Option Status} {ts : List Tracker} {sink : Int32} :
  sink ∈ (activeSinks status).part ts ↔ ∃ t ∈ ts, IsAsked status t ∧ t.sink = sink
  := by
  induction ts using List.reverseRecOn with
  | nil => exact iff_of_false List.not_mem_nil (by simp)
  | append_singleton ts t ih =>
    rw [part_append_singleton, mem_add_activeSinks, ih]
    simp [or_and_right, exists_or]

/-- The jobs of the live trackers of a sink, one for each tracker. -/
def jobsOf (sink : Int32) (ts : List Tracker) : List Int32 :=
  (ts.filter (fun t => t.sink = sink ∧ t.isLive)).map (fun t => t.key.job)

theorem jobsOf_append_singleton (sink : Int32) (ts : List Tracker) (t : Tracker) :
  jobsOf sink (ts ++ [t])
    = jobsOf sink ts ++ if t.sink = sink ∧ t.isLive then [t.key.job] else []
  := by
  rw [jobsOf, List.filter_append, List.map_append, ← jobsOf, List.filter_singleton]
  by_cases h : t.sink = sink ∧ t.isLive <;> simp [h]

/-- The jobs counted are those on the list, and the chunks counted are as many as the list is
long. -/
theorem part_jobCount (sink : Int32) (ts : List Tracker) :
  (∀ job, job ∈ ((jobCount sink).part ts).1 ↔ job ∈ jobsOf sink ts) ∧
    ((jobCount sink).part ts).2 = (jobsOf sink ts).length
  := by
  induction ts using List.reverseRecOn with
  | nil => exact ⟨fun _ => Iff.rfl, rfl⟩
  | append_singleton ts t ih =>
    obtain ⟨hjobs, hchunks⟩ := ih
    have hadd : (jobCount sink).add ((jobCount sink).part ts) t
        = if t.sink = sink ∧ t.isLive
          then (((jobCount sink).part ts).1.insert t.key.job, ((jobCount sink).part ts).2 + 1)
          else (jobCount sink).part ts := rfl
    rw [part_append_singleton, jobsOf_append_singleton, hadd]
    split
    · constructor
      · intro job
        rw [SortedSet.mem_insert, hjobs, List.mem_append, List.mem_singleton, or_comm]
      · rw [hchunks, List.length_append, List.length_singleton]
    · rw [List.append_nil]
      exact ⟨hjobs, hchunks⟩

/-- A set has as many members as a list of them has distinct ones. -/
theorem size_eq_of_mem {s : SortedSet Int32} {ℓ : List Int32} (h : ∀ x, x ∈ s ↔ x ∈ ℓ) :
  s.size = ℓ.dedup.length
  := by
  apply List.Perm.length_eq
  apply (List.perm_ext_iff_of_nodup s.nodup_toList ℓ.nodup_dedup).mpr
  intro x
  rw [List.mem_dedup, ← h]
  rfl

theorem result_part_jobCount (sink : Int32) (ts : List Tracker) :
  (jobCount sink).result ((jobCount sink).part ts)
    = ⟨(jobsOf sink ts).dedup.length, (jobsOf sink ts).length⟩
  := by
  obtain ⟨hjobs, hchunks⟩ := part_jobCount sink ts
  rw [← hchunks, ← size_eq_of_mem hjobs]
  rfl

/-! ### Sinks and statuses -/

/-- The number of trackers of a sink in a status. -/
def number (ts : List Tracker) (sink : Int32) (status : Status) : Nat :=
  ts.countP (fun t => t.sink = sink ∧ t.status = status)

theorem number_append_singleton (ts : List Tracker) (t : Tracker) (sink : Int32)
    (status : Status) :
  number (ts ++ [t]) sink status
    = number ts sink status + if t.sink = sink ∧ t.status = status then 1 else 0
  := by
  rw [number, List.countP_append, List.countP_singleton]
  simp [number]

theorem part_statusCount (sink : Int32) (status : Status) (ts : List Tracker) :
  (statusCount sink status).part ts = number ts sink status
  := by
  induction ts using List.reverseRecOn with
  | nil => rfl
  | append_singleton ts t ih =>
    rw [part_append_singleton, number_append_singleton, ← ih]
    simp only [statusCount]
    split <;> rfl

/-- A sink has an entry if it has a tracker in the status. -/
theorem find?_part_sinkCounts (status : Status) (ts : List Tracker) (sink : Int32) :
  ((sinkCounts status).part ts).find? sink
    = if number ts sink status = 0 then none else some (number ts sink status)
  := by
  induction ts using List.reverseRecOn with
  | nil => rfl
  | append_singleton ts t ih =>
    have hadd : ∀ m, (sinkCounts status).add m t
        = if t.status = status then m.alter t.sink (fun n => n.getD 0 + 1) else m :=
      fun _ => rfl
    rw [part_append_singleton, number_append_singleton, hadd]
    split
    · rename_i hstatus
      rw [SortedMap.find?_alter]
      by_cases hsink : sink = t.sink
      · subst hsink
        rw [ih]
        cases number ts t.sink status <;> simp [hstatus]
      · simp [hsink, Ne.symm hsink, ih]
    · rename_i hstatus
      simp [hstatus, ih]

/-- One tracker more is counted in its status. -/
theorem counted_add (now : Instant) (n : Status → Nat) (status : Status) :
  (counted now n).add status = counted now (fun s => n s + if status = s then 1 else 0)
  := by
  cases status <;> rfl

/-- A sink without trackers is counted as a fresh one. -/
theorem counted_number_of_not_exists {ts : List Tracker} {sink : Int32} (now : Instant)
    (h : ¬ ∃ t ∈ ts, t.sink = sink) :
  counted now (number ts sink) = .fresh now
  := by
  have hzero : number ts sink = fun _ => 0 := by
    funext s
    apply List.countP_eq_zero.mpr
    intro t ht
    rw [decide_eq_true_eq]
    exact fun hsink => h ⟨t, ht, hsink.1⟩
  rw [hzero]
  rfl

/-- A sink has an entry if it is one of those asked for and some tracker goes to it. -/
theorem find?_part_statusCounts (now : Instant) (sinks : SortedSet Int32) (ts : List Tracker)
    (sink : Int32) :
  ((statusCounts now sinks).part ts).find? sink
    = if (sinks.isEmpty ∨ sink ∈ sinks) ∧ ∃ t ∈ ts, t.sink = sink
      then some (counted now (number ts sink)) else none
  := by
  induction ts using List.reverseRecOn with
  | nil =>
    rw [if_neg (by simp)]
    rfl
  | append_singleton ts t ih =>
    have hadd : ∀ m, (statusCounts now sinks).add m t
        = if sinks.isEmpty ∨ t.sink ∈ sinks
          then m.alter t.sink (fun s => (s.getD (.fresh now)).add t.status) else m :=
      fun _ => rfl
    rw [part_append_singleton, hadd]
    by_cases hsink : t.sink = sink
    · subst hsink
      by_cases hasked : sinks.isEmpty ∨ t.sink ∈ sinks
      · have hbefore : (((statusCounts now sinks).part ts).find? t.sink).getD (.fresh now)
            = counted now (number ts t.sink) := by
          rw [ih]
          split
          · rfl
          · rename_i hnot
            rw [counted_number_of_not_exists now (fun hexists => hnot ⟨hasked, hexists⟩)]
            rfl
        rw [if_pos hasked, SortedMap.find?_alter, if_pos rfl, hbefore, counted_add,
          if_pos ⟨hasked, t, List.mem_append_right _ List.mem_cons_self, rfl⟩]
        congr 2
        funext s
        rw [number_append_singleton]
        simp
      · simp [hasked, ih]
    · have hexists : (∃ u ∈ ts ++ [t], u.sink = sink) ↔ ∃ u ∈ ts, u.sink = sink := by
        simp [or_and_right, exists_or, hsink]
      have hnumber : number (ts ++ [t]) sink = number ts sink := by
        funext s
        simp [number_append_singleton, hsink]
      simp only [hexists, hnumber, ← ih]
      split
      · rw [SortedMap.find?_alter, if_neg (Ne.symm hsink)]
      · rfl

/-- The live trackers of a sink are those in one of the five live statuses. -/
theorem length_jobsOf (sink : Int32) (ts : List Tracker) :
  (jobsOf sink ts).length
    = number ts sink .readyForProcessing + number ts sink .queuedForProcessing
      + number ts sink .blocked + number ts sink .readyForDelivery
      + number ts sink .queuedForDelivery
  := by
  have hone : ∀ (status : Status) (p : Prop) [Decidable p] (job : Int32),
      (if p ∧ status.isLive then [job] else []).length
        = (if p ∧ status = .readyForProcessing then 1 else 0)
          + (if p ∧ status = .queuedForProcessing then 1 else 0)
          + (if p ∧ status = .blocked then 1 else 0)
          + (if p ∧ status = .readyForDelivery then 1 else 0)
          + (if p ∧ status = .queuedForDelivery then 1 else 0) := by
    intro status p _ job
    by_cases hp : p <;> cases status <;> simp [hp, Status.isLive]
  induction ts using List.reverseRecOn with
  | nil => rfl
  | append_singleton ts t ih =>
    have hlast : (if t.sink = sink ∧ t.isLive then [t.key.job] else []).length = _ :=
      hone t.status (t.sink = sink) t.key.job
    simp only [jobsOf_append_singleton, number_append_singleton, List.length_append, ih]
    omega

/-- How many chunks a tally by sink and status counts in a sink it was asked for. -/
theorem countIn_part_statusCounts (now : Instant) {sinks : SortedSet Int32} {sink : Int32}
    (hasked : sinks.isEmpty ∨ sink ∈ sinks) (ts : List Tracker) (status : Status) :
  countIn ((statusCounts now sinks).part ts) sink status = number ts sink status
  := by
  rw [countIn, find?_part_statusCounts]
  split
  · cases status <;> rfl
  · rename_i hnot
    have hfresh := counted_number_of_not_exists now (fun hexists => hnot ⟨hasked, hexists⟩)
    have hcount : (counted now (number ts sink)).count status = number ts sink status := by
      cases status <;> rfl
    rw [← hcount, hfresh, count_fresh]
    rfl

/-! ### The six tallies -/

/--
However trackers are gathered, each tally comes to what is defined on the list of them: the sinks
with trackers asked for; the distinct jobs and the number of the live trackers of a sink; the
greatest key of a live tracker on each channel; the number of trackers of each sink in each status.
The three tallies by sink and status agree for every sink which was asked for, and the chunks of a
sink are those in its five live statuses.
-/
theorem comes_to_count (ts : List Tracker) :
  (∀ status, ∃ sinks, (activeSinks status).ComesTo ts sinks ∧
    ∀ sink, sink ∈ sinks ↔ ∃ t ∈ ts, IsAsked status t ∧ t.sink = sink) ∧
  (∀ sink, (jobCount sink).ComesTo ts
    ⟨(jobsOf sink ts).dedup.length, (jobsOf sink ts).length⟩) ∧
  (∃ keys, latest.ComesTo ts keys ∧ ∀ c k, keys.find? c = some k ↔ IsLastOn c ts k) ∧
  (∀ now sinks, ∃ counts, (statusCounts now sinks).ComesTo ts counts ∧
    ∀ sink, counts.find? sink = if (sinks.isEmpty ∨ sink ∈ sinks) ∧ ∃ t ∈ ts, t.sink = sink
      then some (counted now (number ts sink)) else none) ∧
  (∀ sink status, (statusCount sink status).ComesTo ts (number ts sink status)) ∧
  (∀ status, ∃ counts, (sinkCounts status).ComesTo ts counts ∧
    ∀ sink, counts.find? sink
      = if number ts sink status = 0 then none else some (number ts sink status)) ∧
  ∀ (parts : List (List Tracker)), parts.flatten.Perm ts →
    ∀ (now : Instant) (sinks : SortedSet Int32) (sink : Int32), sinks.isEmpty ∨ sink ∈ sinks →
      let counted := countIn ((statusCounts now sinks).ofParts parts) sink
      (∀ status, counted status = (statusCount sink status).ofParts parts ∧
        counted status = (((sinkCounts status).ofParts parts).find? sink).getD 0) ∧
      ((jobCount sink).ofParts parts).chunks
        = counted .readyForProcessing + counted .queuedForProcessing + counted .blocked
          + counted .readyForDelivery + counted .queuedForDelivery
  := by
  refine ⟨?_, ?_, ?_, ?_, ?_, ?_, ?_⟩
  · intro status
    exact ⟨_, (addsUp_activeSinks status).comesTo ts, fun _ => mem_part_activeSinks⟩
  · intro sink
    rw [← result_part_jobCount]
    apply (addsUp_jobCount sink).comesTo
  · exact ⟨_, addsUp_latest.comesTo ts, fun _ _ => (holdsLatest_part ts).find?_iff⟩
  · intro now sinks
    exact ⟨_, (addsUp_statusCounts now sinks).comesTo ts, find?_part_statusCounts now sinks ts⟩
  · intro sink status
    rw [← part_statusCount]
    apply (addsUp_statusCount sink status).comesTo
  · intro status
    exact ⟨_, (addsUp_sinkCounts status).comesTo ts, find?_part_sinkCounts status ts⟩
  · intro parts hperm now sinks sink hasked counted
    have hcounted : counted = number ts sink := by
      funext status
      rw [← countIn_part_statusCounts now hasked]
      exact congrArg (countIn · sink status) ((addsUp_statusCounts now sinks).ofParts_perm hperm)
    rw [hcounted]
    constructor
    · intro status
      rw [(addsUp_statusCount sink status).ofParts_perm hperm,
        (addsUp_sinkCounts status).ofParts_perm hperm]
      change _ = (statusCount sink status).part ts ∧
        _ = (((sinkCounts status).part ts).find? sink).getD 0
      rw [part_statusCount, find?_part_sinkCounts]
      cases number ts sink status <;> exact ⟨rfl, rfl⟩
    · rw [(addsUp_jobCount sink).ofParts_perm hperm, result_part_jobCount]
      apply length_jobsOf

end Tally

end ChunkDispatch
