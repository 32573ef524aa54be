import ChunkDispatch.Proofs.Coherence
import ChunkDispatch.Proofs.Correspondence

/-!
# Partitions are not seen

A scheduler *mirrors* another if their boards do, they sent the same keys, and their settings
differ in the number of partitions at most.  Whatever is looked up or counted is the same in both,
and to mirror one another is a correspondence, so every operation is alike on them.  So two
schedulers started over one store with different numbers of partitions answer every sequence of
operations alike and end with the same trackers, rows, counts and modes.
-/

namespace ChunkDispatch

open Attempt

namespace Scheduler

variable {p p' : Partitioner} {σ : Type} [Store σ] [LawfulStore σ]
variable {s : Scheduler p σ} {s' : Scheduler p' σ}

/-- The schedulers differ in nothing but their partitions. -/
structure Mirrors (s : Scheduler p σ) (s' : Scheduler p' σ) : Prop where
  board : s.board.Mirrors s'.board
  ready : s.ready = s'.ready
  retention : s.settings.retention = s'.settings.retention
  maxEnqueued : s.settings.maxEnqueued = s'.settings.maxEnqueued
  directMark : s.settings.directMark = s'.settings.directMark

namespace Mirrors

variable (h : s.Mirrors s')

include h

theorem tally {α β : Type} {t : Tally α β} (ht : t.AddsUp) :
  s.grid.tally t = s'.grid.tally t
  := by
  have hs := Grid.tally_eq ht h.board.working.filed
  have hs' := Grid.tally_eq ht h.board.working'.filed
  rw [h.board.oneMap, ← hs'] at hs
  apply hs

theorem shows :
  s.ShowsAs s'
  where
  find? := h.board.find?
  values q := congrArg SortedMap.values (h.board.select q)
  keys q := congrArg SortedMap.keys (h.board.select q)
  size := by
    have hs := Grid.size_eq h.board.working.filed
    have hs' := Grid.size_eq h.board.working'.filed
    rw [h.board.oneMap, ← hs'] at hs
    apply hs
  tally := h.tally
  book := h.board.book
  ready := h.ready
  retention := h.retention
  maxEnqueued := h.maxEnqueued
  directMark := h.directMark

theorem mapBook {f f' : Book → Book} (hf : f s.book = f' s'.book) :
  (s.mapBook f).Mirrors (s'.mapBook f')
  := by
  constructor
  · constructor
    · exact ⟨h.board.working.works, h.board.working.filed⟩
    · exact ⟨h.board.working'.works, h.board.working'.filed⟩
    · exact h.board.keyed
    · exact h.board.rows
    · exact h.board.find?
    · exact hf
  · exact h.ready
  · exact h.retention
  · exact h.maxEnqueued
  · exact h.directMark

theorem send (k : Key) :
  (s.send k).Mirrors (s'.send k)
  := by
  rw [Scheduler.send, Scheduler.send, h.ready]
  split
  · exact ⟨h.board, rfl, h.retention, h.maxEnqueued, h.directMark⟩
  · exact h

theorem onBoard_alike {α : Type} {x : Attempt (Board p σ) α} {y : Attempt (Board p' σ) α}
    (hxy : Alike Board.Mirrors x s.board y s'.board) :
  Alike Mirrors (onBoard x) s (onBoard y) s'
  := by
  apply alike_within hxy
  exact fun _ _ hb => ⟨hb, h.ready, h.retention, h.maxEnqueued, h.directMark⟩

end Mirrors

/-- To mirror one another is a correspondence. -/
theorem corresponds_mirrors (now : Instant) :
  Corresponds now (Mirrors : Scheduler p σ → Scheduler p' σ → Prop)
  where
  filed h := h.board.working'.filed
  shows := Mirrors.shows
  mapBook := Mirrors.mapBook
  send := Mirrors.send
  set h t := h.onBoard_alike (Board.set_alike h.board now t)
  remove h k := h.onBoard_alike (Board.remove_alike h.board now k)
  removeWhere h q := h.onBoard_alike (Board.removeWhere_alike h.board now q)
  adjust h k f := h.onBoard_alike (Board.adjust_alike h.board now k f)
  adjustWhere h q _ hf hreleases :=
    h.onBoard_alike (Board.adjustWhere_alike h.board now q hf hreleases)

/-! ### What is seen of a scheduler -/

/-- Nothing that is kept, looked up or counted tells the schedulers apart. -/
structure LooksLike (s : Scheduler p σ) (s' : Scheduler p' σ) : Prop where
  ready : s.ready = s'.ready
  trackers : s.grid.trackers = s'.grid.trackers
  rows : LawfulStore.rows s.board.store = LawfulStore.rows s'.board.store
  book : s.book = s'.book
  find? (k : Key) : s.find? k = s'.find? k
  require (k : Key) : s.require k = s'.require k
  snapshot (job : Int32) : s.snapshot job = s'.snapshot job
  find (status : Status) (sink : Option Int32) (limit : Option Nat) :
    s.find status sink limit = s'.find status sink limit
  waitingFor (k : Key) (sink : Int32) : s.waitingFor k sink = s'.waitingFor k sink
  jobBarrier (sink job : Int32) (matchKeys : SortedSet String) :
    s.jobBarrier sink job matchKeys = s'.jobBarrier sink job matchKeys
  firstKeyHolders (sink submitter : Int32) (matchKeys : SortedSet String) :
    s.firstKeyHolders sink submitter matchKeys = s'.firstKeyHolders sink submitter matchKeys
  stale (now : Instant) (status : Status) (seconds : Int) :
    s.stale now status seconds = s'.stale now status seconds
  prerequisites (t : Tracker) (barrier : Option String) :
    s.prerequisites t barrier = s'.prerequisites t barrier
  activeSinks (status : Option Status) : s.activeSinks status = s'.activeSinks status
  jobCount (sink : Int32) : s.jobCount sink = s'.jobCount sink
  statusCount (sink : Int32) (status : Status) :
    s.statusCount sink status = s'.statusCount sink status
  statusCounts (now : Instant) (sinks : SortedSet Int32) :
    s.statusCounts now sinks = s'.statusCounts now sinks
  sinkCounts (status : Status) : s.sinkCounts status = s'.sinkCounts status
  latest : s.latest = s'.latest

theorem Mirrors.looksLike (h : s.Mirrors s') :
  s.LooksLike s'
  where
  ready := h.ready
  trackers := h.board.trackers
  rows := h.board.rows
  book := h.shows.book
  find? := h.shows.find?
  require k := by rw [require, require, h.shows.find?]
  snapshot _ := h.shows.values _
  find := h.shows.find
  waitingFor _ _ := h.shows.keys _
  jobBarrier _ _ _ := h.shows.keys _
  firstKeyHolders _ _ _ := h.shows.keys _
  stale _ _ _ := h.shows.values _
  prerequisites := h.shows.prerequisites
  activeSinks status := h.tally (Tally.addsUp_activeSinks status)
  jobCount sink := h.tally (Tally.addsUp_jobCount sink)
  statusCount sink status := h.tally (Tally.addsUp_statusCount sink status)
  statusCounts now sinks := h.tally (Tally.addsUp_statusCounts now sinks)
  sinkCounts status := h.tally (Tally.addsUp_sinkCounts status)
  latest := h.tally Tally.addsUp_latest

/-- Two schedulers over one store mirror one another before anything is loaded. -/
theorem mirrors_start (settings : Settings) (n : Nat) (listening : Bool) {store : σ}
    (hworks : LawfulStore.works store)
    (hkeyed : ∀ k t, (LawfulStore.rows store).find? k = some t → t.key = k) :
  (start settings listening store).Mirrors (start { settings with partitions := n } listening store)
  := by
  constructor
  · constructor
    · exact ⟨hworks, Grid.wellFiled_empty⟩
    · exact ⟨hworks, Grid.wellFiled_empty⟩
    · exact hkeyed
    · rfl
    · exact fun k => (Grid.find?_empty k).trans (Grid.find?_empty k).symm
    · rfl
  all_goals rfl

end Scheduler

namespace Operation

variable {p p' : Partitioner} {σ : Type} [Store σ] [LawfulStore σ] [LoadsOnce σ]
variable {s : Scheduler p σ} {s' : Scheduler p' σ}

/-- Every operation comes to the same whatever the partitions are. -/
theorem perform_alike (h : s.Mirrors s') (now : Instant) (o : Operation) :
  Alike Scheduler.Mirrors (o.perform now) s (o.perform now) s'
  := by
  apply (Scheduler.corresponds_mirrors now).perform h
  exact fun _ => h.onBoard_alike (Board.loadAll_alike h.board)

/--
Started over one store whose rows lie under their own keys, and whatever they are asked to do, two
schedulers with different numbers of partitions answer alike and look alike; what is asked of all
their partitions, or done to them, is asked of one map of all trackers, or done to it.
-/
theorem partitions_not_seen (settings : Settings) (n : Nat) (listening : Bool) {store : σ}
    (hworks : LawfulStore.works store)
    (hkeyed : ∀ k t, (LawfulStore.rows store).find? k = some t → t.key = k)
    (os : List (Instant × Operation)) :
  let r := run (Scheduler.start settings listening store) os
  let r' := run (Scheduler.start { settings with partitions := n } listening store) os
  r.1 = r'.1 ∧ r.2.LooksLike r'.2 ∧
    r.2.board.ActsAs r.2.grid.oneMap ∧ r'.2.board.ActsAs r.2.grid.oneMap
  := by
  obtain ⟨hanswers, h⟩ :=
    run_alike perform_alike (Scheduler.mirrors_start settings n listening hworks hkeyed) os
  refine ⟨hanswers, h.looksLike, h.board.working.actsAs, ?_⟩
  have hmap := h.board.oneMap
  rw [Scheduler.grid, hmap]
  apply h.board.working'.actsAs

/-- A chunk is loaded, two which wait for it come after it, and the last is boosted; the first two
are delivered, a chunk of another job is registered, and the completed chunks are purged. -/
def errands : List (Instant × Operation) := [
  (default, .load),
  (default, .register (.sample 1 1 ["a"]) none),
  (default, .register (.sample 1 2 ["a"]) none),
  (default, .boost [⟨1, 2⟩, ⟨1, 2⟩] 7),
  (default, .complete ⟨1, 0⟩),
  (default, .processingDone ⟨1, 1⟩),
  (default, .complete ⟨1, 1⟩),
  (default, .register (.sample 2 0 ["b"]) none),
  (default, .purge)]

/-- Over 16 partitions the two chunks left lie apart, and over one they lie together. -/
theorem partitions_not_seen_of_errands :
  let store := Memory.ofList [(Chunk.sample 1 0 ["a"]).track default]
  let r := run (Scheduler.start ⟨16, .retain, 1, 0⟩ true store) errands
  let r' := run (Scheduler.start ⟨1, .retain, 1, 0⟩ true store) errands
  LawfulStore.works store ∧ (∀ k t, (LawfulStore.rows store).find? k = some t → t.key = k) ∧
    r.1 = r'.1 ∧ r.2.LooksLike r'.2 ∧ r.2.board.ActsAs r.2.grid.oneMap ∧
    r.2.ready.sent = [⟨1, 1⟩, ⟨1, 2⟩] ∧
    r.2.grid.parts.countP (0 < ·.size) = 2 ∧ r'.2.grid.parts.countP (0 < ·.size) = 1
  := by
  intro store r r'
  have hworks : LawfulStore.works store := trivial
  have hkeyed : ∀ k t, (LawfulStore.rows store).find? k = some t → t.key = k :=
    Memory.keyed_ofList _
  obtain ⟨hanswers, hlooks, hacts, -⟩ :=
    partitions_not_seen ⟨16, .retain, 1, 0⟩ 1 true hworks hkeyed errands
  refine ⟨hworks, hkeyed, hanswers, hlooks, hacts, ?_, ?_, ?_⟩
  · decide +kernel
  · decide +kernel
  · decide +kernel

end Operation

end ChunkDispatch
