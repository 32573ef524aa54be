import ChunkDispatch.Proofs.Labels
import ChunkDispatch.Proofs.OneMap
import ChunkDispatch.Proofs.Survey
import Mathlib.Algebra.BigOperators.Group.List.Lemmas
import Mathlib.Algebra.GroupWithZero.Nat
import Mathlib.Data.List.Dedup

/-!
# Counts of a table

The rows of a table are counted by sink and by status code.  The answer has one entry for each sink
and code with rows, in the order of the sinks and, for one sink, of the codes.  Where the table
lists the trackers of a grid, the codes are those of statuses, and so the entries are the numbers
of trackers by sink and status: the table counts what the tallies over the grid count
(`table_counts_trackers`).
-/

namespace ChunkDispatch

open Attempt

namespace Database

/-! ### Counting rows -/

/-- The number of rows of a sink with a status code. -/
def number (rows : List Row) (sink : Int32) (code : Int16) : Nat :=
  rows.countP (fun r => r.sink = sink ∧ r.status = code)

/-- The answer to the statement which counts the rows. -/
def countRows (t : Table) : List (Int32 × Int16 × Nat) :=
  (counts t).toList.flatMap (fun (sink, codes) =>
    codes.toList.map (fun (code, n) => (sink, code, n)))

/-- A sink and a code are counted if there are rows which have them. -/
theorem find?_counts (t : Table) (sink : Int32) (code : Int16) :
  (((counts t).find? sink).getD ∅).find? code
    = if number t.values sink code = 0 then none else some (number t.values sink code)
  := by
  rw [counts]
  induction t.values using List.reverseRecOn with
  | nil => rfl
  | append_singleton rows r ih =>
    have hnumber : number (rows ++ [r]) sink code
        = number rows sink code + if r.sink = sink ∧ r.status = code then 1 else 0 := by
      rw [number, List.countP_append, List.countP_singleton]
      simp [number]
    rw [List.foldl_append, List.foldl_cons, List.foldl_nil, SortedMap.find?_alter, hnumber]
    by_cases hsink : sink = r.sink
    · subst hsink
      rw [if_pos rfl, Option.getD_some, SortedMap.find?_alter]
      by_cases hcode : code = r.status
      · subst hcode
        rw [ih]
        cases number rows r.sink r.status <;> simp
      · simp [hcode, Ne.symm hcode, ih]
    · simp [hsink, Ne.symm hsink, ih]

theorem mem_countRows {t : Table} {sink : Int32} {code : Int16} {n : Nat} :
  (sink, code, n) ∈ countRows t ↔ 0 < n ∧ n = number t.values sink code
  := by
  have hlookup : (sink, code, n) ∈ countRows t
      ↔ (((counts t).find? sink).getD ∅).find? code = some n := by
    have hmem : (sink, code, n) ∈ countRows t
        ↔ ∃ codes, (sink, codes) ∈ (counts t).toList ∧ (code, n) ∈ codes.toList := by
      simp [countRows]
    simp only [hmem, ← SortedMap.find?_eq_some_iff]
    cases (counts t).find? sink <;> simp
  rw [hlookup, find?_counts]
  split
  · rename_i hzero
    rw [hzero]
    constructor
    · intro h
      cases h
    · rintro ⟨hpos, rfl⟩
      cases hpos
  · rename_i hpos
    rw [Option.some.injEq, eq_comm]
    constructor
    · rintro rfl
      exact ⟨Nat.pos_of_ne_zero hpos, rfl⟩
    · exact And.right

theorem pairwise_countRows (t : Table) :
  (countRows t).Pairwise (fun e e' => e.1 < e'.1 ∨ e.1 = e'.1 ∧ e.2.1 < e'.2.1)
  := by
  apply List.pairwise_flatMap.mpr
  constructor
  · rintro ⟨sink, codes⟩ -
    apply List.pairwise_map.mpr
    apply codes.ascending.imp
    exact fun hlt => Or.inr ⟨rfl, hlt⟩
  · apply (counts t).ascending.imp
    rintro ⟨sink, codes⟩ ⟨sink', codes'⟩ hlt _ he _ he'
    obtain ⟨_, -, rfl⟩ := List.mem_map.mp he
    obtain ⟨_, -, rfl⟩ := List.mem_map.mp he'
    exact Or.inl hlt

/-! ### The statement -/

/-- An entry with the code of its status. -/
def coded (e : Int32 × Status × Nat) : Int32 × Int16 × Nat :=
  (e.1, e.2.1.code, e.2.2)

theorem mem_map_coded {found : List (Int32 × Status × Nat)} {sink : Int32} {status : Status}
    {n : Nat} :
  (sink, status, n) ∈ found ↔ (sink, status.code, n) ∈ found.map coded
  := by
  have hinjective : Function.Injective coded := by
    rintro ⟨sink, status, n⟩ ⟨sink', status', n'⟩ heq
    simp only [coded, Prod.mk.injEq] at heq
    obtain ⟨rfl, hcode, rfl⟩ := heq
    have hstatus := congrArg Status.ofCode? hcode
    rw [Status.ofCode?_code, Status.ofCode?_code] at hstatus
    rw [Option.some.inj hstatus]
  exact (List.mem_map_of_injective hinjective).symm

/-- The statement fails only if it is refused. -/
theorem query_refused {α : Type} {db : Database} {table : Table} (s : Statement) (f : Table → α)
    (htable : db.table = some table) :
  (query s f).Ends db (fun a _ => a = f table)
    (fun e _ => e = .database ∧ db.refusals.next = true)
  := by
  have hrequest : request.Ends db (fun _ db' => db'.table = some table)
      (fun e _ => e = .database ∧ db.refusals.next = true) := by
    rw [request, ends_bind, ends_get, ends_bind, ends_set]
    split
    · exact ⟨rfl, ‹_›⟩
    · exact htable
  rw [query, onTable, ends_bind, ends_bind]
  apply hrequest.mono
  · intro _ db' hdb'
    rw [ends_bind, ends_get, hdb']
    exact rfl
  · exact fun _ _ => id

/-- Codes which stand for statuses are all read. -/
theorem mapM_readStatus_yields {entries : List (Int32 × Int16 × Nat)}
    (h : ∀ e ∈ entries, ∃ status : Status, status.code = e.2.1) (db : Database) :
  (entries.mapM ((fun (sink, code, n) => do
      let status ← Attempt.ofExcept (Row.readStatus code)
      return (sink, status, n))
      : Int32 × Int16 × Nat → Attempt Database (Int32 × Status × Nat))).Yields db
    (fun found _ => found.map coded = entries)
  := by
  induction entries with
  | nil => rfl
  | cons e rest ih =>
    obtain ⟨⟨status, hcode⟩, hrest⟩ := List.forall_mem_cons.mp h
    obtain ⟨sink, code, n⟩ := e
    obtain rfl : status.code = code := hcode
    simp only [List.mapM_cons, Row.readStatus_code, Yields, ends_bind]
    apply (ends_pure status).mpr
    rw [ends_pure]
    apply (ih hrest).mono
    intro found _ hfound
    rw [ends_pure, List.map_cons, hfound]
    rfl

/-- The table is counted, unless the statement is refused. -/
theorem countBySinkAndStatus_ends {db : Database} {table : Table} (htable : db.table = some table)
    (hcodes : ∀ r ∈ table.values, ∃ status : Status, status.code = r.status) :
  countBySinkAndStatus.Ends db (fun found _ => found.map coded = countRows table)
    (fun e _ => e = .database ∧ db.refusals.next = true)
  := by
  rw [countBySinkAndStatus, ends_bind]
  apply (query_refused _ _ htable).mono
  · rintro _ db' rfl
    apply Yields.ends (mapM_readStatus_yields _ db') (fun _ _ => id)
    rintro ⟨sink, code, n⟩ he
    obtain ⟨hpos, rfl⟩ := mem_countRows.mp he
    obtain ⟨r, hr, hcounted⟩ := List.countP_pos_iff.mp hpos
    obtain ⟨status, hstatus⟩ := hcodes r hr
    exact ⟨status, hstatus.trans (of_decide_eq_true hcounted).2⟩
  · exact fun _ _ => id

end Database

/-! ### Counting trackers -/

namespace Tally

/-- The number of trackers by sink and status is that of the pairs they have. -/
theorem number_eq_count (ts : List Tracker) (sink : Int32) (status : Status) :
  number ts sink status = (ts.map (fun t => (t.sink, t.status))).count (sink, status)
  := by
  rw [number, List.count, List.countP_map]
  congr 1
  funext t
  rw [Bool.eq_iff_iff]
  simp

/-- Numbers given once for each sink and status which has any make up the whole. -/
theorem sum_number {found : List (Int32 × Status × Nat)} {ts : List Tracker}
    (hfound : ∀ sink status n, (sink, status, n) ∈ found ↔ 0 < n ∧ n = number ts sink status)
    (hnodup : (found.map (fun e => (e.1, e.2.1))).Nodup) :
  (found.map (fun e => e.2.2)).sum = ts.length
  := by
  let pairs := ts.map (fun t => (t.sink, t.status))
  have hperm : (found.map (fun e => (e.1, e.2.1))).Perm pairs.dedup := by
    apply (List.perm_ext_iff_of_nodup hnodup pairs.nodup_dedup).mpr
    rintro ⟨sink, status⟩
    rw [List.mem_dedup, ← List.count_pos_iff (l := pairs), ← number_eq_count, List.mem_map]
    constructor
    · rintro ⟨⟨sink', status', n⟩, he, heq⟩
      cases heq
      obtain ⟨hpos, rfl⟩ := (hfound _ _ _).mp he
      exact hpos
    · intro hpos
      exact ⟨(sink, status, _), (hfound _ _ _).mpr ⟨hpos, rfl⟩, rfl⟩
  have hvalues : found.map (fun e => e.2.2)
      = (found.map (fun e => (e.1, e.2.1))).map pairs.count := by
    rw [List.map_map]
    apply List.map_congr_left
    rintro ⟨sink, status, n⟩ he
    rw [((hfound _ _ _).mp he).2, number_eq_count]
    rfl
  have hsum : (pairs.dedup.map pairs.count).sum = pairs.length := by
    have h := List.sum_map_count_dedup_eq_length pairs
    rwa [lawful_beq_subsingleton instBEqOfDecidableEq instBEqProd] at h
  rw [hvalues, (hperm.map pairs.count).sum_eq, hsum, List.length_map]

end Tally

namespace Board

variable {p : Partitioner} {b : Board p Database} {table : Table}

/-- The labels of the rows are those of the trackers, in one order. -/
theorem ListedBy.labels (h : b.ListedBy table) :
  table.values.map Row.label = b.grid.trackers.map (fun t => (Row.ofTracker t).label)
  := by
  rw [Grid.trackers_eq h.filed, ← SortedMap.values_map, ← SortedMap.values_map]
  congr 1
  apply SortedMap.ext
  intro k
  rw [SortedMap.find?_map, SortedMap.find?_map, Grid.find?_oneMap h.filed, h.label]

/-- The rows of a sink with the code of a status are as many as the trackers in it. -/
theorem ListedBy.number_eq (h : b.ListedBy table) (sink : Int32) (status : Status) :
  Database.number table.values sink status.code = Tally.number b.grid.trackers sink status
  := by
  have hrows := (List.countP_map (p := fun ℓ : Key × Int32 × Int16 =>
    decide (ℓ.2.1 = sink ∧ ℓ.2.2 = status.code)) (f := Row.label) (l := table.values)).symm
  have hcode : ∀ s : Status, s.code = status.code ↔ s = status := by
    intro s
    constructor
    · intro heq
      have hstatus := congrArg Status.ofCode? heq
      rw [Status.ofCode?_code, Status.ofCode?_code] at hstatus
      exact Option.some.inj hstatus
    · exact congrArg Status.code
  rw [h.labels, List.countP_map] at hrows
  apply hrows.trans
  rw [Tally.number]
  congr 1
  funext t
  simp [Row.label, Row.ofTracker, hcode]

/-- Every row has the code of a status. -/
theorem ListedBy.exists_code (h : b.ListedBy table) {r : Row} (hr : r ∈ table.values) :
  ∃ status : Status, status.code = r.status
  := by
  have hlabel := List.mem_map_of_mem (f := Row.label) hr
  rw [h.labels] at hlabel
  obtain ⟨t, -, heq⟩ := List.mem_map.mp hlabel
  exact ⟨t.status, congrArg (fun ℓ => ℓ.2.2) heq⟩

end Board

namespace Scheduler

open SinkStatus

variable {p : Partitioner}

/-- What is asked of a scheduler whose trackers the table lists. -/
theorem countBySinkAndStatus_of_listed {s : Scheduler p Database} (hs : s.board.Listed) :
  Database.countBySinkAndStatus.Ends s.board.store
    (fun found _ =>
      (∀ sink status n, (sink, status, n) ∈ found
        ↔ 0 < n ∧ n = Tally.number s.grid.trackers sink status) ∧
      found.Pairwise (fun e e' => e.1 < e'.1 ∨ e.1 = e'.1 ∧ e.2.1.code < e'.2.1.code))
    (fun e _ => e = .database ∧ s.board.store.refusals.next = true)
  := by
  obtain ⟨table, h⟩ := hs
  apply (Database.countBySinkAndStatus_ends h.stored (fun r hr => h.exists_code hr)).mono
  · intro found _ hfound
    constructor
    · intro sink status n
      rw [Database.mem_map_coded, hfound, Database.mem_countRows, h.number_eq]
      rfl
    · have hpairwise := Database.pairwise_countRows table
      rw [← hfound] at hpairwise
      apply List.pairwise_map.mp hpairwise
  · exact fun _ _ => id

/--
A scheduler has loaded a table whose rows lie under their own keys, and has performed any
operations, whatever statements the database refused.  If it is asked to, the database then counts
the table, unless it refuses that: there is one entry for each sink and status with trackers, in
the order of the sinks and the status codes; each says how many trackers there are, as the tally of
a sink which is asked for does; and all of them together are as many as the grid has trackers.
-/
theorem table_counts_trackers {s₀ s₁ : Scheduler p Database} {now : Instant} {n : Nat}
    (hkeyed : ∀ k r, (s₀.board.store.table.getD ∅).find? k = some r → r.key = k)
    (hload : load now s₀ = .ok n s₁) (os : List (Instant × Operation)) :
  let s := (Operation.run s₁ os).2
  Database.countBySinkAndStatus.Ends s.board.store
    (fun found _ =>
      (∀ sink status n, (sink, status, n) ∈ found
        ↔ 0 < n ∧ n = s.grid.trackers.countP (fun t => t.sink = sink ∧ t.status = status)) ∧
      (∀ now sinks, ∀ e ∈ found, sinks.isEmpty ∨ e.1 ∈ sinks →
        countIn (s.statusCounts now sinks) e.1 e.2.1 = e.2.2) ∧
      found.Pairwise (fun e e' => e.1 < e'.1 ∨ e.1 = e'.1 ∧ e.2.1.code < e'.2.1.code) ∧
      (found.map (fun e => e.2.2)).sum = s.grid.size)
    (fun e _ => e = .database ∧ s.board.store.refusals.next = true)
  := by
  intro s
  have hlisted : s.board.Listed := by
    apply Operation.run_listed
    apply (ends_of_ok hload).mp (load_listed_of_keyed now hkeyed)
  clear_value s
  have hfiled : s.grid.WellFiled := by
    obtain ⟨table, h⟩ := hlisted
    apply h.filed
  apply (countBySinkAndStatus_of_listed hlisted).mono
  · rintro found _ ⟨hfound, hpairwise⟩
    refine ⟨hfound, ?_, hpairwise, ?_⟩
    · rintro now sinks ⟨sink, status, m⟩ he hasked
      rw [((hfound _ _ _).mp he).2, statusCounts, Grid.tally]
      rw [(Tally.addsUp_statusCounts now sinks).ofParts_perm (Grid.perm_parts hfiled)]
      apply Tally.countIn_part_statusCounts now hasked
    · have hnodup : (found.map (fun e => (e.1, e.2.1))).Nodup := by
        apply List.pairwise_map.mpr
        apply hpairwise.imp
        rintro ⟨sink, status, _⟩ ⟨sink', status', _⟩ hlt heq
        cases heq
        rcases hlt with hlt | ⟨-, hlt⟩
        · exact Std.lt_irrefl hlt
        · exact Std.lt_irrefl hlt
      rw [Tally.sum_number hfound hnodup, Grid.size_eq hfiled, Grid.trackers_eq hfiled,
        SortedMap.values, List.length_map, SortedMap.size]
  · exact fun _ _ => id

/-- Two rows, the first without its hashes, in a database which refuses the fourth request. -/
def twoRows : Database :=
  { Database.ofRows [
      { Row.ofTracker ((Chunk.sample 1 0 ["a"]).track default) with hashes := [] },
      .ofTracker ((Chunk.sample 1 1 ["b"]).track default)] with
    refusals := ⟨fun i => i = 3, 0⟩ }

/-- Chunk 0 is not completed, as its deletion is refused; the others come to different ends. -/
def afterwards : List (Instant × Operation) := [
  (default, .register (.sample 1 2 ["b"]) none),
  (default, .complete ⟨1, 0⟩),
  (default, .register (.to 2 (.sample 2 0 ["a"])) none),
  (default, .setStatus ⟨1, 1⟩ .completed),
  (default, .load)]

/-- Four trackers are counted, one by one. -/
theorem table_counts_trackers_of_two_rows :
  (∀ k r, (twoRows.table.getD ∅).find? k = some r → r.key = k) ∧
    ∃ n s₁, load default (start .standard true twoRows) = .ok n s₁ ∧
      let s := (Operation.run s₁ afterwards).2
      Database.countBySinkAndStatus.Yields s.board.store (fun found _ =>
        found = [(1, .readyForProcessing, 1), (1, .blocked, 1), (1, .completed, 1),
          (2, .queuedForProcessing, 1)] ∧
        (found.map (fun e => e.2.2)).sum = s.grid.size)
  := by
  have hkeyed : ∀ k r, (twoRows.table.getD ∅).find? k = some r → r.key = k := by
    intro k r hr
    have hrow : (k, r) ∈ (twoRows.table.getD ∅).toList := SortedMap.find?_eq_some_iff.mp hr
    have hall : ∀ e ∈ (twoRows.table.getD ∅).toList, e.2.key = e.1 := by decide +kernel
    exact hall _ hrow
  obtain ⟨n, s₁, h⟩ : ∃ n s₁, load default (start .standard true twoRows) = .ok n s₁ := ⟨_, _, rfl⟩
  have hafter : (load default).stateAfter (start .standard true twoRows) = s₁ := by
    rw [stateAfter, h]
  have hfound : Database.countBySinkAndStatus.outcome
      (Operation.run ((load default).stateAfter (start .standard true twoRows))
        afterwards).2.board.store
      = .ok [(1, .readyForProcessing, 1), (1, .blocked, 1), (1, .completed, 1),
          (2, .queuedForProcessing, 1)] := by decide +kernel
  rw [hafter] at hfound
  refine ⟨hkeyed, n, s₁, h, ?_⟩
  -- What the operations are does not matter any more; this keeps them from being performed again.
  generalize afterwards = os at hfound ⊢
  apply ((table_counts_trackers hkeyed h os).and (yields_of_outcome hfound)).mono
  · rintro found _ ⟨⟨-, -, -, hsum⟩, hfound⟩
    exact ⟨hfound, hsum⟩
  · exact fun _ _ => And.right

end Scheduler

end ChunkDispatch
