import ChunkDispatch.Proofs.OneMap
import ChunkDispatch.Proofs.Shadow

/-!
# Labels of rows

The *label* of a row is its key, its sink and its status code.  Once a scheduler has loaded the
table of a database, the table *lists* its trackers: under each key there is a row with the label
of the tracker of this key, or neither.  This stays so along every run, whichever statements the
database refuses, since it is so of the trackers in the shadow of the database, and these are those
of the grid.  The other columns may differ: hashes are made anew when a row is loaded.
-/

namespace ChunkDispatch

open Attempt

namespace Row

/-- What a row is found and counted by. -/
def label (r : Row) : Key × Int32 × Int16 :=
  (r.key, r.sink, r.status)

/-- A code stands for the status which has it. -/
theorem code_of_ofCode? {n : Int16} {s : Status} (h : Status.ofCode? n = some s) :
  s.code = n
  := by
  rw [Status.ofCode?] at h
  simpa using List.find?_some h

theorem code_of_readStatus {n : Int16} {s : Status} (h : readStatus n = .ok s) :
  s.code = n
  := by
  rw [readStatus] at h
  split at h
  · cases h
    apply code_of_ofCode? ‹_›
  · cases h

/-- The tracker which is read from a row has its label. -/
theorem label_of_tracker {r : Row} {t : Tracker} (h : r.tracker = .ok t) :
  r.label = (ofTracker t).label
  := by
  simp only [tracker, except_bind_ok_iff] at h
  obtain ⟨status, hstatus, waitingOn, -, keys, -, ⟨⟩⟩ := h
  rw [label, ← code_of_readStatus hstatus]
  rfl

end Row

namespace Database

/-! ### Tables which list trackers -/

/-- Under each key there is a row with the label of the tracker of this key, or neither. -/
def Lists (table : Table) (m : Entries) : Prop :=
  ∀ k, (table.find? k).map Row.label = (m.find? k).map (fun t => (Row.ofTracker t).label)

section Lists

variable {table : Table} {m : Entries}

theorem Lists.upsert (h : Lists table m) (t : Tracker) :
  Lists ((Edit.upsert (.ofTracker t)).apply table) (m.insert t.key t)
  := by
  intro k
  have hkey : (Row.ofTracker t).key = t.key := rfl
  rw [Edit.apply, SortedMap.find?_insert, SortedMap.find?_insert, hkey]
  split
  · rfl
  · apply h k

theorem Lists.foldl_upsert (h : Lists table m) (ts : List Tracker) :
  Lists ((ts.map (fun t => Edit.upsert (.ofTracker t))).foldl (fun t e => e.apply t) table)
    (ts.foldl (fun m t => m.insert t.key t) m)
  := by
  induction ts generalizing table m with
  | nil => exact h
  | cons t rest ih => apply ih (h.upsert t)

theorem Lists.delete (h : Lists table m) (k : Key) :
  Lists ((Edit.delete k).apply table) (m.erase k)
  := by
  intro k'
  rw [Edit.apply, SortedMap.find?_erase, SortedMap.find?_erase]
  split
  · rfl
  · apply h k'

theorem Lists.foldl_deleteMany (h : Lists table m) (ks : List Key) :
  Lists (((byJob ks).toList.map (fun e => Edit.deleteMany e.1 e.2)).foldl (fun t e => e.apply t)
    table) (ks.foldl (fun m k => m.erase k) m)
  := by
  intro k
  simp only [find?_foldl_deleteMany, exists_mem_byJob, SortedMap.find?_eraseAll]
  split
  · rfl
  · apply h k

end Lists

/-- The database has a table, which lists the trackers. -/
def HasListed (db : Database) (m : Entries) : Prop :=
  ∃ table, db.table = some table ∧ Lists table m

/-- Trackers which are listed go on being listed, whatever is written. -/
theorem follows_hasListed :
  Store.Follows HasListed
  where
  put := by
    rintro db m ⟨table, htable, h⟩ t
    apply (edit_note_ends _ _ htable).mono
    · exact fun _ _ hanswers => ⟨_, hanswers.table, h.upsert t⟩
    · exact fun _ _ hrefuses => ⟨_, hrefuses.table, h⟩
  putAll := by
    rintro db m ⟨table, htable, h⟩ ts
    apply (commit_ends _ htable).mono
    · exact fun _ _ hanswers => ⟨_, hanswers.table, h.foldl_upsert ts⟩
    · exact fun _ _ hrefuses => ⟨_, hrefuses.table, h⟩
  delete := by
    rintro db m ⟨table, htable, h⟩ k
    apply (edit_note_ends _ _ htable).mono
    · exact fun _ _ hanswers => ⟨_, hanswers.table, h.delete k⟩
    · exact fun _ _ hrefuses => ⟨_, hrefuses.table, h⟩
  deleteAll := by
    rintro db m ⟨table, htable, h⟩ ks
    apply (commit_ends _ htable).mono
    · exact fun _ _ hanswers => ⟨_, hanswers.table, h.foldl_deleteMany ks⟩
    · exact fun _ _ hrefuses => ⟨_, hrefuses.table, h⟩

/-- Without a table nothing can be asked of it. -/
theorem query_ends_of_none {α : Type} (s : Statement) (f : Table → α) {db : Database}
    (h : db.table = none) :
  (query s f).Ends db (fun _ _ => False) (fun _ _ => True)
  := by
  rw [query, onTable, request, ends_bind, ends_bind, ends_bind, ends_get, ends_bind, ends_set]
  split
  · trivial
  · rw [ends_pure, ends_bind, ends_get]
    simp only [h]
    exact trivial

end Database

/-! ### Tables which list a grid -/

variable {p : Partitioner}

/-- The grid is well filed, and the table has the label of each tracker, and no other, under its
key. -/
structure Board.ListedBy (b : Board p Database) (table : Table) : Prop where
  stored : b.store.table = some table
  filed : b.grid.WellFiled
  label : ∀ k, (table.find? k).map Row.label
    = (b.grid.find? k).map (fun t => (Row.ofTracker t).label)

/-- Some table lists the grid. -/
def Board.Listed (b : Board p Database) : Prop :=
  ∃ table, b.ListedBy table

/-- What is read of a table whose rows lie under their own keys has the labels of the rows. -/
theorem Database.label_ofTrackers {table : Table} {ts : List Tracker}
    (hkeyed : ∀ k r, table.find? k = some r → r.key = k)
    (hts : (gathered table.keys table).map Row.tracker = ts.map Except.ok) (k : Key) :
  (table.find? k).map Row.label
    = ((Grid.ofTrackers p ts).find? k).map (fun t => (Row.ofTracker t).label)
  := by
  have hrow : ∀ t ∈ ts, ∃ r, table.find? t.key = some r ∧ r.label = (Row.ofTracker t).label := by
    intro t ht
    have hok := List.mem_map_of_mem (f := Except.ok (ε := Error)) ht
    rw [← hts] at hok
    obtain ⟨r, hr, hread⟩ := List.mem_map.mp hok
    obtain ⟨k, -, hfind⟩ := mem_gathered.mp hr
    have hlabel := Row.label_of_tracker hread
    obtain rfl : r.key = k := hkeyed k r hfind
    have hkey : r.key = t.key := congrArg Prod.fst hlabel
    rw [hkey] at hfind
    exact ⟨r, hfind, hlabel⟩
  have hread : ∀ r, table.find? k = some r → ∃ t ∈ ts, t.key = k := by
    intro r hr
    have hgathered := mem_gathered.mpr ⟨k, SortedMap.mem_keys_iff.mpr ⟨r, hr⟩, hr⟩
    have hok := List.mem_map_of_mem (f := Row.tracker) hgathered
    rw [hts] at hok
    obtain ⟨t, ht, heq⟩ := List.mem_map.mp hok
    have hkey : r.key = t.key := congrArg Prod.fst (Row.label_of_tracker heq.symm)
    exact ⟨t, ht, hkey.symm.trans (hkeyed k r hr)⟩
  rw [Grid.ofTrackers, Grid.find?_foldl_insert, Grid.find?_empty, Option.or_none]
  cases hlast : ts.reverse.find? (fun t => t.key = k) with
  | some t =>
    obtain rfl : t.key = k := by simpa using List.find?_some hlast
    obtain ⟨r, hr, hlabel⟩ := hrow t (List.mem_reverse.mp (List.mem_of_find?_eq_some hlast))
    rw [hr, Option.map_some, hlabel]
    rfl
  | none =>
    cases hr : table.find? k with
    | none => rfl
    | some r =>
      obtain ⟨t, ht, hkey⟩ := hread r hr
      have hnot := List.find?_eq_none.mp hlast t (List.mem_reverse.mpr ht)
      exact absurd (decide_eq_true hkey) hnot

namespace Scheduler

/-- What was loaded from a table whose rows lie under their own keys is listed by it; if loading
fails, the grid and the table are what they were. -/
theorem load_listed {s : Scheduler p Database} {table : Table} (now : Instant)
    (htable : s.board.store.table = some table)
    (hkeyed : ∀ k r, table.find? k = some r → r.key = k) :
  (load now).Ends s (fun _ s' => s'.board.Listed)
    (fun _ s' => s'.board.grid = s.board.grid ∧ s'.board.store.table = some table)
  := by
  rw [load, ends_bind, ends_onBoard, Board.loadAll, ends_bind, Board.onStore, ends_within]
  apply (Database.loadKeys_ends htable).mono
  · rintro _ db ⟨rfl, hdb⟩
    rw [ends_bind, Board.onStore, ends_within]
    apply (Database.loadAll_ends hdb.table table.keys).mono
    · rintro ts db' ⟨hts, hdb'⟩
      rw [ends_bind, ends_modify, ends_pure, ends_bind, ends_modify, ends_pure]
      exact ⟨table, hdb'.table, Grid.wellFiled_ofTrackers ts, Database.label_ofTrackers hkeyed hts⟩
    · exact fun _ _ h => ⟨rfl, h.1⟩
  · exact fun _ _ h => ⟨rfl, h.table⟩

/-- Loading succeeds only where there is a table. -/
theorem load_listed_of_keyed {s : Scheduler p Database} (now : Instant)
    (hkeyed : ∀ k r, (s.board.store.table.getD ∅).find? k = some r → r.key = k) :
  (load now).Ends s (fun _ s' => s'.board.Listed) (fun _ _ => True)
  := by
  cases htable : s.board.store.table with
  | some table =>
    rw [htable] at hkeyed
    apply (load_listed now htable hkeyed).mono
    · exact fun _ _ => id
    · exact fun _ _ _ => trivial
  | none =>
    rw [load, ends_bind, ends_onBoard, Board.loadAll, ends_bind, Board.onStore, ends_within]
    apply (Database.query_ends_of_none _ _ htable).mono
    · exact fun _ _ => False.elim
    · exact fun _ _ _ => trivial

end Scheduler

/-! ### Runs -/

/-- Operations other than loading leave the trackers listed, however they end. -/
theorem Operation.perform_listed_of_ne_load {s : Scheduler p Database} (hs : s.board.Listed)
    (now : Instant) {o : Operation} (ho : o ≠ load) :
  ((o.perform now).stateAfter s).board.Listed
  := by
  obtain ⟨table, htable, hfiled, hlabel⟩ := hs
  have hmap : ∀ k, s.board.grid.oneMap.find? k = s.board.grid.find? k :=
    Grid.find?_oneMap hfiled
  have hlisted : Database.HasListed s.board.store s.board.grid.oneMap := by
    refine ⟨table, htable, ?_⟩
    intro k
    rw [hlabel, hmap]
  -- The shadow has the trackers of the grid, and what is written is written to both.
  have hcoherent : (s.shadowed s.board.grid.oneMap).board.Coherent := ⟨hfiled, hmap⟩
  have hafter : ((o.perform now).stateAfter (s.shadowed s.board.grid.oneMap)).board.Coherent := by
    apply Ends.stateAfter (P := fun s : Scheduler p (Shadowed Database) => s.board.Coherent)
    apply (perform_commitsOnly now ho _).mono
    · exact fun _ _ h => hcoherent.commits (h hfiled)
    · exact fun _ _ h => hcoherent.commits (h hfiled).1
  have hwrites := Database.follows_hasListed.writesAlike
  have hcorresponds := Scheduler.corresponds_over (p := p) hwrites now
  obtain ⟨-, hover⟩ := hcorresponds.perform (Scheduler.over_shadowed hfiled hlisted) o
    (fun heq => absurd heq ho)
  obtain ⟨-, table', htable', hlists⟩ := hover.board.store
  refine ⟨table', htable', ?_, ?_⟩
  · rw [hover.board.grid]
    apply hafter.filed
  · intro k
    rw [hlists, hover.board.grid, ← hafter.agree]
    rfl

/-- Every operation leaves the trackers listed, however it ends. -/
theorem Operation.perform_listed {s : Scheduler p Database} (hs : s.board.Listed) (now : Instant)
    (o : Operation) :
  ((o.perform now).stateAfter s).board.Listed
  := by
  by_cases ho : o = load
  · subst ho
    obtain ⟨table, htable, hfiled, hlabel⟩ := hs
    have hkeyed : ∀ k r, table.find? k = some r → r.key = k := by
      intro k r hr
      have h := hlabel k
      rw [hr, Option.map_some, eq_comm, Option.map_eq_some_iff] at h
      obtain ⟨t, ht, heq⟩ := h
      rw [← hfiled.key ht]
      exact (congrArg Prod.fst heq).symm
    rw [perform, stateAfter_bind_pure]
    apply Ends.stateAfter (P := fun s' : Scheduler p Database => s'.board.Listed)
    apply (Scheduler.load_listed now htable hkeyed).mono
    · exact fun _ _ => id
    · rintro _ s' ⟨hgrid, hdb⟩
      rw [← hgrid] at hfiled hlabel
      exact ⟨table, hdb, hfiled, hlabel⟩
  · apply perform_listed_of_ne_load hs now ho

theorem Operation.run_listed {s : Scheduler p Database} (hs : s.board.Listed)
    (os : List (Instant × Operation)) :
  (run s os).2.board.Listed
  := by
  induction os generalizing s with
  | nil => exact hs
  | cons o rest ih =>
    apply ih
    apply perform_listed hs

end ChunkDispatch
