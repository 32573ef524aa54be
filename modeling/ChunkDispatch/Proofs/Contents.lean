import ChunkDispatch.Proofs.Database

/-!
# Trackers in a table

A table which holds the rows of some trackers holds, after a write of the store, the rows of the
trackers which the write leaves.  What is read of it are the trackers as they are read back from
their rows; several trackers which are read together are *gathered* job by job.  A write fails only
if it is refused, and a load besides if a row cannot be read, which no row of a tracker is.
-/

namespace ChunkDispatch.Database

open Attempt

variable {db : Database} {m : Entries} {table : Table}

/-! ### Edits -/

theorem upsert_ofTracker (t : Tracker) (m : Entries) :
  (Edit.upsert (.ofTracker t)).apply (m.map Row.ofTracker) = (m.insert t.key t).map Row.ofTracker
  := (SortedMap.map_insert _ _ _ _).symm

theorem foldl_upsert_ofTracker (ts : List Tracker) (m : Entries) :
  (ts.map (fun t => Edit.upsert (.ofTracker t))).foldl (fun t e => e.apply t) (m.map Row.ofTracker)
    = (ts.foldl (fun m t => m.insert t.key t) m).map Row.ofTracker
  := by
  induction ts generalizing m with
  | nil => rfl
  | cons t rest ih => rw [List.map_cons, List.foldl_cons, upsert_ofTracker, ih, List.foldl_cons]

theorem delete_ofTracker (k : Key) (m : Entries) :
  (Edit.delete k).apply (m.map Row.ofTracker) = (m.erase k).map Row.ofTracker
  := by
  apply SortedMap.ext
  intro k'
  rw [Edit.apply, SortedMap.find?_erase, SortedMap.find?_map, SortedMap.find?_map,
    SortedMap.find?_erase]
  split <;> rfl

theorem foldl_deleteMany_ofTracker (ks : List Key) (m : Entries) :
  ((byJob ks).toList.map (fun e => Edit.deleteMany e.1 e.2)).foldl (fun t e => e.apply t)
      (m.map Row.ofTracker)
    = (ks.foldl (fun m k => m.erase k) m).map Row.ofTracker
  := by
  apply SortedMap.ext
  intro k
  simp only [find?_foldl_deleteMany, exists_mem_byJob, SortedMap.find?_map,
    SortedMap.find?_eraseAll]
  split <;> rfl

/-! ### Writes -/

section Writes

variable (h : db.table = some (m.map Row.ofTracker))

include h

theorem put_ends (t : Tracker) :
  (Store.put t).Ends db (fun _ => db.Answers ((m.insert t.key t).map Row.ofTracker))
    (fun _ => db.Refuses (m.map Row.ofTracker))
  := by
  rw [← upsert_ofTracker]
  apply edit_note_ends _ _ h

theorem putAll_ends (ts : List Tracker) :
  (Store.putAll ts).Ends db
    (fun _ => db.Answers ((ts.foldl (fun m t => m.insert t.key t) m).map Row.ofTracker))
    (fun _ => db.Refuses (m.map Row.ofTracker))
  := by
  rw [← foldl_upsert_ofTracker]
  apply commit_ends _ h

theorem delete_ends (k : Key) :
  (Store.delete k).Ends db (fun _ => db.Answers ((m.erase k).map Row.ofTracker))
    (fun _ => db.Refuses (m.map Row.ofTracker))
  := by
  rw [← delete_ofTracker]
  apply edit_note_ends _ _ h

theorem deleteAll_ends (ks : List Key) :
  (Store.deleteAll ks).Ends db
    (fun _ => db.Answers ((ks.foldl (fun m k => m.erase k) m).map Row.ofTracker))
    (fun _ => db.Refuses (m.map Row.ofTracker))
  := by
  rw [← foldl_deleteMany_ofTracker]
  apply commit_ends _ h

end Writes

/-! ### Several rows at once -/

/-- Rows are read one after another, all of them or none. -/
theorem mapM_tracker_ends (rows : List Row) (db : Database) :
  (rows.mapM (fun row => Attempt.ofExcept row.tracker)).Ends db
    (fun ts db' => rows.map Row.tracker = ts.map Except.ok ∧ db' = db)
    (fun _ db' => db' = db ∧ ∃ row ∈ rows, ∀ t, row.tracker ≠ .ok t)
  := by
  induction rows with
  | nil => exact ⟨rfl, rfl⟩
  | cons row rest ih =>
    rw [List.mapM_cons, ends_bind]
    cases hrow : row.tracker with
    | error e => exact ⟨rfl, row, List.mem_cons_self, fun t heq => nomatch hrow.symm.trans heq⟩
    | ok t =>
      apply (ends_pure t).mpr
      rw [ends_bind]
      apply ih.mono
      · rintro ts _ ⟨hts, rfl⟩
        refine ⟨?_, rfl⟩
        rw [List.map_cons, List.map_cons, hrow, hts]
      · rintro _ _ ⟨rfl, row', hrow', hnot⟩
        exact ⟨rfl, row', List.mem_cons_of_mem row hrow', hnot⟩

/-- Every row can be read. -/
def Readable (t : Table) : Prop :=
  ∀ row ∈ t.values, ∃ u, row.tracker = .ok u

theorem readable_ofTracker (m : Entries) :
  Readable (m.map Row.ofTracker)
  := by
  intro row hrow
  rw [SortedMap.values_map] at hrow
  obtain ⟨t, -, rfl⟩ := List.mem_map.mp hrow
  exact ⟨t.readBack, Row.tracker_ofTracker t⟩

/-! ### Loads -/

section Loads

variable (h : db.table = some table)

include h

/-- The row of a key is read. -/
theorem load_ends (k : Key) :
  (Store.load k).Ends db
    (fun t db' => (table.find? k).map Row.tracker = t.map Except.ok ∧ db.Answers table db')
    (fun _ db' => db'.table = some table ∧ (Readable table → db.refusals.Refused db'.refusals))
  := by
  apply (ends_bind _ _).mpr
  apply (query_ends _ _ h).mono
  · rintro _ db' ⟨rfl, hanswers⟩
    cases hk : table.find? k with
    | none => exact ⟨rfl, hanswers⟩
    | some row =>
      cases hrow : row.tracker with
      | ok t =>
        simp only [hrow]
        exact ⟨congrArg some hrow, hanswers⟩
      | error e =>
        simp only [hrow]
        use hanswers.table
        intro hreadable
        obtain ⟨t, ht⟩ := hreadable row (SortedMap.mem_values_iff.mpr ⟨k, hk⟩)
        cases hrow.symm.trans ht
  · exact fun _ _ hrefuses => ⟨hrefuses.table, fun _ => hrefuses.refused⟩

/-- The rows of some keys are read job by job. -/
theorem loadAll_ends (ks : List Key) :
  (Store.loadAll ks).Ends db
    (fun ts db' => (gathered ks table).map Row.tracker = ts.map Except.ok ∧ db.Answers table db')
    (fun _ db' => db'.table = some table ∧ (Readable table → db.refusals.Refused db'.refusals))
  := by
  have hgroups : ∀ (groups : List (Int32 × List Int32)) {db : Database}, db.table = some table →
      (groups.mapM ((fun e => do
          let rows ← query (.selectMany e.1 e.2) (rowsOf e.1 e.2)
          rows.mapM (fun row => Attempt.ofExcept row.tracker))
          : Int32 × List Int32 → Attempt Database (List Tracker))).Ends db
        (fun parts db' => (groups.flatMap (fun e => rowsOf e.1 e.2 table)).map Row.tracker
          = parts.flatten.map Except.ok ∧ db.Answers table db')
        (fun _ db' => db'.table = some table ∧
          (Readable table → db.refusals.Refused db'.refusals)) := by
    intro groups
    induction groups with
    | nil => exact fun hdb => ⟨rfl, answers_self hdb⟩
    | cons e rest ih =>
      intro db hdb
      rw [List.mapM_cons, ends_bind, ends_bind]
      apply (query_ends _ _ hdb).mono
      · rintro _ db₁ ⟨rfl, hanswers⟩
        apply (mapM_tracker_ends _ db₁).mono
        · rintro ts _ ⟨hts, rfl⟩
          rw [ends_bind]
          apply (ih hanswers.table).mono
          · rintro parts db' ⟨hparts, hanswers'⟩
            refine ⟨?_, hanswers.trans hanswers'⟩
            rw [List.flatMap_cons, List.map_append, hts, hparts, List.flatten_cons,
              List.map_append]
          · rintro _ db' ⟨htable, hrefused⟩
            exact ⟨htable, fun hreadable => hanswers.answered.refused (hrefused hreadable)⟩
        · rintro _ _ ⟨rfl, row, hrow, hnot⟩
          use hanswers.table
          intro hreadable
          obtain ⟨k, hk⟩ := SortedMap.mem_values_iff.mp hrow
          rw [SortedMap.find?_filter, Option.filter_eq_some_iff] at hk
          obtain ⟨t, ht⟩ := hreadable row (SortedMap.mem_values_iff.mpr ⟨k, hk.1⟩)
          exact absurd ht (hnot t)
      · exact fun _ _ hrefuses => ⟨hrefuses.table, fun _ => hrefuses.refused⟩
  apply (ends_bind _ _).mpr
  apply (hgroups _ h).mono
  · exact fun _ _ => id
  · exact fun _ _ => id

theorem loadKeys_ends :
  Store.loadKeys.Ends db (fun ks db' => ks = table.keys ∧ db.Answers table db')
    (fun _ => db.Refuses table)
  := query_ends _ _ h

end Loads

/-- What is loaded from the row of a tracker is the tracker as it is read back. -/
theorem load_readBack_ends (h : db.table = some (m.map Row.ofTracker)) (k : Key) :
  (Store.load k).Ends db
    (fun t db' => t = (m.find? k).map Tracker.readBack ∧ db.Answers (m.map Row.ofTracker) db')
    (fun _ => db.Refuses (m.map Row.ofTracker))
  := by
  apply (load_ends h k).mono
  · rintro t db' ⟨ht, hanswers⟩
    refine ⟨?_, hanswers⟩
    have hread : (m.find? k).map (Except.ok ∘ Tracker.readBack)
        = t.map (Except.ok (ε := Error)) := by
      rw [← ht, SortedMap.find?_map, Option.map_map]
      congr 1
      funext t
      exact (Row.tracker_ofTracker t).symm
    rw [← Option.map_map] at hread
    exact (Option.map_injective (fun _ _ => Except.ok.inj) hread).symm
  · rintro _ db' ⟨htable, hrefused⟩
    exact ⟨htable, hrefused (readable_ofTracker m)⟩

theorem loadAll_readBack_ends (h : db.table = some (m.map Row.ofTracker)) (ks : List Key) :
  (Store.loadAll ks).Ends db
    (fun ts db' => ts = (gathered ks m).map Tracker.readBack ∧
      db.Answers (m.map Row.ofTracker) db')
    (fun _ => db.Refuses (m.map Row.ofTracker))
  := by
  apply (loadAll_ends h ks).mono
  · rintro ts db' ⟨hts, hanswers⟩
    refine ⟨?_, hanswers⟩
    have hread : (gathered ks m).map (Except.ok ∘ Tracker.readBack)
        = ts.map (Except.ok (ε := Error)) := by
      rw [← hts, gathered_map, List.map_map]
      congr 1
      funext t
      exact (Row.tracker_ofTracker t).symm
    rw [← List.map_map] at hread
    exact ((List.map_inj_right (fun _ _ => Except.ok.inj)).mp hread).symm
  · rintro _ db' ⟨htable, hrefused⟩
    exact ⟨htable, hrefused (readable_ofTracker m)⟩

end ChunkDispatch.Database
