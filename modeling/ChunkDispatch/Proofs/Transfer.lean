import ChunkDispatch.Proofs.Mirror
import ChunkDispatch.Proofs.Shadow
import ChunkDispatch.Proofs.Sharing

/-!
# Schedulers over a database

A database is not lawful, as it keeps rows in the place of trackers.  But whatever an operation
writes is storable, if what there was is: the instant of a change is kept to the microsecond, and
the hashes are those of the match keys.  So a scheduler over a database which mirrors some trackers
does what it does over that database with the trackers as its shadow, which is lawful.  It answers
alike whatever it is asked, loading included, and the database goes on mirroring the rows of the
shadow.  Hence what is shown of schedulers over lawful stores is true of schedulers over a
database.
-/

namespace ChunkDispatch

open Attempt

/-! ### Storable trackers -/

theorem Instant.wholeMicros_wholeMicros (t : Instant) :
  t.wholeMicros.wholeMicros = t.wholeMicros
  := by
  simp [wholeMicros]

theorem Board.storable_amend (now : Instant) {α : Type} {f : Tracker → α × Tracker} {t : Tracker}
    (hf : t.Evolves (f t).2) (ht : t.Storable) :
  (amend now f t).Storable
  := by
  use (evolves_amend now hf).hashed ht.hashes
  rw [amend, changed?]
  split
  · exact ht.lastModified
  · exact now.wholeMicros_wholeMicros.symm

theorem Scheduler.planNew_storable {p : Partitioner} {σ : Type} (s : Scheduler p σ) (now : Instant)
    (c : Chunk) (barrier : Option String) :
  (s.planNew now c barrier).1.Storable
  := by
  use planNew_hashed s now c barrier
  rw [planNew]
  simp only []
  split <;> exact now.wholeMicros_wholeMicros.symm

/-- Whatever an operation writes leaves trackers storable. -/
theorem Operation.passesOn_storable {p : Partitioner} {σ : Type} [Store σ] [LawfulStore σ]
    (now : Instant) {o : Operation} (hload : o ≠ load) :
  Scheduler.CommitsOnly (PassesOn Tracker.Storable) True
    (o.perform now : Attempt (Scheduler p σ) Answer)
  := by
  apply passesOn_of_amend now _ _ hload
  · exact Board.storable_amend now
  · exact fun s => Scheduler.planNew_storable s now

/-! ### Shadowed databases -/

/-- The table holds the rows of the trackers. -/
def Database.Holds (db : Database) (m : Entries) : Prop :=
  db.table = some (m.map Row.ofTracker)

/-- What the table holds follows what is written. -/
theorem Database.follows_holds :
  Store.Follows Holds
  where
  put h t := (put_ends h t).mono (fun _ _ => Answers.table) (fun _ _ => Refuses.table)
  putAll h ts := (putAll_ends h ts).mono (fun _ _ => Answers.table) (fun _ _ => Refuses.table)
  delete h k := (delete_ends h k).mono (fun _ _ => Answers.table) (fun _ _ => Refuses.table)
  deleteAll h ks := (deleteAll_ends h ks).mono (fun _ _ => Answers.table) (fun _ _ => Refuses.table)

namespace Shadowed

open Database

variable {db : Database} {s : Shadowed Database} (h : By Holds db s)

include h

/-- The keys of the table are those of the shadow. -/
theorem loadKeys_alike :
  Alike (By Holds) Store.loadKeys db Store.loadKeys s
  := by
  apply load_alike h.inner
  apply (loadKeys_ends h.rows).mono
  · rintro _ _ ⟨rfl, hanswers⟩
    exact ⟨SortedMap.keys_map _ _, hanswers.table⟩
  · exact fun _ _ => Refuses.table

/-- For ascending keys the trackers which are read of the table are those of the shadow. -/
theorem loadAll_alike (hmirrors : db.Mirrors ⟨s.rows⟩) {ks : List Key}
    (hks : ks.Pairwise (· < ·)) :
  Alike (By Holds) (Store.loadAll ks) db (Store.loadAll ks) s
  := by
  apply load_alike h.inner
  apply (loadAll_readBack_ends h.rows ks).mono
  · rintro _ _ ⟨rfl, hanswers⟩
    refine ⟨?_, hanswers.table⟩
    rw [hmirrors.gathered_readBack]
    apply (hmirrors.sameReply_loadAll ks).2.2.2 hks
  · exact fun _ _ => Refuses.table

end Shadowed

/-! ### Schedulers over a shadowed database -/

namespace Scheduler

variable {p : Partitioner}

/--
The schedulers differ in nothing but that the database of `s` is shadowed in `s'`.  The table holds
the rows of the shadow, the trackers are among these, and all of them are storable.
-/
structure ShadowedBy (s : Scheduler p Database) (s' : Scheduler p (Shadowed Database)) : Prop
    extends s.Over (Shadowed.By Database.Holds) s' where
  backed : s'.board.Backed
  storable : s'.board.All Tracker.Storable

namespace ShadowedBy

variable {s : Scheduler p Database} {s' : Scheduler p (Shadowed Database)} (h : s.ShadowedBy s')

include h

theorem mirrors :
  s.board.store.Mirrors ⟨s'.board.store.rows⟩
  := ⟨h.backed.keyed, h.storable.stored, h.board.store.rows⟩

theorem loadAll_alike :
  Alike (Over (Shadowed.By Database.Holds)) (onBoard Board.loadAll) s (onBoard Board.loadAll) s'
  := by
  have hkeys := Board.onStore_ends (LawfulStore.loadKeys s'.board.store)
  apply h.onBoard_alike
  apply (h.board.onStore_alike (Shadowed.loadKeys_alike h.board.store)).bind_of_ends hkeys
  rintro _ b _ hb ⟨⟨db, m⟩, ⟨rfl, hrows⟩, -, rfl⟩
  obtain rfl : m = s'.board.store.rows := hrows
  have hmirrors : b.store.Mirrors ⟨s'.board.store.rows⟩ :=
    ⟨h.backed.keyed, h.storable.stored, hb.store.rows⟩
  have htrackers := Shadowed.loadAll_alike hb.store hmirrors s'.board.store.rows.keySet.ascending
  apply (hb.onStore_alike htrackers).bind
  intro ts c c' hc
  apply (alike_modify _).bind_pure
  exact ⟨hc.store, rfl, hc.lastSeq, hc.log, hc.book, Grid.wellFiled_ofTrackers ts⟩

/-- Every operation is answered alike, and leaves the database shadowed. -/
theorem perform_alike (now : Instant) (o : Operation) :
  Alike ShadowedBy (o.perform now) s (o.perform now) s'
  := by
  have hcorresponds := corresponds_over (p := p) Database.follows_holds.writesAlike now
  obtain ⟨hanswer, hover⟩ := hcorresponds.perform h.toOver o (fun _ => h.loadAll_alike)
  refine ⟨hanswer, hover, ?_, ?_⟩
  · apply (Operation.perform_backed h.backed now o).stateAfter
  · apply (Operation.perform_all h.storable (Operation.passesOn_storable now)).stateAfter

end ShadowedBy

/-- Nothing is tracked at the start, and the rows are those of the store in memory. -/
theorem shadowedBy_start {settings : Settings} {listening : Bool} {db : Database} {m : Memory}
    (hdb : db.Mirrors m) :
  (start settings listening db).ShadowedBy (start settings listening ⟨db, m.rows⟩)
  := by
  refine ⟨⟨⟨⟨rfl, hdb.table⟩, rfl, rfl, rfl, rfl, Grid.wellFiled_empty⟩, rfl, rfl⟩, ?_, ?_⟩
  · exact Board.backed_start hdb.filed
  · use Grid.wellFiled_empty
    · intro k t ht
      cases (Grid.find?_empty k).symm.trans ht
    · exact hdb.storable

end Scheduler

/-! ### Runs -/

section Runs

variable {settings : Settings} {listening : Bool} {db : Database} {m : Memory}

/--
Over a database which mirrors a store in memory, operations are answered as they are over the
lawful store which this database is with the rows of the other as its shadow, whatever it refuses.
At the end the trackers, the counts, the events and what was sent are the same, and the database
mirrors the rows which the shadow then has.
-/
theorem Operation.run_shadowed (hdb : db.Mirrors m) (os : List (Instant × Operation)) :
  let shadowed : Shadowed Database := ⟨db, m.rows⟩
  let (answers, s) := run (Scheduler.start settings listening db) os
  let (answers', s') := run (Scheduler.start settings listening shadowed) os
  answers = answers' ∧ s.grid = s'.grid ∧ s.book = s'.book ∧ s.board.log = s'.board.log ∧
    s.ready = s'.ready ∧ s.board.store.Mirrors ⟨LawfulStore.rows s'.board.store⟩
  := by
  have hstart : (Scheduler.start settings listening db).ShadowedBy
      (Scheduler.start settings listening ⟨db, m.rows⟩) := Scheduler.shadowedBy_start hdb
  obtain ⟨hanswers, h⟩ := run_alike (fun h => h.perform_alike) hstart os
  exact ⟨hanswers, h.board.grid, h.board.book, h.board.log, h.ready, h.mirrors⟩

variable {permitted : Scheduler (.ofCount settings.partitions) Database → Operation → Prop}
variable {s : Scheduler (.ofCount settings.partitions) Database}

/-- What is reached over a database is reached over the shadowed database. -/
theorem Reachable.exists_shadowed
    {permitted' : Scheduler (.ofCount settings.partitions) (Shadowed Database) → Operation → Prop}
    (hdb : db.Mirrors m)
    (hpermitted : ∀ {s s'}, s.ShadowedBy s' → ∀ o, permitted s o → permitted' s' o)
    (hs : Reachable permitted (Scheduler.start settings listening db) s) :
  ∃ s', Reachable permitted' (Scheduler.start settings listening ⟨db, m.rows⟩) s' ∧ s.ShadowedBy s'
  := by
  induction hs with
  | start => exact ⟨_, .start, Scheduler.shadowedBy_start hdb⟩
  | step now o _ ho ih =>
    obtain ⟨s', hs', h⟩ := ih
    exact ⟨_, hs'.step now o (hpermitted h o ho), (h.perform_alike now o).2⟩

/-- Over consistent rows all trackers stay consistent, and so does all that is read of the table,
whatever the database refuses. -/
theorem Reachable.consistent_database (hdb : db.Mirrors m)
    (hrows : ∀ k t, m.rows.find? k = some t → t.isConsistent = true)
    (hs : Reachable permitted (Scheduler.start settings listening db) s) :
  (∀ k t, s.grid.find? k = some t → t.isConsistent = true) ∧
    ∀ row ∈ s.board.store.rows, ∃ t, row.tracker = .ok t ∧ t.isConsistent = true
  := by
  obtain ⟨s', hs', h⟩ : ∃ s', Reachable (fun _ _ => True)
      (Scheduler.start settings listening ⟨db, m.rows⟩) s' ∧ s.ShadowedBy s' :=
    hs.exists_shadowed hdb (fun _ _ _ => trivial)
  have hconsistent := hs'.consistent hrows
  constructor
  · intro k t ht
    rw [show s.grid = s'.grid from h.board.grid] at ht
    apply hconsistent.tracked k t ht
  · intro row hrow
    have hread := List.mem_map_of_mem (f := Row.tracker) hrow
    rw [h.mirrors.rows] at hread
    obtain ⟨t, ht, heq⟩ := List.mem_map.mp hread
    obtain ⟨k, hk⟩ := SortedMap.mem_values_iff.mp ht
    exact ⟨t, heq.symm, hconsistent.stored k t hk⟩

/-- The order of keys is kept where the same is tracked. -/
theorem Operation.IsInKeyOrder.of_grid {p : Partitioner} {σ τ : Type} {s : Scheduler p σ}
    {s' : Scheduler p τ} (h : s.grid = s'.grid) {o : Operation} (ho : o.IsInKeyOrder s) :
  o.IsInKeyOrder s'
  := by
  cases o with
  | register c barrier => rwa [IsInKeyOrder, ← h]
  | complete k => rwa [IsInKeyOrder, ← h]
  | _ => exact ho

/-- Over an empty table, where no request is refused, operations in key order keep the grid chained,
and the trackers are what is read of the table. -/
theorem Reachable.chained_database (htable : db.table = some ∅) (hrefusals : db.refusals.Over)
    (hs : Reachable (fun s o => o.IsInKeyOrder s) (Scheduler.start settings listening db) s) :
  s.grid.Orderly ∧ s.grid.Chained ∧
    s.board.store.rows.map Row.tracker = s.grid.trackers.map Except.ok
  := by
  have hdb : db.Mirrors ⟨∅⟩ := by
    refine ⟨?_, ?_, htable⟩
    · intro k t ht
      cases ht
    · intro k t ht
      cases ht
  obtain ⟨s', hs', h⟩ : ∃ s', Reachable (fun s o => o.IsInKeyOrder s)
      (Scheduler.start settings listening ⟨db, ∅⟩) s' ∧ s.ShadowedBy s' :=
    hs.exists_shadowed hdb (fun h _ ho => ho.of_grid h.board.grid)
  have hworks : LawfulStore.works (⟨db, ∅⟩ : Shadowed Database) :=
    Shadowed.Works.mk htable hrefusals
  obtain ⟨hsound, horderly, hchained⟩ := hs'.chained hworks rfl
  have htrackers : s'.grid.trackers = s'.board.store.rows.values := by
    apply (Grid.trackers_eq hsound.filed).trans
    congr 1
    apply Grid.oneMap_eq hsound.filed (fun k => (hsound.coherent k).symm)
  rw [show s.grid = s'.grid from h.board.grid, h.mirrors.rows, htrackers]
  exact ⟨horderly, hchained, rfl⟩

end Runs

end ChunkDispatch
