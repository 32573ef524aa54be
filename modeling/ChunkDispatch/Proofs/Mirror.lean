import ChunkDispatch.Proofs.Contents
import ChunkDispatch.Proofs.Run

/-!
# The database and the store in memory

A database *mirrors* a store in memory if its table holds the rows of the trackers there, all of
which are storable and lie under their own keys.  Each call which the database answers is answered
alike by the store in memory, and the database goes on mirroring it.  A call fails exactly if one of
its statements is refused, whichever it is, and leaves the table as it was.  So a sequence of calls
comes to the same in both, where the store in memory refuses the calls at which the database fails.
Only several trackers loaded together may differ, in their order and in how often each of them is
given.
-/

namespace ChunkDispatch

open Attempt

/-! ### Calls -/

namespace Call

/-- The trackers which a call puts are storable. -/
def Storable : Call → Prop
  | put t => t.Storable
  | putAll ts => ∀ t ∈ ts, t.Storable
  | _ => True

/--
The replies to a call are the same.  Of several trackers loaded together both have the same, the
first each of them once and in the order of their keys; both have them alike but for the order if
no key is asked for twice, and alike if the keys ascend strictly.
-/
def SameReply : Call → Reply → Reply → Prop
  | loadAll ks, .trackers ts, .trackers us =>
    (∀ t, t ∈ ts ↔ t ∈ us) ∧ ts.Pairwise (fun t u => t.key < u.key) ∧
      (ks.Nodup → ts.Perm us) ∧ (ks.Pairwise (· < ·) → ts = us)
  | _, r, r' => r = r'

/-- Both replies are errors, or they are the same. -/
def Agree (c : Call) : Except Error Reply → Except Error Reply → Prop
  | .error _, .error _ => True
  | .ok r, .ok r' => c.SameReply r r'
  | _, _ => False

end Call

namespace Database

open Call

/-- The table holds the rows of the trackers in memory, which are storable. -/
structure Mirrors (db : Database) (m : Memory) : Prop where
  filed : ∀ k t, m.rows.find? k = some t → t.key = k
  storable : ∀ k t, m.rows.find? k = some t → t.Storable
  table : db.table = some (m.rows.map Row.ofTracker)

namespace Mirrors

variable {db db' : Database} {m : Memory} (h : db.Mirrors m)

include h

/-- The trackers in memory are read back from the rows of the table. -/
theorem rows :
  db.rows.map Row.tracker = m.rows.values.map Except.ok
  := by
  rw [Database.rows, h.table, Option.getD_some, SortedMap.values_map, List.map_map]
  apply List.map_congr_left
  intro t ht
  obtain ⟨k, hk⟩ := SortedMap.mem_values_iff.mp ht
  apply Row.tracker_of_storable (h.storable k t hk)

theorem put {t : Tracker} (ht : t.Storable)
    (hdb' : db'.table = some ((m.insert t).rows.map Row.ofTracker)) :
  db'.Mirrors (m.insert t)
  := by
  have hfind : ∀ {k u}, (m.insert t).rows.find? k = some u →
      k = t.key ∧ u = t ∨ m.rows.find? k = some u := by
    intro k u hu
    rw [Memory.insert, SortedMap.find?_insert] at hu
    split at hu
    · exact Or.inl ⟨‹_›, (Option.some.inj hu).symm⟩
    · exact Or.inr hu
  constructor
  · intro k u hu
    obtain ⟨rfl, rfl⟩ | hu := hfind hu
    · rfl
    · apply h.filed k u hu
  · intro k u hu
    obtain ⟨-, rfl⟩ | hu := hfind hu
    · exact ht
    · apply h.storable k u hu
  · exact hdb'

theorem putAll {ts : List Tracker} (hts : ∀ t ∈ ts, t.Storable)
    (hdb' : db'.table = some ((ts.foldl (fun m t => m.insert t) m).rows.map Row.ofTracker)) :
  db'.Mirrors (ts.foldl (fun m t => m.insert t) m)
  := by
  induction ts generalizing db m with
  | nil => exact ⟨h.filed, h.storable, hdb'⟩
  | cons t rest ih =>
    obtain ⟨ht, hrest⟩ := List.forall_mem_cons.mp hts
    have hfirst : Mirrors { db with table := _ } (m.insert t) := h.put ht rfl
    apply ih hfirst hrest hdb'

/-- What is left of the trackers is mirrored by what is left of the rows. -/
theorem of_find? {m' : Memory}
    (hm' : ∀ k, m'.rows.find? k = none ∨ m'.rows.find? k = m.rows.find? k)
    (hdb' : db'.table = some (m'.rows.map Row.ofTracker)) :
  db'.Mirrors m'
  := by
  have hkept : ∀ {k t}, m'.rows.find? k = some t → m.rows.find? k = some t := by
    intro k t ht
    obtain hnone | hsame := hm' k
    · cases hnone.symm.trans ht
    · rw [← hsame, ht]
  constructor
  · exact fun k t ht => h.filed k t (hkept ht)
  · exact fun k t ht => h.storable k t (hkept ht)
  · exact hdb'

theorem delete {k : Key} (hdb' : db'.table = some ((m.erase k).rows.map Row.ofTracker)) :
  db'.Mirrors (m.erase k)
  := by
  apply h.of_find? _ hdb'
  intro k'
  rw [Memory.erase, SortedMap.find?_erase]
  split
  · exact Or.inl rfl
  · exact Or.inr rfl

theorem deleteAll {ks : List Key}
    (hdb' : db'.table = some ((ks.foldl (fun m k => m.erase k) m).rows.map Row.ofTracker)) :
  db'.Mirrors (ks.foldl (fun m k => m.erase k) m)
  := by
  apply h.of_find? _ hdb'
  intro k'
  rw [Memory.rows_foldl_erase, SortedMap.find?_eraseAll]
  split
  · exact Or.inl rfl
  · exact Or.inr rfl

/-- Of several trackers loaded together both stores have the same. -/
theorem sameReply_loadAll (ks : List Key) :
  (loadAll ks).SameReply (.trackers (gathered ks m.rows)) (.trackers (ks.filterMap m.rows.find?))
  := by
  have hmem : ∀ t, t ∈ gathered ks m.rows ↔ t ∈ ks.filterMap m.rows.find? := by
    intro t
    rw [mem_gathered, List.mem_filterMap]
  have hgathered := pairwise_gathered ks h.filed
  refine ⟨hmem, hgathered, ?_, ?_⟩
  · intro hks
    apply (List.perm_ext_iff_of_nodup _ _).mpr hmem
    · apply hgathered.imp
      rintro t _ hlt rfl
      apply Std.lt_irrefl hlt
    · apply hks.filterMap
      intro k k' t ht ht'
      rw [← h.filed k t ht, ← h.filed k' t ht']
  · intro hks
    apply eq_of_pairwise_key hgathered _ hmem
    apply hks.filterMap
    intro k k' hlt t ht u hu
    rw [h.filed k t ht, h.filed k' u hu]
    exact hlt

/-- The trackers in memory are read back as they are. -/
theorem readBack {t : Tracker} {k : Key} (ht : m.rows.find? k = some t) :
  t.readBack = t
  := (h.storable k t ht).readBack

theorem gathered_readBack (ks : List Key) :
  (gathered ks m.rows).map Tracker.readBack = gathered ks m.rows
  := by
  conv_rhs => rw [← List.map_id (gathered ks m.rows)]
  apply List.map_congr_left
  intro t ht
  obtain ⟨k, -, hk⟩ := mem_gathered.mp ht
  apply h.readBack hk

/--
A database answers a call as the store in memory does and goes on mirroring it, or it refuses a
statement of the call and has the table it had.
-/
theorem perform {c : Call} (hc : c.Storable) :
  c.perform.Ends db
    (fun r db' => (∃ r', c.perform.outcome m = .ok r' ∧ c.SameReply r r') ∧
      db'.Mirrors (c.perform.stateAfter m) ∧ db.refusals.Answered db'.refusals)
    (fun _ db' => db'.table = db.table ∧ db.refusals.Refused db'.refusals)
  := by
  have hfailed : ∀ (e : Error) (db' : Database), db.Refuses (m.rows.map Row.ofTracker) db' →
      db'.table = db.table ∧ db.refusals.Refused db'.refusals :=
    fun _ _ hrefuses => ⟨hrefuses.table.trans h.table.symm, hrefuses.refused⟩
  cases c with
  | put t =>
    rw [Call.perform, ends_bind]
    apply (put_ends h.table t).mono
    · intro _ db' hanswers
      exact ⟨⟨.done, rfl, rfl⟩, h.put hc hanswers.table, hanswers.answered⟩
    · exact hfailed
  | putAll ts =>
    rw [Call.perform, ends_bind]
    apply (putAll_ends h.table ts).mono
    · intro _ db' hanswers
      refine ⟨⟨.done, rfl, rfl⟩, h.putAll hc ?_, hanswers.answered⟩
      rw [Memory.rows_foldl_insert]
      exact hanswers.table
    · exact hfailed
  | delete k =>
    rw [Call.perform, ends_bind]
    apply (delete_ends h.table k).mono
    · intro _ db' hanswers
      exact ⟨⟨.done, rfl, rfl⟩, h.delete hanswers.table, hanswers.answered⟩
    · exact hfailed
  | deleteAll ks =>
    rw [Call.perform, ends_bind]
    apply (deleteAll_ends h.table ks).mono
    · intro _ db' hanswers
      refine ⟨⟨.done, rfl, rfl⟩, h.deleteAll ?_, hanswers.answered⟩
      rw [Memory.rows_foldl_erase]
      exact hanswers.table
    · exact hfailed
  | load k =>
    have hread : (m.rows.find? k).map Tracker.readBack = m.rows.find? k := by
      cases hk : m.rows.find? k with
      | none => rfl
      | some t => rw [Option.map_some, h.readBack hk]
    rw [Call.perform, ends_bind]
    apply (load_readBack_ends h.table k).mono
    · rintro _ db' ⟨rfl, htable, hanswered⟩
      rw [hread]
      exact ⟨⟨.found (m.rows.find? k), rfl, rfl⟩, ⟨h.filed, h.storable, htable⟩, hanswered⟩
    · exact hfailed
  | loadAll ks =>
    rw [Call.perform, ends_bind]
    apply (loadAll_readBack_ends h.table ks).mono
    · rintro _ db' ⟨rfl, htable, hanswered⟩
      rw [h.gathered_readBack]
      exact ⟨⟨.trackers (ks.filterMap m.rows.find?), rfl, h.sameReply_loadAll ks⟩,
        ⟨h.filed, h.storable, htable⟩, hanswered⟩
    · exact hfailed
  | loadKeys =>
    rw [Call.perform, ends_bind]
    apply (loadKeys_ends h.table).mono
    · rintro _ db' ⟨rfl, htable, hanswered⟩
      rw [SortedMap.keys_map]
      exact ⟨⟨.keys m.rows.keys, rfl, rfl⟩, ⟨h.filed, h.storable, htable⟩, hanswered⟩
    · exact hfailed

end Mirrors

/-! ### Sequences of calls -/

/-- A store in memory which is not to refuse a call answers as the store behind it. -/
theorem outcome_told_false (s : Scripted Memory) (c : Call) :
  c.perform.outcome (told false s) = c.perform.outcome s.inner ∧
    (c.perform.stateAfter (told false s)).inner = c.perform.stateAfter s.inner
  := by
  cases c <;> exact ⟨rfl, rfl⟩

/-- A store in memory which is to refuse a call fails and keeps what it has. -/
theorem outcome_told_true (s : Scripted Memory) (c : Call) :
  (∃ e, c.perform.outcome (told true s) = .error e) ∧
    (c.perform.stateAfter (told true s)).inner = s.inner
  := by
  cases c with
  | put t => exact ⟨⟨.writeRefused, rfl⟩, rfl⟩
  | putAll ts => exact ⟨⟨.writeRefused, rfl⟩, rfl⟩
  | delete k => exact ⟨⟨.writeRefused, rfl⟩, rfl⟩
  | deleteAll ks => exact ⟨⟨.writeRefused, rfl⟩, rfl⟩
  | load k => exact ⟨⟨.loadRefused, rfl⟩, rfl⟩
  | loadAll ks => exact ⟨⟨.loadRefused, rfl⟩, rfl⟩
  | loadKeys => exact ⟨⟨.loadRefused, rfl⟩, rfl⟩

/-- Whether an outcome is an error. -/
def failed (r : Except Error Reply) : Bool :=
  !r.isOk

/-- Of which calls of a sequence the database refuses a statement. -/
def refusedCalls (db : Database) : List Call → List Bool
  | [] => []
  | c :: rest =>
    let db' := c.perform.stateAfter db
    db.refusals.refusedSince db'.refusals :: refusedCalls db' rest

/--
A call is answered alike, and mirrored, by a store in memory which refuses what has failed; and it
has failed exactly if a statement of it was refused.
-/
theorem Mirrors.step {db : Database} {s : Scripted Memory} (h : db.Mirrors s.inner) {c : Call}
    (hc : c.Storable) :
  failed (c.perform.outcome db)
      = db.refusals.refusedSince (c.perform.stateAfter db).refusals ∧
    c.Agree (c.perform.outcome db)
      (c.perform.outcome (told (failed (c.perform.outcome db)) s)) ∧
    (c.perform.stateAfter db).Mirrors
      (c.perform.stateAfter (told (failed (c.perform.outcome db)) s)).inner
  := by
  obtain ⟨r, hr, ⟨r', hr', hsame⟩, hmirrors, hanswered⟩ | ⟨e, he, htable, hrefused⟩ :=
    (h.perform hc).outcome_cases
  · obtain ⟨hreply, hinner⟩ := outcome_told_false s c
    rw [hr, hanswered.refusedSince_eq]
    refine ⟨rfl, ?_⟩
    change c.Agree (.ok r) (c.perform.outcome (told false s)) ∧
      Mirrors _ (c.perform.stateAfter (told false s)).inner
    rw [hreply, hr', hinner]
    exact ⟨hsame, hmirrors⟩
  · obtain ⟨⟨e', he'⟩, hinner⟩ := outcome_told_true s c
    rw [he, Refusals.refusedSince_iff.mpr hrefused]
    refine ⟨rfl, ?_⟩
    change c.Agree (.error e) (c.perform.outcome (told true s)) ∧
      Mirrors _ (c.perform.stateAfter (told true s)).inner
    rw [he', hinner]
    exact ⟨trivial, h.filed, h.storable, htable.trans h.table⟩

/-- Sequences of calls are answered alike, and mirrored. -/
theorem Mirrors.run {db : Database} {s : Scripted Memory} (h : db.Mirrors s.inner)
    {cs : List Call} (hcs : ∀ c ∈ cs, c.Storable) :
  (Call.run db cs).1.map failed = refusedCalls db cs ∧
    List.Forall₂ (fun e r' => e.1.Agree e.2 r') (cs.zip (Call.run db cs).1)
      (runTold s (cs.zip ((Call.run db cs).1.map failed))).1 ∧
    (Call.run db cs).2.Mirrors (runTold s (cs.zip ((Call.run db cs).1.map failed))).2.inner
  := by
  induction cs generalizing db s with
  | nil => exact ⟨rfl, .nil, h⟩
  | cons c rest ih =>
    obtain ⟨hc, hrest⟩ := List.forall_mem_cons.mp hcs
    obtain ⟨hfailed, hagree, hmirrors⟩ := h.step hc
    obtain ⟨hrefused, hagrees, hend⟩ := ih hmirrors hrest
    refine ⟨?_, .cons hagree hagrees, hend⟩
    rw [refusedCalls, ← hrefused, ← hfailed]
    rfl

/--
A database and a store in memory which it mirrors are sent the same calls, and the store in memory
refuses those at which the database fails, which are those of which a statement was refused,
whichever it was.  Then both answer alike call by call; at the end the rows of the table are read
as the trackers in memory, in their order.  A call which fails leaves either as it was.
-/
theorem run_agrees {db : Database} {s : Scripted Memory} (h : db.Mirrors s.inner)
    {cs : List Call} (hcs : ∀ c ∈ cs, c.Storable) :
  let (replies, db') := Call.run db cs
  let (replies', s') := runTold s (cs.zip (replies.map failed))
  replies.map failed = refusedCalls db cs ∧
    List.Forall₂ (fun e r' => e.1.Agree e.2 r') (cs.zip replies) replies' ∧
    db'.Mirrors s'.inner ∧ db'.rows.map Row.tracker = s'.inner.rows.values.map Except.ok ∧
    ∀ c : Call, c.Storable →
      c.perform.Ends db'
        (fun _ db'' => db'.refusals.refusedSince db''.refusals = false)
        (fun _ db'' => db'.refusals.refusedSince db''.refusals = true ∧ db''.table = db'.table) ∧
      c.perform.Ends (told true s') (fun _ _ => False) (fun _ s'' => s''.inner = s'.inner)
  := by
  obtain ⟨hrefused, hagree, hmirrors⟩ := h.run hcs
  refine ⟨hrefused, hagree, hmirrors, hmirrors.rows, ?_⟩
  intro c hc
  constructor
  · apply (hmirrors.perform hc).mono
    · exact fun _ _ h => h.2.2.refusedSince_eq
    · exact fun _ _ h => ⟨Refusals.refusedSince_iff.mpr h.2, h.1⟩
  · obtain ⟨⟨e, he⟩, hinner⟩ := outcome_told_true _ c
    apply ((ends_of_outcome he).and
      (ends_of_stateAfter (P := fun s'' => s''.inner = _) hinner)).mono
    · exact fun _ _ h => h.1
    · exact fun _ _ h => h.2

/--
A batch is rolled back when its end is refused, and then put after a tracker of its own; the
trackers are loaded, one of them is deleted, and the other, which waits for it, is all that is
left.
-/
theorem run_agrees_of_rolled_back :
  let db := { Database.ofRows [] with refusals := ⟨fun i => i = 2, 0⟩ }
  let s := Scripted.of (Memory.ofList [])
  let t := (Chunk.sample 1 1 ["a", "b"]).track default
  let u := { (Chunk.sample 2 0 ["a"]).track default with
    waitingOn := .ofList [⟨1, 1⟩], status := .blocked }
  let cs := [Call.putAll [t, u], .put t, .putAll [t, u], .load ⟨1, 1⟩, .loadKeys,
    .loadAll [⟨2, 0⟩, ⟨1, 1⟩, ⟨2, 0⟩], .delete ⟨1, 1⟩, .deleteAll [⟨1, 1⟩, ⟨1, 1⟩]]
  let replies := [.error .database, .ok .done, .ok .done, .ok (.found (some t)),
    .ok (.keys [⟨1, 1⟩, ⟨2, 0⟩]), .ok (.trackers [t, u]), .ok .done, .ok .done]
  let refused := [true, false, false, false, false, false, false, false]
  db.Mirrors s.inner ∧ (∀ c ∈ cs, c.Storable) ∧ (Call.run db cs).1 = replies ∧
    refusedCalls db cs = refused ∧
    (Call.run db cs).2.Mirrors (runTold s (cs.zip refused)).2.inner ∧
    (runTold s (cs.zip refused)).2.inner.rows.values.map Except.ok
      = [(Except.ok u : Except Error Tracker)]
  := by
  intro db s t u cs replies refused
  have hmirrors : db.Mirrors s.inner := by
    constructor
    · intro k _ h
      cases h
    · intro k _ h
      cases h
    · rfl
  have ht : t.Storable := ⟨by decide +kernel, by decide +kernel⟩
  have hu : u.Storable := ⟨by decide +kernel, by decide +kernel⟩
  have hcs : ∀ c ∈ cs, c.Storable := by simp [cs, Storable, ht, hu]
  have hreplies : (Call.run db cs).1 = replies := by decide +kernel
  have hfailed : replies.map failed = refused := by decide +kernel
  have hrows : (Call.run db cs).2.rows.map Row.tracker = [Except.ok u] := by decide +kernel
  clear_value db s cs replies refused
  obtain ⟨hrefused, -, hend, hvalues, -⟩ := run_agrees hmirrors hcs
  rw [hreplies, hfailed] at hrefused hend hvalues
  exact ⟨hmirrors, hcs, hreplies, hrefused.symm, hend, hvalues.symm.trans hrows⟩

end Database

end ChunkDispatch
