import ChunkDispatch.Proofs.Contents
import ChunkDispatch.Proofs.Substitution

/-!
# Shadows of stores

A store is *shadowed* by rows if whatever is written to it is written to them as well, unless the
store refuses it; a load asks the store, and if it is answered, the rows are read.  A scheduler does
over a shadowed store what it does over the store, as long as it loads nothing.  A shadowed database
is lawful, though a database is not: what that loads are the trackers as they are read back from the
rows of its table, which need not be those which were put.
-/

namespace ChunkDispatch

open Attempt

/-- A store together with rows. -/
structure Shadowed (σ : Type) where
  inner : σ
  rows : Entries

namespace Shadowed

variable {σ α β : Type}

/-- An action of the store alone. -/
def onInner (x : Attempt σ α) : Attempt (Shadowed σ) α :=
  x.within inner (fun a s => { s with inner := a })

/-- A write, and what it makes of the rows. -/
def write (x : Attempt σ Unit) (f : Entries → Entries) : Attempt (Shadowed σ) Unit := do
  onInner x
  modify (fun s => { s with rows := f s.rows })

/-- A load, and what is read off the rows. -/
def load (x : Attempt σ α) (f : Entries → β) : Attempt (Shadowed σ) β := do
  let _ ← onInner x
  return f (← get).rows

instance [Store σ] : Store (Shadowed σ) where
  put t := write (Store.put t) (·.insert t.key t)
  putAll ts := write (Store.putAll ts) (fun m => ts.foldl (fun m t => m.insert t.key t) m)
  delete k := write (Store.delete k) (·.erase k)
  deleteAll ks := write (Store.deleteAll ks) (fun m => ks.foldl (fun m k => m.erase k) m)
  load k := load (Store.load k) (·.find? k)
  loadAll ks := load (Store.loadAll ks) (fun m => ks.filterMap m.find?)
  loadKeys := load Store.loadKeys SortedMap.keys

end Shadowed

/-! ### Stores and their shadows -/

section Follows

variable {σ : Type} [Store σ] {I : σ → Entries → Prop}

/-- Rows related to a store by `I` stay so when both are written to. -/
structure Store.Follows (I : σ → Entries → Prop) : Prop where
  put {a : σ} {m : Entries} : I a m → ∀ t,
    (Store.put t).Ends a (fun _ a' => I a' (m.insert t.key t)) (fun _ a' => I a' m)
  putAll {a : σ} {m : Entries} : I a m → ∀ ts,
    (Store.putAll ts).Ends a (fun _ a' => I a' (ts.foldl (fun m t => m.insert t.key t) m))
      (fun _ a' => I a' m)
  delete {a : σ} {m : Entries} : I a m → ∀ k,
    (Store.delete k).Ends a (fun _ a' => I a' (m.erase k)) (fun _ a' => I a' m)
  deleteAll {a : σ} {m : Entries} : I a m → ∀ ks,
    (Store.deleteAll ks).Ends a (fun _ a' => I a' (ks.foldl (fun m k => m.erase k) m))
      (fun _ a' => I a' m)

/-- The store is the one which is shadowed, and related to the rows by `I`. -/
structure Shadowed.By (I : σ → Entries → Prop) (a : σ) (s : Shadowed σ) : Prop where
  inner : s.inner = a
  rows : I a s.rows

omit [Store σ] in
theorem Shadowed.write_alike {x : Attempt σ Unit} {f : Entries → Entries} {a : σ}
    {s : Shadowed σ} (hs : s.inner = a)
    (hx : x.Ends a (fun _ a' => I a' (f s.rows)) (fun _ a' => I a' s.rows)) :
  Alike (Shadowed.By I) x a (write x f) s
  := by
  subst hs
  simp only [alike_iff, write, onInner, within, bind, EStateM.bind]
  rw [Ends] at hx
  cases hinner : x s.inner with
  | ok _ a' =>
    rw [hinner] at hx
    exact Or.inl ⟨_, _, _, rfl, rfl, rfl, hx⟩
  | error e a' =>
    rw [hinner] at hx
    exact Or.inr ⟨_, _, _, rfl, rfl, rfl, hx⟩

omit [Store σ] in
/-- What a store answers and what is read off the rows are alike if they are the same. -/
theorem Shadowed.load_alike {α : Type} {x : Attempt σ α} {f : Entries → α} {a : σ}
    {s : Shadowed σ} (hs : s.inner = a)
    (hx : x.Ends a (fun r a' => r = f s.rows ∧ I a' s.rows) (fun _ a' => I a' s.rows)) :
  Alike (Shadowed.By I) x a (load x f) s
  := by
  subst hs
  simp only [alike_iff, load, onInner, within, bind, EStateM.bind]
  rw [Ends] at hx
  cases hinner : x s.inner with
  | ok r a' =>
    rw [hinner] at hx
    obtain ⟨rfl, ha'⟩ := hx
    exact Or.inl ⟨_, _, _, rfl, rfl, rfl, ha'⟩
  | error e a' =>
    rw [hinner] at hx
    exact Or.inr ⟨_, _, _, rfl, rfl, rfl, hx⟩

/-- A store which rows follow and the store shadowed by them are written to alike. -/
theorem Store.Follows.writesAlike (hI : Store.Follows I) :
  Store.WritesAlike (Shadowed.By I)
  where
  put h t := Shadowed.write_alike h.inner (hI.put h.rows t)
  putAll h ts := Shadowed.write_alike h.inner (hI.putAll h.rows ts)
  delete h k := Shadowed.write_alike h.inner (hI.delete h.rows k)
  deleteAll h ks := Shadowed.write_alike h.inner (hI.deleteAll h.rows ks)

variable {p : Partitioner}

/-- The scheduler whose store is shadowed by some rows. -/
def Scheduler.shadowed (m : Entries) (s : Scheduler p σ) : Scheduler p (Shadowed σ) :=
  ⟨⟨⟨s.board.store, m⟩, s.board.grid, s.board.lastSeq, s.board.log, s.board.book⟩, s.settings,
    s.ready⟩

omit [Store σ] in
theorem Scheduler.over_shadowed {s : Scheduler p σ} {m : Entries} (hs : s.board.grid.WellFiled)
    (hI : I s.board.store m) :
  s.Over (Shadowed.By I) (s.shadowed m)
  := ⟨⟨⟨rfl, hI⟩, rfl, rfl, rfl, rfl, hs⟩, rfl, rfl⟩

end Follows

/-! ### Shadowed databases -/

namespace Refusals

variable {r r' : Refusals}

theorem Answered.isOver (h : r.Answered r') (hr : r.Over) :
  r'.Over
  := by
  intro i hi
  rw [h.refuses]
  apply hr i (Nat.le_trans h.asked hi)

theorem Refused.not_over (h : r.Refused r') :
  ¬ r.Over
  := by
  obtain ⟨i, hi, -, hrefuses⟩ := h
  intro hr
  cases hrefuses.symm.trans (hr i hi)

end Refusals

namespace Shadowed

/-- The table has the rows of the shadow, and no request is refused any more. -/
structure Works (s : Shadowed Database) : Prop where
  table : s.inner.table = some (s.rows.map Row.ofTracker)
  refusals : s.inner.refusals.Over

/-- What a database does to a table which has the rows of the shadow is all it needs. -/
theorem write_acts {x : Attempt Database Unit} {f : Entries → Entries} (s : Shadowed Database)
    (hx : s.inner.table = some (s.rows.map Row.ofTracker) →
      x.Ends s.inner (fun _ => s.inner.Answers ((f s.rows).map Row.ofTracker))
        (fun _ => s.inner.Refuses (s.rows.map Row.ofTracker))) :
  (write x f).Acts rows Works s (fun _ m => m = f s.rows)
  := by
  rw [Acts, write, ends_bind, onInner, ends_within]
  apply (ends_imp hx).mono
  · intro _ db hanswers
    rw [ends_modify]
    refine ⟨rfl, ?_⟩
    intro hs
    exact ⟨(hanswers hs.table).table, (hanswers hs.table).answered.isOver hs.refusals⟩
  · intro _ db hrefuses
    exact ⟨rfl, fun hs => (hrefuses hs.table).refused.not_over hs.refusals⟩

theorem load_acts {α β : Type} {x : Attempt Database α} {f : Entries → β} (s : Shadowed Database)
    (hx : s.inner.table = some (s.rows.map Row.ofTracker) →
      x.Ends s.inner (fun _ => s.inner.Answers (s.rows.map Row.ofTracker))
        (fun _ => s.inner.Refuses (s.rows.map Row.ofTracker))) :
  (load x f).Acts rows Works s (fun b m => b = f s.rows ∧ m = s.rows)
  := by
  rw [Acts, load, ends_bind, onInner, ends_within]
  apply (ends_imp hx).mono
  · intro _ db hanswers
    rw [ends_bind, ends_get, ends_pure]
    refine ⟨⟨rfl, rfl⟩, ?_⟩
    intro hs
    exact ⟨(hanswers hs.table).table, (hanswers hs.table).answered.isOver hs.refusals⟩
  · intro _ db hrefuses
    exact ⟨rfl, fun hs => (hrefuses hs.table).refused.not_over hs.refusals⟩

open Database in
instance : LawfulStore (Shadowed Database) where
  rows := rows
  works := Works
  put t s := write_acts s (fun h => put_ends h t)
  putAll ts s := write_acts s (fun h => putAll_ends h ts)
  delete k s := write_acts s (fun h => delete_ends h k)
  deleteAll ks s := write_acts s (fun h => deleteAll_ends h ks)
  load k s := load_acts s
    (fun h => (load_readBack_ends h k).mono (fun _ _ => And.right) (fun _ _ => id))
  loadAll ks s := by
    apply (load_acts s (fun h =>
      (loadAll_readBack_ends h ks).mono (fun _ _ => And.right) (fun _ _ => id))).mono
    · rintro _ _ ⟨⟨rfl, hrows⟩, hworks⟩
      exact ⟨⟨fun _ => List.mem_filterMap, hrows⟩, hworks⟩
    · exact fun _ _ => id
  loadKeys s := load_acts s
    (fun h => (loadKeys_ends h).mono (fun _ _ => And.right) (fun _ _ => id))

instance : LoadsOnce (Shadowed Database) where
  length_loadAll {ks} _ s := by
    apply (ends_bind _ _).mpr
    rw [onInner, ends_within]
    apply ends_of_forall
    · exact fun _ _ => List.length_filterMap_eq_countP
    · exact fun _ _ => trivial

end Shadowed

end ChunkDispatch
