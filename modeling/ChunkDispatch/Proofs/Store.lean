import ChunkDispatch.Proofs.Attempt
import ChunkDispatch.Grid
import ChunkDispatch.Store.Memory
import ChunkDispatch.Store.Scripted

/-!
# Lawful stores

A *lawful* store is known by the rows it keeps.  Each of its actions has its whole effect on the
rows or is refused and has none, and no action is refused while the store *works*.  A store which
works goes on working.  A scripted store over a lawful one is lawful, whatever it refuses, and works
once it refuses nothing any more.
-/

namespace ChunkDispatch

/--
The action `x` of a store made at `s` comes to a result and to rows related by `R`, or is refused
and leaves the rows as they were; it is not refused while the store works.
-/
def Attempt.Acts {σ α : Type} (rows : σ → Entries) (works : σ → Prop) (x : Attempt σ α) (s : σ)
    (R : α → Entries → Prop) : Prop :=
  x.Ends s (fun a s' => R a (rows s') ∧ (works s → works s'))
    (fun _ s' => rows s' = rows s ∧ ¬ works s)

/-- A store which keeps rows, one tracker for each key. -/
class LawfulStore (σ : Type) [Store σ] where
  /-- The trackers kept. -/
  rows : σ → Entries
  /-- No action is refused from here on. -/
  works : σ → Prop
  put (t : Tracker) (s : σ) :
    (Store.put t).Acts rows works s (fun _ m => m = (rows s).insert t.key t)
  putAll (ts : List Tracker) (s : σ) :
    (Store.putAll ts).Acts rows works s
      (fun _ m => m = ts.foldl (fun m t => m.insert t.key t) (rows s))
  delete (k : Key) (s : σ) :
    (Store.delete k).Acts rows works s (fun _ m => m = (rows s).erase k)
  deleteAll (ks : List Key) (s : σ) :
    (Store.deleteAll ks).Acts rows works s
      (fun _ m => m = ks.foldl (fun m k => m.erase k) (rows s))
  load (k : Key) (s : σ) :
    (Store.load k).Acts rows works s (fun t m => t = (rows s).find? k ∧ m = rows s)
  loadAll (ks : List Key) (s : σ) :
    (Store.loadAll ks).Acts rows works s (fun ts m =>
      (∀ t, t ∈ ts ↔ ∃ k ∈ ks, (rows s).find? k = some t) ∧ m = rows s)
  loadKeys (s : σ) :
    Store.loadKeys.Acts rows works s (fun ks m => ks = (rows s).keys ∧ m = rows s)

/-- A store which, asked for keys no two of which are the same, loads one tracker for each key. -/
class LoadsOnce (σ : Type) [Store σ] [LawfulStore σ] : Prop where
  length_loadAll {ks : List Key} (hks : ks.Nodup) (s : σ) :
    (Store.loadAll ks).Ends s
      (fun ts _ => ts.length = ks.countP (LawfulStore.rows s).contains) (fun _ _ => True)

/-- The action of a store which works succeeds. -/
theorem Attempt.Acts.yields {σ α : Type} {rows : σ → Entries} {works : σ → Prop}
    {x : Attempt σ α} {s : σ} {R : α → Entries → Prop}
    (h : x.Acts rows works s R) (hs : works s) :
  x.Yields s (fun a s' => R a (rows s') ∧ works s')
  := by
  apply Ends.mono h
  · rintro _ _ ⟨hR, hw⟩
    exact ⟨hR, hw hs⟩
  · rintro _ _ ⟨-, hw⟩
    apply hw hs

namespace Memory

theorem rows_foldl_insert (ts : List Tracker) (m : Memory) :
  (ts.foldl (fun m t => m.insert t) m).rows
    = ts.foldl (fun m t => SortedMap.insert t.key t m) m.rows
  := by
  induction ts generalizing m with
  | nil => rfl
  | cons t rest ih => apply ih

theorem rows_foldl_erase (ks : List Key) (m : Memory) :
  (ks.foldl (fun m k => m.erase k) m).rows = ks.foldl (fun m k => SortedMap.erase k m) m.rows
  := by
  induction ks generalizing m with
  | nil => rfl
  | cons k rest ih => apply ih

/-- The store in memory refuses nothing. -/
instance : LawfulStore Memory where
  rows := Memory.rows
  works _ := True
  put _ _ := ⟨rfl, id⟩
  putAll ts m := ⟨rows_foldl_insert ts m, id⟩
  delete _ _ := ⟨rfl, id⟩
  deleteAll ks m := ⟨rows_foldl_erase ks m, id⟩
  load _ _ := ⟨⟨rfl, rfl⟩, id⟩
  loadAll _ _ := ⟨⟨fun _ => List.mem_filterMap, rfl⟩, id⟩
  loadKeys _ := ⟨⟨rfl, rfl⟩, id⟩

instance : LoadsOnce Memory where
  length_loadAll _ _ := List.length_filterMap_eq_countP

end Memory

/-! ### Scripted stores -/

/-- No request from the next one on is refused. -/
def Refusals.Over (r : Refusals) : Prop :=
  ∀ i, r.asked ≤ i → r.refuses i = false

theorem Refusals.Over.advance {r : Refusals} (h : r.Over) :
  r.advance.Over
  := fun i hi => h i (Nat.le_of_succ_le hi)

theorem Refusals.not_over_of_next {r : Refusals} (h : r.next = true) :
  ¬ r.Over
  := by
  intro hover
  cases h.symm.trans (hover r.asked (Nat.le_refl _))

namespace Scripted

open Attempt

variable {σ α : Type} {rows : σ → Entries} {works : σ → Prop}

/-- The store behind works, and no request is refused any more. -/
def Works (works : σ → Prop) (s : Scripted σ) : Prop :=
  works s.inner ∧ s.writeRefusals.Over ∧ s.loadRefusals.Over

variable {s s' : Scripted σ}

/-- What the store behind does once its refusals were asked. -/
theorem onInner_acts {x : Attempt σ α} {R : α → Entries → Prop}
    (hx : x.Acts rows works s.inner R) (hinner : s'.inner = s.inner)
    (hover : Works works s → s'.writeRefusals.Over ∧ s'.loadRefusals.Over) :
  (onInner x).Ends s'
    (fun a s'' => R a (rows s''.inner) ∧ (Works works s → Works works s''))
    (fun _ s'' => rows s''.inner = rows s.inner ∧ ¬ Works works s)
  := by
  rw [onInner, ends_within, hinner]
  apply hx.mono
  · rintro a t ⟨hR, hworks⟩
    use hR
    intro hs
    exact ⟨hworks hs.1, hover hs⟩
  · rintro e t ⟨hrows, hnot⟩
    use hrows
    exact fun hs => hnot hs.1

/-- A write is listed, and if it is taken it was not to be refused. -/
theorem write_ends (w : Write) (x : Attempt σ Unit) (s : Scripted σ) :
  (write w x).Ends s
    (fun _ s' => s'.writes = s.writes ++ [w] ∧ s.writeRefusals.next = false)
    (fun _ s' => s'.writes = s.writes ++ [w])
  := by
  rw [write, ends_bind, ends_get, ends_bind, ends_set]
  split
  · rfl
  · rename_i hnext
    rw [onInner, ends_within]
    apply ends_of_forall
    · exact fun _ _ => ⟨rfl, Bool.eq_false_iff.mpr hnext⟩
    · exact fun _ _ => rfl

theorem write_acts (w : Write) {x : Attempt σ Unit} {R : Unit → Entries → Prop}
    (hx : x.Acts rows works s.inner R) :
  (write w x).Acts (fun s => rows s.inner) (Works works) s R
  := by
  rw [Acts, write, ends_bind, ends_get, ends_bind, ends_set]
  split
  · rename_i hnext
    exact ⟨rfl, fun hs => Refusals.not_over_of_next hnext hs.2.1⟩
  · apply onInner_acts hx
    · rfl
    · exact fun hs => ⟨hs.2.1.advance, hs.2.2⟩

/-- A load asks for no write, and if it succeeds it was not to be refused. -/
theorem load_ends (x : Attempt σ α) (s : Scripted σ) :
  (load x).Ends s
    (fun _ s' => s'.writes = s.writes ∧ s.loadRefusals.next = false ∧
      s'.loadRefusals = s.loadRefusals.advance)
    (fun _ s' => s'.writes = s.writes)
  := by
  rw [load, ends_bind, ends_get, ends_bind, ends_set]
  split
  · rfl
  · rename_i hnext
    rw [onInner, ends_within]
    apply ends_of_forall
    · exact fun _ _ => ⟨rfl, Bool.eq_false_iff.mpr hnext, rfl⟩
    · exact fun _ _ => rfl

theorem load_acts {x : Attempt σ α} {R : α → Entries → Prop}
    (hx : x.Acts rows works s.inner R) :
  (load x).Acts (fun s => rows s.inner) (Works works) s R
  := by
  rw [Acts, load, ends_bind, ends_get, ends_bind, ends_set]
  split
  · rename_i hnext
    exact ⟨rfl, fun hs => Refusals.not_over_of_next hnext hs.2.2⟩
  · apply onInner_acts hx
    · rfl
    · exact fun hs => ⟨hs.2.1, hs.2.2.advance⟩

/-- Whatever it refuses, a scripted store is as lawful as the store behind it. -/
instance [Store σ] [LawfulStore σ] : LawfulStore (Scripted σ) where
  rows s := LawfulStore.rows s.inner
  works := Works LawfulStore.works
  put t s := write_acts _ (LawfulStore.put t s.inner)
  putAll ts s := write_acts _ (LawfulStore.putAll ts s.inner)
  delete k s := write_acts _ (LawfulStore.delete k s.inner)
  deleteAll ks s := write_acts _ (LawfulStore.deleteAll ks s.inner)
  load k s := load_acts (LawfulStore.load k s.inner)
  loadAll ks s := load_acts (LawfulStore.loadAll ks s.inner)
  loadKeys s := load_acts (LawfulStore.loadKeys s.inner)

instance [Store σ] [LawfulStore σ] [LoadsOnce σ] : LoadsOnce (Scripted σ) where
  length_loadAll hks s := by
    change (load (Store.loadAll _)).Ends s _ _
    rw [load, ends_bind, ends_get, ends_bind, ends_set]
    split
    · trivial
    · rw [onInner, ends_within]
      apply LoadsOnce.length_loadAll hks s.inner

end Scripted

end ChunkDispatch
