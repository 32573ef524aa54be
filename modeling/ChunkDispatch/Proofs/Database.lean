import ChunkDispatch.Proofs.Commit
import ChunkDispatch.Proofs.Row
import ChunkDispatch.Store.Call
import ChunkDispatch.Store.Database
import Mathlib.Data.List.Induction

/-!
# Statements of a database

What is in the table after a statement or a transaction is said as an end of the attempt: a
statement which is refused leaves the table as it was, and so does a transaction whose end or any
of whose edits is refused.  Where there is a table, nothing else makes them fail: a database
*answers* all requests which are made, or it *refuses* one of them.  Keys are grouped by job before
they are sent; the groups hold the keys which were grouped, so deleting group by group deletes
those.
-/

namespace ChunkDispatch

open Attempt

/-! ### Maps with other values -/

namespace SortedMap

variable {κ α β : Type} [LT κ]

theorem filter_map (q : κ → Bool) (f : α → β) (m : SortedMap κ α) :
  (m.map f).filter (fun k _ => q k) = (m.filter (fun k _ => q k)).map f
  := by
  apply toList_injective
  apply List.filter_map

variable [LE κ] [Std.IsLinearOrder κ] [Std.LawfulOrderLT κ] [DecidableEq κ]

theorem map_insert [DecidableLT κ] (f : α → β) (m : SortedMap κ α) (k : κ) (a : α) :
  (m.insert k a).map f = (m.map f).insert k (f a)
  := by
  apply ext
  intro k'
  rw [find?_map, find?_insert, find?_insert, find?_map]
  split <;> rfl

end SortedMap

/-! ### Trackers in the order of their keys -/

/-- Trackers in strictly ascending order of their keys are known by which they are. -/
theorem eq_of_pairwise_key {ts us : List Tracker} (hts : ts.Pairwise (fun t u => t.key < u.key))
    (hus : us.Pairwise (fun t u => t.key < u.key)) (h : ∀ t, t ∈ ts ↔ t ∈ us) :
  ts = us
  := by
  have hnodup : ∀ {vs : List Tracker}, vs.Pairwise (fun t u => t.key < u.key) → vs.Nodup := by
    intro vs hvs
    apply hvs.imp
    rintro t _ hlt rfl
    apply Std.lt_irrefl hlt
  apply List.Perm.eq_of_pairwise _ hts hus
  · apply (List.perm_ext_iff_of_nodup (hnodup hts) (hnodup hus)).mpr h
  · intro t u _ _ htu hut
    exact absurd (Std.lt_trans htu hut) Std.lt_irrefl

/-! ### Requests -/

namespace Refusals

variable {r r' r'' : Refusals}

/-- No request which was made since `r` was refused. -/
structure Answered (r r' : Refusals) : Prop where
  refuses : r'.refuses = r.refuses
  asked : r.asked ≤ r'.asked
  none : ∀ i, r.asked ≤ i → i < r'.asked → r.refuses i = false

instance : Std.Refl Answered where
  refl _ := ⟨rfl, Nat.le_refl _, fun _ hi hi' => absurd hi' (Nat.not_lt.mpr hi)⟩

theorem Answered.trans (h : r.Answered r') (h' : r'.Answered r'') :
  r.Answered r''
  where
    refuses := h'.refuses.trans h.refuses
    asked := Nat.le_trans h.asked h'.asked
    none := by
      intro i hi hi'
      rcases Nat.lt_or_ge i r'.asked with hlt | hge
      · apply h.none i hi hlt
      · rw [← h.refuses]
        apply h'.none i hge hi'

/-- A request which was made since `r` was refused. -/
def Refused (r r' : Refusals) : Prop :=
  ∃ i, r.asked ≤ i ∧ i < r'.asked ∧ r.refuses i = true

theorem Answered.refused (h : r.Answered r') (h' : r'.Refused r'') :
  r.Refused r''
  := by
  obtain ⟨i, hi, hi', hrefuses⟩ := h'
  refine ⟨i, Nat.le_trans h.asked hi, hi', ?_⟩
  rw [← h.refuses]
  exact hrefuses

theorem answered_advance (h : r.next = false) :
  r.Answered r.advance
  := by
  refine ⟨rfl, Nat.le_succ _, ?_⟩
  intro i hi hi'
  rwa [Nat.le_antisymm (Nat.lt_succ_iff.mp hi') hi]

theorem refused_advance (h : r.next = true) :
  r.Refused r.advance
  := ⟨r.asked, Nat.le_refl _, Nat.lt_succ_self _, h⟩

/-- Whether a request which was made since `r` was refused. -/
def refusedSince (r r' : Refusals) : Bool :=
  (List.range r'.asked).any (fun i => r.asked ≤ i && r.refuses i)

theorem refusedSince_iff :
  r.refusedSince r' = true ↔ r.Refused r'
  := by
  simp only [refusedSince, Refused, List.any_eq_true, List.mem_range, Bool.and_eq_true,
    decide_eq_true_eq]
  apply exists_congr
  exact fun _ => and_left_comm

theorem Answered.refusedSince_eq (h : r.Answered r') :
  r.refusedSince r' = false
  := by
  apply Bool.eq_false_iff.mpr
  intro hsince
  obtain ⟨i, hi, hi', hrefuses⟩ := refusedSince_iff.mp hsince
  cases hrefuses.symm.trans (h.none i hi hi')

end Refusals

namespace Database

/-! ### Keys by job -/

/-- The chunks of a job among some keys. -/
def chunksOf (job : Int32) (ks : List Key) : List Int32 :=
  (ks.filter (fun k => k.job = job)).map Key.chunk

theorem mem_chunksOf {k : Key} {ks : List Key} :
  k.chunk ∈ chunksOf k.job ks ↔ k ∈ ks
  := by
  rw [chunksOf, List.mem_map]
  constructor
  · rintro ⟨k', hk', hchunk⟩
    obtain ⟨hmem, hjob⟩ := List.mem_filter.mp hk'
    rwa [← Key.eq_of_job_of_chunk (of_decide_eq_true hjob) hchunk]
  · intro hk
    exact ⟨k, List.mem_filter.mpr ⟨hk, decide_eq_true rfl⟩, rfl⟩

/-- The group of a job holds its chunks, and a job without chunks has none. -/
theorem find?_byJob (ks : List Key) (job : Int32) :
  (byJob ks).find? job = if (chunksOf job ks).isEmpty then none else some (chunksOf job ks)
  := by
  induction ks using List.reverseRecOn with
  | nil => rfl
  | append_singleton rest k ih =>
    have hstep : byJob (rest ++ [k])
        = (byJob rest).alter k.job (fun chunks => chunks.getD [] ++ [k.chunk]) :=
      List.foldl_append
    have hchunks : chunksOf job (rest ++ [k])
        = chunksOf job rest ++ if k.job = job then [k.chunk] else [] := by
      by_cases hjob : k.job = job <;> simp [chunksOf, hjob]
    rw [hstep, SortedMap.find?_alter, hchunks]
    by_cases hjob : job = k.job
    · subst hjob
      rw [ih]
      cases chunksOf k.job rest <;> simp
    · rw [if_neg hjob, if_neg (Ne.symm hjob), List.append_nil, ih]

/-- The groups hold the keys which were grouped. -/
theorem exists_mem_byJob {ks : List Key} {k : Key} :
  (∃ e ∈ (byJob ks).toList, k.job = e.1 ∧ k.chunk ∈ e.2) ↔ k ∈ ks
  := by
  have hgroup : ∀ chunks, (k.job, chunks) ∈ (byJob ks).toList
      ↔ chunksOf k.job ks ≠ [] ∧ chunks = chunksOf k.job ks := by
    intro chunks
    rw [← SortedMap.find?_eq_some_iff, find?_byJob]
    cases chunksOf k.job ks <;> simp [eq_comm]
  constructor
  · rintro ⟨⟨job, chunks⟩, he, rfl, hchunk⟩
    rw [((hgroup chunks).mp he).2] at hchunk
    apply mem_chunksOf.mp hchunk
  · intro hk
    have hchunk := mem_chunksOf.mpr hk
    exact ⟨(k.job, chunksOf k.job ks), (hgroup _).mpr ⟨List.ne_nil_of_mem hchunk, rfl⟩, rfl, hchunk⟩

/-- What lies in a map under some keys, job by job. -/
def gathered {α : Type} (ks : List Key) (m : SortedMap Key α) : List α :=
  (byJob ks).toList.flatMap (fun e => (m.filter (fun k _ => k.job = e.1 ∧ k.chunk ∈ e.2)).values)

theorem mem_gathered {α : Type} {ks : List Key} {m : SortedMap Key α} {a : α} :
  a ∈ gathered ks m ↔ ∃ k ∈ ks, m.find? k = some a
  := by
  have hpart : ∀ e : Int32 × List Int32,
      a ∈ (m.filter (fun k _ => k.job = e.1 ∧ k.chunk ∈ e.2)).values
        ↔ ∃ k, m.find? k = some a ∧ k.job = e.1 ∧ k.chunk ∈ e.2 := by
    intro e
    rw [SortedMap.mem_values_iff]
    apply exists_congr
    intro k
    rw [SortedMap.find?_filter, Option.filter_eq_some_iff, decide_eq_true_eq]
  simp only [gathered, List.mem_flatMap, hpart, ← exists_mem_byJob]
  constructor
  · rintro ⟨e, he, k, hk, hke⟩
    exact ⟨k, ⟨e, he, hke⟩, hk⟩
  · rintro ⟨k, ⟨e, he, hke⟩, hk⟩
    exact ⟨e, he, k, hk, hke⟩

theorem gathered_map {α β : Type} (ks : List Key) (f : α → β) (m : SortedMap Key α) :
  gathered ks (m.map f) = (gathered ks m).map f
  := by
  simp only [gathered, SortedMap.filter_map, SortedMap.values_map, List.map_flatMap]

/-- Trackers are gathered in the order of their keys, each of them once. -/
theorem pairwise_gathered (ks : List Key) {m : Entries}
    (hm : ∀ k t, m.find? k = some t → t.key = k) :
  (gathered ks m).Pairwise (fun t u => t.key < u.key)
  := by
  have hpart : ∀ (e : Int32 × List Int32) k t,
      (m.filter (fun k _ => k.job = e.1 ∧ k.chunk ∈ e.2)).find? k = some t →
        t.key = k ∧ t.key.job = e.1 := by
    intro e k t ht
    rw [SortedMap.find?_filter, Option.filter_eq_some_iff, decide_eq_true_eq] at ht
    obtain ⟨hfind, hjob, -⟩ := ht
    obtain rfl := hm k t hfind
    exact ⟨rfl, hjob⟩
  apply List.pairwise_flatMap.mpr
  constructor
  · intro e _
    apply SortedMap.pairwise_values_key (fun k t ht => (hpart e k t ht).1)
  · apply (byJob ks).ascending.imp
    intro e e' hlt t ht u hu
    obtain ⟨k, hk⟩ := SortedMap.mem_values_iff.mp ht
    obtain ⟨k', hk'⟩ := SortedMap.mem_values_iff.mp hu
    left
    rw [(hpart e k t hk).2, (hpart e' k' u hk').2]
    exact hlt

/-- Deleting group by group deletes the keys of all groups. -/
theorem find?_foldl_deleteMany (groups : List (Int32 × List Int32)) (t : Table) (k : Key) :
  ((groups.map (fun e => Edit.deleteMany e.1 e.2)).foldl (fun t e => e.apply t) t).find? k
    = if ∃ e ∈ groups, k.job = e.1 ∧ k.chunk ∈ e.2 then none else t.find? k
  := by
  induction groups generalizing t with
  | nil => simp
  | cons e rest ih =>
    rw [List.map_cons, List.foldl_cons, ih, Edit.apply, SortedMap.find?_filter]
    simp only [List.mem_cons, exists_eq_or_imp]
    by_cases hfirst : k.job = e.1 ∧ k.chunk ∈ e.2
    · simp [hfirst]
    · by_cases hrest : ∃ e ∈ rest, k.job = e.1 ∧ k.chunk ∈ e.2
      · rw [if_pos hrest, if_pos (Or.inr hrest)]
      · rw [if_neg hrest, if_neg (not_or.mpr ⟨hfirst, hrest⟩)]
        cases t.find? k <;> simp [hfirst]

/-! ### Statements -/

variable {db db' db'' : Database} {t t' : Table} {α : Type}

/-- The table is `t` after requests since `db` none of which was refused. -/
structure Answers (db : Database) (t : Table) (db' : Database) : Prop where
  table : db'.table = some t
  answered : db.refusals.Answered db'.refusals

/-- The table is `t` after requests since `db` one of which was refused. -/
structure Refuses (db : Database) (t : Table) (db' : Database) : Prop where
  table : db'.table = some t
  refused : db.refusals.Refused db'.refusals

theorem answers_self (h : db.table = some t) :
  db.Answers t db
  := ⟨h, Std.Refl.refl _⟩

theorem Answers.trans (h : db.Answers t db') (h' : db'.Answers t' db'') :
  db.Answers t' db''
  := ⟨h'.table, h.answered.trans h'.answered⟩

theorem Answers.refuses (h : db.Answers t db') (h' : db'.Refuses t' db'') :
  db.Refuses t' db''
  := ⟨h'.table, h.answered.refused h'.refused⟩

/-- A request does not touch the table, whether it is refused or not. -/
theorem request_ends (h : db.table = some t) :
  request.Ends db (fun _ => db.Answers t) (fun _ => db.Refuses t)
  := by
  rw [request, ends_bind, ends_get, ends_bind, ends_set]
  split
  · exact ⟨h, Refusals.refused_advance ‹_›⟩
  · exact ⟨h, Refusals.answered_advance (Bool.eq_false_iff.mpr ‹_›)⟩

theorem onTable_ends (f : Table → α × Table) (h : db.table = some t) :
  (onTable f).Ends db (fun a db' => a = (f t).1 ∧ db.Answers (f t).2 db') (fun _ => db.Refuses t)
  := by
  rw [onTable, ends_bind]
  apply (request_ends h).mono
  · rintro _ db' ⟨hdb', hanswered⟩
    rw [ends_bind, ends_get, hdb']
    exact ⟨rfl, rfl, hanswered⟩
  · exact fun _ _ => id

/-- A query comes to what it reads off the table. -/
theorem query_ends (s : Statement) (f : Table → α) (h : db.table = some t) :
  (query s f).Ends db (fun a db' => a = f t ∧ db.Answers t db') (fun _ => db.Refuses t)
  := by
  rw [query, ends_bind]
  apply (onTable_ends _ h).mono
  · rintro _ db' ⟨rfl, hdb', hanswered⟩
    rw [ends_bind, note, ends_modify, ends_pure]
    exact ⟨rfl, hdb', hanswered⟩
  · exact fun _ _ => id

theorem edit_ends (e : Edit) (h : db.table = some t) :
  (edit e).Ends db (fun _ => db.Answers (e.apply t)) (fun _ => db.Refuses t)
  := by
  apply (onTable_ends _ h).mono
  · exact fun _ _ => And.right
  · exact fun _ _ => id

/-- An edit on its own, and what is noted of it. -/
theorem edit_note_ends (e : Edit) (s : Statement) (h : db.table = some t) :
  (do edit e; note s).Ends db (fun _ => db.Answers (e.apply t)) (fun _ => db.Refuses t)
  := by
  rw [ends_bind]
  apply (edit_ends e h).mono
  · rintro _ db' ⟨hdb', hanswered⟩
    rw [note, ends_modify]
    exact ⟨hdb', hanswered⟩
  · exact fun _ _ => id

/-- Edits sent one after another are all made, unless one of them is refused. -/
theorem forM_edit_ends (es : List Edit) (h : db.table = some t) :
  (es.forM edit).Ends db (fun _ => db.Answers (es.foldl (fun t e => e.apply t) t))
    (fun _ db' => db.refusals.Refused db'.refusals)
  := by
  induction es generalizing db t with
  | nil => exact answers_self h
  | cons e rest ih =>
    apply (ends_bind _ _).mpr
    apply (edit_ends e h).mono
    · intro _ db₁ hfirst
      apply (ih hfirst.table).mono
      · exact fun _ _ => hfirst.trans
      · exact fun _ _ => hfirst.answered.refused
    · exact fun _ _ => Refuses.refused

/-- What a transaction did is undone where it fails, or where its end is refused. -/
theorem transaction_ends {x : Attempt Database α} (h : db.table = some t)
    (hx : x.Ends db (fun _ => db.Answers t') (fun _ db' => db.refusals.Refused db'.refusals)) :
  (transaction x).Ends db (fun _ => db.Answers t') (fun _ => db.Refuses t)
  := by
  have hend : (do let a ← x; request; return a).Ends db (fun _ => db.Answers t')
      (fun _ db' => db.refusals.Refused db'.refusals) := by
    rw [ends_bind]
    apply hx.mono
    · intro a db₁ hmade
      rw [ends_bind]
      apply (request_ends hmade.table).mono
      · exact fun _ _ => hmade.trans
      · exact fun _ _ hrefuses => hmade.answered.refused hrefuses.refused
    · exact fun _ _ => id
  rw [Ends] at hend ⊢
  rw [transaction]
  split at hend
  · rename_i a db' heq
    rw [heq]
    exact hend
  · rename_i e db' heq
    rw [heq]
    exact ⟨h, hend⟩

/-- Edits which are committed are all made, or none is. -/
theorem commit_ends (es : List Edit) (h : db.table = some t) :
  (commit es).Ends db (fun _ => db.Answers (es.foldl (fun t e => e.apply t) t))
    (fun _ => db.Refuses t)
  := by
  rw [commit]
  split
  · rename_i hempty
    obtain rfl := List.isEmpty_iff.mp hempty
    exact answers_self h
  · rw [ends_bind]
    apply (transaction_ends h (forM_edit_ends es h)).mono
    · rintro _ db' ⟨hdb', hanswered⟩
      rw [note, ends_modify]
      exact ⟨hdb', hanswered⟩
    · exact fun _ _ => id

end Database

end ChunkDispatch
