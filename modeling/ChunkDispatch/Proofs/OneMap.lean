import ChunkDispatch.Proofs.Adjustment
import ChunkDispatch.Proofs.Aggregation

/-!
# The grid as one map

The entries of all partitions together are *one map*.  Of a well filed grid the same can be looked
up in the one map as in the grid, so two grids with the same trackers have the same one map, however
many partitions they have.  Whatever is gathered from all partitions is read off the one map, and an
action which goes through all partitions does to the one map what it says at once.
-/

namespace ChunkDispatch

namespace SortedMap

variable {κ α : Type} [LT κ]

theorem values_filter (m : SortedMap κ α) (q : α → Bool) :
  (m.filter (fun _ a => q a)).values = m.values.filter q
  := by
  rw [values, values, List.filter_map]
  rfl

end SortedMap

namespace Grid

variable {p p' : Partitioner} {g : Grid p} {g' : Grid p'}

/-- The entries of all partitions. -/
def oneMap (g : Grid p) : Entries :=
  SortedMap.ofList (g.parts.flatMap SortedMap.toList)

theorem find?_oneMap (hg : g.WellFiled) (k : Key) :
  g.oneMap.find? k = g.find? k
  := by
  apply SortedMap.find?_ofList_eq
  intro k t
  simp only [parts, List.mem_flatMap, List.mem_map, ← SortedMap.find?_eq_some_iff]
  constructor
  · rintro ⟨_, ⟨i, -, rfl⟩, ht⟩
    obtain rfl := hg.home_eq i k t ht
    apply ht
  · intro ht
    exact ⟨_, ⟨p.home k, List.mem_finRange _, rfl⟩, ht⟩

/-- A map in which the same can be looked up is the one map. -/
theorem oneMap_eq (hg : g.WellFiled) {m : Entries} (h : ∀ k, g.find? k = m.find? k) :
  g.oneMap = m
  := by
  apply SortedMap.ext
  intro k
  rw [find?_oneMap hg, h]

/-! ### What is gathered from the partitions -/

theorem select_eq (hg : g.WellFiled) (q : Tracker → Bool) :
  g.select q = g.oneMap.filter (fun _ t => q t)
  := by
  apply SortedMap.ext
  intro k
  rw [find?_select hg, SortedMap.find?_filter, find?_oneMap hg]

theorem trackers_eq (hg : g.WellFiled) :
  g.trackers = g.oneMap.values
  := by
  rw [trackers, values, select_eq hg, SortedMap.values_filter]
  apply List.filter_eq_self.mpr
  exact fun _ _ => rfl

theorem findAll_eq (hg : g.WellFiled) (ks : List Key) :
  g.findAll ks = g.oneMap.filter (fun k _ => k ∈ ks)
  := by
  apply SortedMap.ext
  intro k
  rw [SortedMap.find?_filter, find?_oneMap hg, findAll]
  apply SortedMap.find?_ofList_eq
  intro k t
  simp only [List.mem_filterMap, Option.map_eq_some_iff, Option.filter_eq_some_iff,
    decide_eq_true_eq]
  constructor
  · rintro ⟨k', hk', t', ht', heq⟩
    cases heq
    exact ⟨ht', hk'⟩
  · rintro ⟨ht, hk⟩
    exact ⟨k, hk, t, ht, rfl⟩

/-- The partitions have as many entries as the one map. -/
theorem size_eq (hg : g.WellFiled) :
  g.size = g.oneMap.size
  := by
  have h : ∀ (ℓ : List Entries) n,
      ℓ.foldl (fun n es => n + es.size) n = n + (ℓ.map SortedMap.values).flatten.length := by
    intro ℓ
    induction ℓ with
    | nil => exact fun _ => rfl
    | cons es rest ih =>
      intro n
      rw [List.foldl_cons, ih, List.map_cons, List.flatten_cons, List.length_append,
        SortedMap.values, List.length_map, SortedMap.size, Nat.add_assoc]
  rw [size, h, Nat.zero_add, (perm_parts hg).length_eq, trackers_eq hg, SortedMap.values,
    List.length_map, SortedMap.size]

/-- A tally over the partitions counts what is in the one map. -/
theorem tally_eq {σ β : Type} {t : Tally σ β} (ht : t.AddsUp) (hg : g.WellFiled) :
  g.tally t = t.result (t.part g.oneMap.values)
  := by
  rw [tally, ht.ofParts_perm (perm_parts hg), trackers_eq hg]

end Grid

/-! ### What is done to all partitions -/

namespace Board

open Attempt

variable {p : Partitioner} {σ : Type} [Store σ] [LawfulStore σ] {b : Board p σ}

/-- The store works, and the grid is well filed. -/
structure Working (b : Board p σ) : Prop where
  works : LawfulStore.works b.store
  filed : b.grid.WellFiled

/--
Whatever is asked of all partitions of the board, or done to them, is asked of the map `m` or done
to it.
-/
structure ActsAs (b : Board p σ) (m : Entries) : Prop where
  values (q : Tracker → Bool) : b.grid.values q = (m.filter (fun _ t => q t)).values
  keys (q : Tracker → Bool) : b.grid.keys q = (m.filter (fun _ t => q t)).keys
  findAll (ks : List Key) : b.grid.findAll ks = m.filter (fun k _ => k ∈ ks)
  size : b.grid.size = m.size
  removeWhere (now : Instant) (q : Tracker → Bool) :
    (removeWhere now q).Yields b (fun ks b' =>
      ks = (m.filter (fun _ t => q t)).keySet ∧ b'.grid.oneMap = m.filter (fun _ t => !q t))
  adjustKeys (now : Instant) (ks : List Key) (c : Change) :
    (adjustKeys now ks c.apply).Yields b (fun rs b' =>
      rs = (m.filter (fun k _ => k ∈ ks)).map (fun t => (c.apply t).1) ∧
        b'.grid.oneMap = m.map (fun t => if t.key ∈ ks then amend now c.apply t else t))
  adjustWhere (now : Instant) (q : Tracker → Bool) (c : Change) :
    (adjustWhere now q c.apply).Yields b (fun rs b' =>
      rs = (m.filter (fun _ t => q t)).map (fun t => (c.apply t).1) ∧
        b'.grid.oneMap = m.map (fun t => if q t then amend now c.apply t else t))
  activeSinks (status : Option Status) :
    b.grid.tally (.activeSinks status) = (Tally.activeSinks status).part m.values
  jobCount (sink : Int32) :
    b.grid.tally (.jobCount sink)
      = (Tally.jobCount sink).result ((Tally.jobCount sink).part m.values)
  latest : b.grid.tally .latest = Tally.latest.part m.values
  statusCounts (now : Instant) (sinks : SortedSet Int32) :
    b.grid.tally (.statusCounts now sinks) = (Tally.statusCounts now sinks).part m.values
  statusCount (sink : Int32) (status : Status) :
    b.grid.tally (.statusCount sink status) = (Tally.statusCount sink status).part m.values
  sinkCounts (status : Status) :
    b.grid.tally (.sinkCounts status) = (Tally.sinkCounts status).part m.values

/-- Commits leave a working board. -/
theorem Working.commits {b' : Board p σ} {P : Option Tracker → Option Tracker → Prop}
    (hb : b.Working) (h : b.Commits P b') :
  b'.Working
  := ⟨h.works hb.works, h.filed hb.filed⟩

/-- What fails only where the store refuses it succeeds on a working board. -/
theorem Working.yields {α : Type} {x : Attempt (Board p σ) α} {Q : α → Board p σ → Prop}
    (hb : b.Working) (h : x.Ends b Q (fun _ => b.Refused)) :
  x.Yields b Q
  := by
  apply h.mono
  · exact fun _ _ => id
  · rintro _ _ ⟨hnot, -⟩
    apply hnot hb.works

/-- An action which commits only succeeds on a working board, and leaves one. -/
theorem CommitsOnly.yields_of_working {α : Type} {P : Option Tracker → Option Tracker → Prop}
    {x : Attempt (Board p σ) α} {Q : α → Board p σ → Prop} (hx : CommitsOnly P x)
    (hb : b.Working) (h : x.Ends b Q (fun _ _ => ¬ LawfulStore.works b.store)) :
  x.Yields b (fun a b' => b'.Working ∧ Q a b')
  := by
  apply ((hx b).and h).mono
  · rintro a b' ⟨hcommits, hq⟩
    exact ⟨hb.commits (hcommits hb.filed), hq⟩
  · rintro _ _ ⟨-, hnot⟩
    apply hnot hb.works

theorem removeWhere_oneMap (hb : b.Working) (now : Instant) (q : Tracker → Bool) :
  (removeWhere now q).Yields b (fun ks b' =>
    ks = (b.grid.oneMap.filter (fun _ t => q t)).keySet ∧
      b'.grid.oneMap = b.grid.oneMap.filter (fun _ t => !q t))
  := by
  have hx := commitsOnly_removeWhere (p := p) (σ := σ) now (q := q) (P := fun _ _ => True)
    (fun _ _ => trivial)
  apply (hx.yields_of_working hb (removeWhere_ends hb.filed now q)).mono
  rintro ks b' ⟨hb', hks, hfind⟩
  constructor
  · apply SortedSet.ext
    intro k
    rw [hks]
    change _ ↔ k ∈ SortedMap.keys _
    simp only [SortedMap.mem_keys_iff, SortedMap.find?_filter, Grid.find?_oneMap hb.filed,
      Option.filter_eq_some_iff]
  · apply Grid.oneMap_eq hb'.filed
    intro k
    rw [hfind, SortedMap.find?_filter, Grid.find?_oneMap hb.filed]

theorem adjustWhere_oneMap {α : Type} (hb : b.Working) (now : Instant) (q : Tracker → Bool)
    {f : Tracker → α × Tracker} (hf : ∀ t, (f t).2.key = t.key) :
  (adjustWhere now q f).Yields b (fun rs b' =>
    rs = (b.grid.oneMap.filter (fun _ t => q t)).map (fun t => (f t).1) ∧
      b'.grid.oneMap = b.grid.oneMap.map (fun t => if q t then amend now f t else t))
  := by
  have hx := commitsOnly_adjustWhere (p := p) (σ := σ) now (q := q) hf
    (P := fun _ _ => True) (fun _ _ => trivial)
  apply (hx.yields_of_working hb (adjustWhere_ends hb.filed now q hf)).mono
  rintro rs b' ⟨hb', hrs, hfind⟩
  constructor
  · apply SortedMap.ext
    intro k
    rw [hrs, SortedMap.find?_map, SortedMap.find?_filter, Grid.find?_oneMap hb.filed]
  · apply Grid.oneMap_eq hb'.filed
    intro k
    rw [hfind, SortedMap.find?_map, Grid.find?_oneMap hb.filed]

/-- A working board acts as the one map of its grid. -/
theorem Working.actsAs (hb : b.Working) :
  b.ActsAs b.grid.oneMap
  where
  values q := by rw [Grid.values, Grid.select_eq hb.filed]
  keys q := by rw [Grid.keys, Grid.select_eq hb.filed]
  findAll := Grid.findAll_eq hb.filed
  size := Grid.size_eq hb.filed
  removeWhere := removeWhere_oneMap hb
  adjustKeys now ks c := by
    apply (adjustWhere_oneMap hb now (fun t => t.key ∈ ks) c.apply_key).mono
    rintro rs b' ⟨hrs, hmap⟩
    constructor
    · rw [hrs]
      congr 1
      apply SortedMap.ext
      intro k
      rw [SortedMap.find?_filter, SortedMap.find?_filter, Grid.find?_oneMap hb.filed]
      cases ht : b.grid.find? k with
      | none => rfl
      | some t => simp only [Option.filter_some, hb.filed.key ht]
    · simpa using hmap
  adjustWhere now q c := adjustWhere_oneMap hb now q c.apply_key
  activeSinks status := Grid.tally_eq (Tally.addsUp_activeSinks status) hb.filed
  jobCount sink := Grid.tally_eq (Tally.addsUp_jobCount sink) hb.filed
  latest := Grid.tally_eq Tally.addsUp_latest hb.filed
  statusCounts now sinks := Grid.tally_eq (Tally.addsUp_statusCounts now sinks) hb.filed
  statusCount sink status := Grid.tally_eq (Tally.addsUp_statusCount sink status) hb.filed
  sinkCounts status := Grid.tally_eq (Tally.addsUp_sinkCounts status) hb.filed

end Board

end ChunkDispatch
