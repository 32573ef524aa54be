import ChunkDispatch.Proofs.Board
import ChunkDispatch.Proofs.Change

/-!
# Changes of trackers on the board

`amend now f t` is what becomes of the tracker `t` when `f` is applied to it at `now`.  Adjusting
a key amends its tracker, and adjusting where a query holds amends the trackers which satisfy it;
both come to the results of `f`.  Loading puts the rows of the store into the grid.
-/

namespace ChunkDispatch.Board

open Attempt

variable {p : Partitioner} {σ : Type} {α : Type}

/-- The tracker `t` as `f` leaves it, marked as changed if it is another. -/
def amend (now : Instant) (f : Tracker → α × Tracker) (t : Tracker) : Tracker :=
  (changed? now t (f t).2).getD t

/-- An amended tracker is what `f` makes of it, but for the instant of the last change. -/
theorem exists_amend_eq (now : Instant) (f : Tracker → α × Tracker) (t : Tracker) :
  ∃ m, amend now f t = { (f t).2 with lastModified := m }
  := by
  unfold amend changed?
  split
  · rename_i h
    use t.lastModified
    rw [h]
    rfl
  · use now.wholeMicros
    rfl

theorem amend_eq_of_changed? {now : Instant} {f : Tracker → α × Tracker} {t u : Tracker}
    (h : changed? now t (f t).2 = some u) :
  amend now f t = u
  := by
  rw [amend, h]
  rfl

theorem amend_eq_of_unchanged {now : Instant} {f : Tracker → α × Tracker} {t : Tracker}
    (h : changed? now t (f t).2 = none) :
  amend now f t = t
  := by
  rw [amend, h]
  rfl

theorem amend_key {now : Instant} {f : Tracker → α × Tracker} (hf : ∀ t, (f t).2.key = t.key)
    (t : Tracker) :
  (amend now f t).key = t.key
  := by
  obtain ⟨m, hm⟩ := exists_amend_eq now f t
  rw [hm]
  apply hf

theorem amend_waitingOn (now : Instant) (f : Tracker → α × Tracker) (t : Tracker) :
  (amend now f t).waitingOn = (f t).2.waitingOn
  := by
  obtain ⟨m, hm⟩ := exists_amend_eq now f t
  rw [hm]

theorem amend_lane (now : Instant) (f : Tracker → α × Tracker) (t : Tracker) :
  (amend now f t).lane = (f t).2.lane
  := by
  obtain ⟨m, hm⟩ := exists_amend_eq now f t
  rw [hm]
  rfl

theorem amend_status (now : Instant) (f : Tracker → α × Tracker) (t : Tracker) :
  (amend now f t).status = (f t).2.status
  := by
  obtain ⟨m, hm⟩ := exists_amend_eq now f t
  rw [hm]

theorem amend_isLive (now : Instant) (f : Tracker → α × Tracker) (t : Tracker) :
  (amend now f t).isLive = (f t).2.isLive
  := by
  obtain ⟨m, hm⟩ := exists_amend_eq now f t
  rw [hm]
  rfl

/-- A change is as it is when it is marked. -/
theorem trims_amend (now : Instant) {f : Tracker → α × Tracker} {t : Tracker}
    (h : t.Trims (f t).2) :
  t.Trims (amend now f t)
  := by
  obtain ⟨m, hm⟩ := exists_amend_eq now f t
  rw [hm]
  exact ⟨h.lane, h.hashes, h.within, h.consistent⟩

theorem eases_amend (now : Instant) {f : Tracker → α × Tracker} {t : Tracker}
    (h : t.Eases (f t).2) :
  t.Eases (amend now f t)
  := by
  use trims_amend now h.toTrims
  rw [amend_isLive]
  apply h.live

theorem steady_amend (now : Instant) {f : Tracker → α × Tracker} {t : Tracker}
    (h : t.Steady (f t).2) :
  t.Steady (amend now f t)
  := by
  obtain ⟨m, hm⟩ := exists_amend_eq now f t
  rw [hm]
  exact ⟨h.lane, h.hashes, h.waitingOn, h.consistent, h.isLive⟩

/-! ### Changed trackers -/

/-- The trackers of a partition which satisfy `q`. -/
def selectedIn (q : Tracker → Bool) (g : Grid p) (i : Fin p.count) : List Tracker :=
  ((g.partition i).filter (fun _ t => q t)).values

theorem mem_selectedIn {g : Grid p} (hg : g.WellFiled) (q : Tracker → Bool) (i : Fin p.count)
    (t : Tracker) :
  t ∈ selectedIn q g i ↔ g.find? t.key = some t ∧ p.home t.key = i ∧ q t = true
  := by
  simp only [selectedIn, SortedMap.mem_values_iff, SortedMap.find?_filter, hg.find?_partition,
    Option.filter_eq_some_iff]
  constructor
  · rintro ⟨k, hk, hq⟩
    split at hk
    · rename_i hi
      obtain rfl := hg.key hk
      exact ⟨hk, hi, hq⟩
    · cases hk
  · rintro ⟨ht, hi, hq⟩
    refine ⟨t.key, ?_, hq⟩
    rw [if_pos hi, ht]

theorem pairwise_selectedIn {g : Grid p} (hg : g.WellFiled) (q : Tracker → Bool)
    (i : Fin p.count) :
  (selectedIn q g i).Pairwise (fun t u => t.key ≠ u.key)
  := by
  apply SortedMap.pairwise_values
  intro k t ht
  rw [SortedMap.find?_filter, Option.filter_eq_some_iff] at ht
  apply hg.key_eq i k t ht.1

/-- The trackers of a partition which satisfy `q` and are changed by `f`, after the change. -/
def changedIn (now : Instant) (q : Tracker → Bool) (f : Tracker → α × Tracker) (g : Grid p)
    (i : Fin p.count) : List Tracker :=
  (selectedIn q g i).filterMap (fun t => changed? now t (f t).2)

theorem mem_changedIn {g : Grid p} (hg : g.WellFiled) (now : Instant) (q : Tracker → Bool)
    (f : Tracker → α × Tracker) (i : Fin p.count) (u : Tracker) :
  u ∈ changedIn now q f g i ↔ ∃ t, g.find? t.key = some t ∧ p.home t.key = i ∧ q t = true ∧
    changed? now t (f t).2 = some u
  := by
  simp only [changedIn, List.mem_filterMap, mem_selectedIn hg, and_assoc]

section Changed

variable {f : Tracker → α × Tracker} (hf : ∀ t, (f t).2.key = t.key)

include hf

theorem key_of_changed? {now : Instant} {t u : Tracker} (h : changed? now t (f t).2 = some u) :
  u.key = t.key
  := by
  rw [← amend_eq_of_changed? h, amend_key hf]

/-- No two changed trackers of a partition have one key. -/
theorem nodup_changedIn {g : Grid p} (hg : g.WellFiled) (now : Instant) (q : Tracker → Bool)
    (i : Fin p.count) :
  ((changedIn now q f g i).map Tracker.key).Nodup
  := by
  apply List.pairwise_map.mpr
  apply (pairwise_selectedIn hg q i).filterMap
  intro t t' hne u hu u' hu'
  rw [key_of_changed? hf hu, key_of_changed? hf hu']
  apply hne

/-- A changed tracker of a partition is what became of the one found under its key. -/
theorem exists_of_mem_changedIn {g : Grid p} (hg : g.WellFiled) {now : Instant}
    {q : Tracker → Bool} {i : Fin p.count} {u : Tracker} (hu : u ∈ changedIn now q f g i) :
  ∃ t, g.find? u.key = some t ∧ p.home u.key = i ∧ q t = true ∧ u = amend now f t
  := by
  obtain ⟨t, ht, hi, hq, hc⟩ := (mem_changedIn hg now q f i u).mp hu
  rw [key_of_changed? hf hc]
  use t, ht, hi, hq
  rw [amend_eq_of_changed? hc]

/-- The changed trackers of a partition, put into the grid, amend those which satisfy `q`. -/
theorem find?_changedIn {g : Grid p} (hg : g.WellFiled) (now : Instant) (q : Tracker → Bool)
    (i : Fin p.count) (k : Key) :
  ((changedIn now q f g i).foldl (fun g t => g.insert t) g).find? k
    = if p.home k = i then (g.find? k).map (fun t => if q t then amend now f t else t)
      else g.find? k
  := by
  by_cases hchanged : ∃ u ∈ changedIn now q f g i, u.key = k
  · obtain ⟨u, hu, rfl⟩ := hchanged
    obtain ⟨t, ht, hi, hq, hut⟩ := exists_of_mem_changedIn hf hg hu
    rw [Grid.find?_foldl_insert_of_mem hu]
    · rw [if_pos hi, ht, Option.map_some, if_pos hq, hut]
    · intro v hv hvu
      obtain ⟨t', ht', -, -, hvt⟩ := exists_of_mem_changedIn hf hg hv
      rw [hvu, ht] at ht'
      cases ht'
      rw [hvt, hut]
  · rw [Grid.find?_foldl_insert_of_forall_ne (fun u hu hk => hchanged ⟨u, hu, hk⟩)]
    split
    · rename_i hi
      cases ht : g.find? k with
      | none => rfl
      | some t =>
        obtain rfl := hg.key ht
        rw [Option.map_some]
        split
        · rename_i hq
          rw [amend_eq_of_unchanged]
          cases hc : changed? now t (f t).2 with
          | none => rfl
          | some u =>
            have hu := (mem_changedIn hg now q f i u).mpr ⟨t, ht, hi, hq, hc⟩
            exact absurd ⟨u, hu, key_of_changed? hf hc⟩ hchanged
        · rfl
    · rfl

end Changed

/-! ### Adjusting one key -/

variable [Store σ] [LawfulStore σ] {b b' : Board p σ} {P : Option Tracker → Option Tracker → Prop}

/-- What is found under a key and changed by `f`, after the change. -/
def changedAt (now : Instant) (f : Tracker → α × Tracker) (g : Grid p) (k : Key) : List Tracker :=
  ((g.find? k).bind (fun t => changed? now t (f t).2)).toList

/-- At most one tracker is found and changed. -/
theorem nodup_changedAt (now : Instant) (f : Tracker → α × Tracker) (g : Grid p) (k : Key) :
  ((changedAt now f g k).map Tracker.key).Nodup
  := by
  rw [changedAt]
  cases (g.find? k).bind (fun t => changed? now t (f t).2) with
  | none => apply List.Pairwise.nil
  | some u => apply List.pairwise_singleton

theorem eq_of_mem_changedAt {now : Instant} {f : Tracker → α × Tracker} {g : Grid p} {k : Key}
    {u v : Tracker} (hu : u ∈ changedAt now f g k) (hv : v ∈ changedAt now f g k) :
  u = v
  := by
  rw [changedAt, Option.mem_toList] at hu hv
  apply Option.some.inj (hu.symm.trans hv)

theorem exists_of_mem_changedAt {now : Instant} {f : Tracker → α × Tracker} {g : Grid p} {k : Key}
    {u : Tracker} (hu : u ∈ changedAt now f g k) :
  ∃ t, g.find? k = some t ∧ u = amend now f t
  := by
  rw [changedAt, Option.mem_toList] at hu
  obtain ⟨t, ht, hc⟩ := Option.bind_eq_some_iff.mp hu
  exact ⟨t, ht, (amend_eq_of_changed? hc).symm⟩

/-- Adjusting a key puts its tracker if that is changed; the result is that of the change. -/
theorem adjust_ends (b : Board p σ) (now : Instant) (k : Key) (f : Tracker → α × Tracker) :
  (adjust now k f).Ends b
    (fun a b' => a = (b.grid.find? k).map (fun t => (f t).1) ∧
      b.Puts now (changedAt now f b.grid k) b')
    (fun _ => b.Refused)
  := by
  rw [adjust, ends_bind, ends_get, changedAt]
  cases b.grid.find? k with
  | none =>
    rw [ends_pure]
    exact ⟨rfl, puts_nil now b⟩
  | some t =>
    simp only [Option.bind_some]
    cases changed? now t (f t).2 with
    | none =>
      rw [ends_pure]
      exact ⟨rfl, puts_nil now b⟩
    | some u =>
      rw [ends_bind]
      apply (set_ends b now u).mono
      · intro _ b' h
        rw [ends_pure]
        exact ⟨rfl, h⟩
      · exact fun _ _ => id

theorem find?_changedAt {now : Instant} {f : Tracker → α × Tracker}
    (hf : ∀ t, (f t).2.key = t.key) (hb : b.grid.WellFiled) {k : Key}
    (h : b.Puts now (changedAt now f b.grid k) b') (k' : Key) :
  b'.grid.find? k' = if k' = k then (b.grid.find? k).map (amend now f) else b.grid.find? k'
  := by
  rw [h.grid, changedAt]
  cases ht : b.grid.find? k with
  | none =>
    change b.grid.find? k' = _
    split
    · rename_i hk
      rw [hk, ht]
      rfl
    · rfl
  | some t =>
    rw [Option.bind_some, Option.map_some, amend]
    cases hc : changed? now t (f t).2 with
    | none =>
      change b.grid.find? k' = _
      split
      · rename_i hk
        rw [hk, ht]
        rfl
      · rfl
    | some u =>
      change (b.grid.insert u).find? k' = _
      rw [Grid.find?_insert, key_of_changed? hf hc, hb.key ht]
      rfl

theorem commitsOnly_adjust (now : Instant) (k : Key) {f : Tracker → α × Tracker}
    (hf : ∀ t, (f t).2.key = t.key) (hP : ∀ t, t.key = k → P (some t) (some (amend now f t))) :
  CommitsOnly P (adjust now k f : Attempt (Board p σ) (Option α))
  := by
  apply commitsOnly_of_ends (fun b _ => adjust_ends b now k f)
  rintro b _ b' hb ⟨-, h⟩
  apply Commit.put h (nodup_changedAt now f b.grid k)
  intro u hu
  obtain ⟨t, ht, hc⟩ := Option.bind_eq_some_iff.mp (Option.mem_toList.mp hu)
  rw [key_of_changed? hf hc, hb.key ht, ht, ← amend_eq_of_changed? hc]
  apply hP t (hb.key ht)

/-! ### Adjusting where a query holds -/

theorem adjustIn_ends (b : Board p σ) (now : Instant) (q : Tracker → Bool)
    (f : Tracker → α × Tracker) (i : Fin p.count) :
  (adjustIn now q f i).Ends b
    (fun rs b' => rs = (selectedIn q b.grid i).map (fun t => (t.key, (f t).1)) ∧
      b.Puts now (changedIn now q f b.grid i) b')
    (fun _ => b.Refused)
  := by
  rw [adjustIn, ends_bind, ends_get]
  simp only []
  rw [← selectedIn, ← changedIn]
  generalize changedIn now q f b.grid i = changed
  split
  · rw [ends_bind]
    apply (onStore_ends (LawfulStore.putAll changed b.store)).mono
    · rintro _ _ ⟨s, hrows, hworks, rfl⟩
      rw [ends_bind, ends_modify, ends_pure]
      exact ⟨rfl, s, hrows, hworks, rfl⟩
    · exact fun _ _ => id
  · rename_i hempty
    obtain rfl : changed = [] := by simpa using hempty
    exact ⟨rfl, puts_nil now b⟩

theorem visits_adjustIn (now : Instant) (q : Tracker → Bool) {f : Tracker → α × Tracker}
    (hf : ∀ t, (f t).2.key = t.key) (i : Fin p.count) :
  Visits (Option.map (fun t => if q t then amend now f t else t))
    (fun k o r => ∃ t, o = some t ∧ q t = true ∧ r = (k, (f t).1)) i
    (adjustIn now q f i : Attempt (Board p σ) (List (Key × α)))
  := by
  intro b hb
  apply (adjustIn_ends b now q f i).mono
  · rintro rs b' ⟨rfl, h⟩
    refine ⟨?_, h.works, ?_, ?_⟩
    · rw [h.grid]
      apply hb.insertAll
    · intro r
      simp only [List.mem_map, mem_selectedIn hb]
      constructor
      · rintro ⟨t, ⟨ht, hi, hq⟩, rfl⟩
        exact ⟨t.key, hi, t, ht, hq, rfl⟩
      · rintro ⟨k, hi, t, ht, hq, rfl⟩
        obtain rfl := hb.key ht
        exact ⟨t, ⟨ht, hi, hq⟩, rfl⟩
    · intro k
      rw [h.grid, find?_changedIn hf hb]
  · exact fun _ _ h => h.1

theorem commitsOnly_adjustWhere (now : Instant) {q : Tracker → Bool} {f : Tracker → α × Tracker}
    (hf : ∀ t, (f t).2.key = t.key) (hP : ∀ t, q t = true → P (some t) (some (amend now f t))) :
  CommitsOnly P (adjustWhere now q f : Attempt (Board p σ) (SortedMap Key α))
  := by
  apply walks_bind_pure
  apply walks_mapM
  intro i
  apply commitsOnly_of_ends (fun b _ => adjustIn_ends b now q f i)
  rintro b _ b' hb ⟨-, h⟩
  apply Commit.put h
  · apply nodup_changedIn hf hb
  · intro u hu
    obtain ⟨t, ht, -, hq, hut⟩ := exists_of_mem_changedIn hf hb hu
    rw [ht, hut]
    apply hP t hq

/-- The trackers which satisfy `q` are amended, and no others; the results are those of `f`. -/
theorem adjustWhere_ends (hb : b.grid.WellFiled) (now : Instant) (q : Tracker → Bool)
    {f : Tracker → α × Tracker} (hf : ∀ t, (f t).2.key = t.key) :
  (adjustWhere now q f).Ends b
    (fun rs b' =>
      (∀ k, rs.find? k = ((b.grid.find? k).filter q).map (fun t => (f t).1)) ∧
      ∀ k, b'.grid.find? k = (b.grid.find? k).map (fun t => if q t then amend now f t else t))
    (fun _ _ => ¬ LawfulStore.works b.store)
  := by
  rw [adjustWhere, ends_bind]
  apply (mapM_partitions_ends (visits_adjustIn now q hf) hb).mono
  · rintro rss b' ⟨hrss, hfind⟩
    rw [ends_pure]
    refine ⟨?_, hfind⟩
    apply SortedMap.find?_ofList_eq
    intro k a
    simp only [hrss, Option.map_eq_some_iff, Option.filter_eq_some_iff]
    constructor
    · rintro ⟨k', t, ht, hq, heq⟩
      cases heq
      exact ⟨t, ⟨ht, hq⟩, rfl⟩
    · rintro ⟨t, ⟨ht, hq⟩, rfl⟩
      exact ⟨k, t, ht, hq, rfl⟩
  · exact fun _ _ => id

/-! ### Loading -/

/-- The grid becomes that of the rows, or the store refuses and nothing comes of it. -/
theorem loadAll_ends (b : Board p σ) :
  (loadAll : Attempt (Board p σ) Nat).Ends b
    (fun n b' => ∃ s ts, LawfulStore.rows s = LawfulStore.rows b.store ∧
      (LawfulStore.works b.store → LawfulStore.works s) ∧
      (∀ t, t ∈ ts ↔ ∃ k, (LawfulStore.rows b.store).find? k = some t) ∧ n = ts.length ∧
      b' = { b with store := s, grid := .ofTrackers p ts })
    (fun _ => b.Refused)
  := by
  rw [loadAll, ends_bind]
  apply (onStore_ends (LawfulStore.loadKeys b.store)).mono
  · rintro keys _ ⟨s, ⟨hkeys, hrows⟩, hworks, rfl⟩
    rw [ends_bind]
    apply (onStore_ends (b := { b with store := s }) (LawfulStore.loadAll keys s)).mono
    · rintro ts _ ⟨s', ⟨hts, hrows'⟩, hworks', rfl⟩
      rw [ends_bind, ends_modify, ends_pure]
      refine ⟨s', ts, ?_, fun h => hworks' (hworks h), ?_, rfl, rfl⟩
      · rw [hrows', hrows]
      · intro t
        rw [hts, hkeys, hrows]
        apply exists_congr
        intro k
        apply and_iff_right_of_imp
        intro hk
        apply SortedMap.mem_keys_iff.mpr ⟨t, hk⟩
    · rintro _ _ ⟨hnot, s', hrows', rfl⟩
      exact ⟨fun h => hnot (hworks h), s', hrows'.trans hrows, rfl⟩
  · exact fun _ _ => id

/-- If every row lies under its own key, the rows are found in the grid of them. -/
theorem find?_ofTrackers_rows {rows : Entries}
    (hkeyed : ∀ k t, rows.find? k = some t → t.key = k) {ts : List Tracker}
    (hts : ∀ t, t ∈ ts ↔ ∃ k, rows.find? k = some t) (k : Key) :
  (Grid.ofTrackers p ts).find? k = rows.find? k
  := by
  have hmem : ∀ t, t ∈ ts ↔ rows.find? t.key = some t := by
    intro t
    rw [hts]
    constructor
    · rintro ⟨k, hk⟩
      obtain rfl := hkeyed k t hk
      apply hk
    · intro ht
      use t.key
  cases hk : rows.find? k with
  | none =>
    apply (Grid.find?_foldl_insert_of_forall_ne _ _).trans (Grid.find?_empty k)
    rintro t ht rfl
    cases hk.symm.trans ((hmem t).mp ht)
  | some t =>
    obtain rfl := hkeyed k t hk
    apply Grid.find?_foldl_insert_of_mem ((hmem t).mpr hk)
    intro u hu hut
    apply Option.some.inj
    rw [← hk, ← hut, (hmem u).mp hu]

theorem Coherent.keyed (hb : b.Coherent) (k : Key) (t : Tracker)
    (ht : (LawfulStore.rows b.store).find? k = some t) :
  t.key = k
  := by
  rw [hb.agree] at ht
  apply hb.filed.key ht

/-- A board whose rows lie under their own keys is coherent once they are loaded. -/
theorem loadAll_coherent
    (hkeyed : ∀ k t, (LawfulStore.rows b.store).find? k = some t → t.key = k) :
  (loadAll : Attempt (Board p σ) Nat).Ends b
    (fun _ b' => b'.Coherent ∧ (LawfulStore.works b.store → LawfulStore.works b'.store) ∧
      ∀ k, b'.grid.find? k = (LawfulStore.rows b.store).find? k)
    (fun _ => b.Refused)
  := by
  apply (loadAll_ends b).mono
  · rintro _ _ ⟨s, ts, hrows, hworks, hts, -, rfl⟩
    have hfind := find?_ofTrackers_rows (p := p) hkeyed hts
    refine ⟨⟨Grid.wellFiled_ofTrackers ts, ?_⟩, hworks, hfind⟩
    intro k
    rw [hrows, hfind]
  · exact fun _ _ => id

/-- Loading shows the trackers that were there before. -/
theorem loadAll_yields (hb : b.Sound) :
  (loadAll : Attempt (Board p σ) Nat).Yields b
    (fun _ b' => b'.Sound ∧ ∀ k, b'.grid.find? k = b.grid.find? k)
  := by
  have hcoherent : b.Coherent := ⟨hb.filed, hb.coherent⟩
  apply (loadAll_coherent hcoherent.keyed).mono
  · rintro _ b' ⟨hb', hworks, hfind⟩
    use hb'.sound (hworks hb.works)
    intro k
    rw [hfind, hb.coherent]
  · exact fun _ _ h => h.1 hb.works

end ChunkDispatch.Board
