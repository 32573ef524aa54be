import ChunkDispatch.Proofs.CompletionOrder
import ChunkDispatch.Proofs.Release

/-!
# What a repair makes of the trackers

A tracker is *broken* if it is blocked and some of its prerequisites are gone.  A repair takes the
broken trackers in the order of their keys, frees each of what is gone, and sends it if that frees
it.  What is gone is known before the first is repaired, and no repair makes a chunk live or gone.
So afterwards nobody waits for what is gone, and a second repair finds nothing to do.  Where nobody
waits for what is gone, to remove a chunk and then to repair comes to the same as to complete it.
-/

namespace ChunkDispatch

open Attempt

/-! ### Several keys freed -/

namespace Board

variable {p : Partitioner} {σ : Type} [Store σ] [LawfulStore σ] {b b' b'' : Board p σ}
variable {now : Instant}

/-- The tracker of each key on the list is freed of the keys beside it, and nothing else changes. -/
structure FreesAll (now : Instant) (found : List (Key × List Key)) (b b' : Board p σ) : Prop where
  filed : b'.grid.WellFiled
  works : LawfulStore.works b.store → LawfulStore.works b'.store
  each : ∀ e ∈ found, b'.grid.find? e.1 = (b.grid.find? e.1).map (Tracker.freed now e.2)
  others : ∀ j, j ∉ found.map Prod.fst → b'.grid.find? j = b.grid.find? j

theorem freesAll_nil (hb : b.grid.WellFiled) (now : Instant) :
  b.FreesAll now [] b
  := by
  use hb, id
  · exact fun _ he => absurd he List.not_mem_nil
  · exact fun _ _ => rfl

theorem Frees.cons_all {k : Key} {gone : List Key} {found : List (Key × List Key)}
    (h : b.Frees now k gone b') (h' : b'.FreesAll now found b'') (hk : k ∉ found.map Prod.fst) :
  b.FreesAll now ((k, gone) :: found) b''
  := by
  use h'.filed, fun hb => h'.works (h.works hb)
  · rw [List.forall_mem_cons]
    constructor
    · rw [h'.others k hk, h.itself]
    · intro e he
      have hne : e.1 ≠ k := by
        rintro rfl
        apply hk (List.mem_map_of_mem he)
      rw [h'.each e he, h.others e.1 hne]
  · intro j hj
    rw [List.map_cons, List.mem_cons, not_or] at hj
    rw [h'.others j hj.2, h.others j hj.1]

end Board

namespace Scheduler

variable {p : Partitioner} {σ : Type} {s s' : Scheduler p σ} {t : Tracker}

/-! ### Repaired trackers -/

/-- What a repair makes of a tracker. -/
def repaired (s : Scheduler p σ) (now : Instant) (t : Tracker) : Tracker :=
  t.freed now (s.goneFrom t)

theorem undated_repaired (now : Instant) :
  (s.repaired now t).undated = t.undated.relieved (s.goneFrom t)
  := by
  obtain ⟨m, hm⟩ := Tracker.exists_freed_eq now (s.goneFrom t) t
  rw [repaired, hm]
  rfl

/-- A tracker which waits for nothing that is gone is left as it is. -/
theorem repaired_of_goneFrom_eq_nil (now : Instant) (h : s.goneFrom t = []) :
  s.repaired now t = t
  := by
  rw [repaired, h]
  rfl

theorem isEmpty_filter_isLive :
  (t.waitingOn.filter s.grid.isLive).isEmpty = true ↔ ∀ j ∈ t.waitingOn, s.grid.isLive j = false
  := by
  rw [← Bool.not_eq_false, SortedSet.isEmpty_eq_false_iff]
  simp only [SortedSet.mem_filter, not_exists, not_and, Bool.not_eq_true]

/-- A tracker is freed of what is gone if it waits for that and for nothing else. -/
theorem isFreedBy_goneFrom_iff (ht : t.isConsistent = true) :
  t.isFreedBy (s.goneFrom t) = true
    ↔ (∃ j ∈ t.waitingOn, s.grid.isLive j = false) ∧
      (t.waitingOn.filter s.grid.isLive).isEmpty = true
  := by
  rw [isFreedBy_goneFrom ht, isEmpty_filter_isLive, Tracker.isConsistent_iff.mp ht]
  constructor
  · rintro ⟨⟨j, hj⟩, hdead⟩
    exact ⟨⟨j, hj, hdead j hj⟩, hdead⟩
  · rintro ⟨⟨j, hj, -⟩, hdead⟩
    exact ⟨⟨j, hj⟩, hdead⟩

/-- A tracker which waits for what is gone comes to wait for what is live, and is queued if that is
nothing. -/
theorem exists_repaired_eq (now : Instant) (ht : t.isConsistent = true)
    (hbroken : ∃ j ∈ t.waitingOn, s.grid.isLive j = false) :
  ∃ m, s.repaired now t = { t with
    waitingOn := t.waitingOn.filter s.grid.isLive
    status := if (t.waitingOn.filter s.grid.isLive).isEmpty then .queuedForProcessing else .blocked
    lastModified := m }
  := by
  have hblocked : t.status = .blocked := by
    obtain ⟨j, hj, -⟩ := hbroken
    apply (Tracker.isConsistent_iff.mp ht).mpr ⟨j, hj⟩
  obtain ⟨m, hm⟩ := exists_freed_goneFrom_eq (s := s) (t := t) now
  use m
  rw [repaired, hm, Tracker.freed_status_eq, hblocked]
  simp only [isFreedBy_goneFrom_iff ht, and_iff_right hbroken]

/-! ### Broken trackers -/

section Broken

variable {k : Key}

/-- The broken trackers come in the order of their keys. -/
theorem pairwise_broken (hs : s.grid.WellFiled) :
  (s.broken.map Prod.fst).Pairwise (· < ·)
  := by
  apply List.pairwise_map.mpr
  apply (Grid.pairwise_values hs _).filterMap
  intro t u hlt e he e' he'
  simp only [Option.ite_none_left_eq_some, Option.some.injEq] at he he'
  rw [← he.2, ← he'.2]
  exact hlt

theorem nodup_broken (hs : s.grid.WellFiled) :
  (s.broken.map Prod.fst).Nodup
  := by
  apply (pairwise_broken hs).imp
  rintro k _ hlt rfl
  apply Std.lt_irrefl hlt

/-- If all trackers are consistent, those which wait for what is gone are broken. -/
theorem mem_broken_of_consistent (hs : s.grid.WellFiled)
    (hconsistent : ∀ k t, s.grid.find? k = some t → t.isConsistent = true)
    (ht : s.grid.find? k = some t) (hbroken : ∃ j ∈ t.waitingOn, s.grid.isLive j = false) :
  (k, s.goneFrom t) ∈ s.broken
  := by
  apply (mem_broken hs).mpr ⟨t, ht, _, rfl, goneFrom_ne_nil_iff.mpr hbroken⟩
  obtain ⟨j, hj, -⟩ := hbroken
  apply (Tracker.isConsistent_iff.mp (hconsistent k t ht)).mpr ⟨j, hj⟩

theorem mem_keys_broken (hs : s.grid.WellFiled)
    (hconsistent : ∀ k t, s.grid.find? k = some t → t.isConsistent = true) :
  k ∈ s.broken.map Prod.fst
    ↔ ∃ t, s.grid.find? k = some t ∧ ∃ j ∈ t.waitingOn, s.grid.isLive j = false
  := by
  rw [List.mem_map]
  constructor
  · rintro ⟨⟨k, gone⟩, he, rfl⟩
    obtain ⟨t, ht, -, rfl, hne⟩ := (mem_broken hs).mp he
    exact ⟨t, ht, goneFrom_ne_nil_iff.mp hne⟩
  · rintro ⟨t, ht, hbroken⟩
    exact ⟨_, mem_broken_of_consistent hs hconsistent ht hbroken, rfl⟩

/-- Whoever is freed of what is gone is broken. -/
theorem mem_keys_filter_broken (hs : s.grid.WellFiled) :
  k ∈ (s.broken.filter (fun e => (s.grid.find? e.1).any (Tracker.isFreedBy e.2))).map Prod.fst
    ↔ ∃ t, s.grid.find? k = some t ∧ t.isFreedBy (s.goneFrom t) = true
  := by
  rw [List.mem_map]
  simp only [List.mem_filter, Option.any_eq_true]
  constructor
  · rintro ⟨⟨k, gone⟩, ⟨he, u, hu, hfreed⟩, rfl⟩
    obtain ⟨t, ht, -, rfl, -⟩ := (mem_broken hs).mp he
    obtain rfl : t = u := Option.some.inj (ht.symm.trans hu)
    exact ⟨t, ht, hfreed⟩
  · rintro ⟨t, ht, hfreed⟩
    obtain ⟨hblocked, ⟨j, hj⟩, hall⟩ := Tracker.isFreedBy_iff.mp hfreed
    have hne : s.goneFrom t ≠ [] := List.ne_nil_of_mem (hall j hj)
    refine ⟨(k, s.goneFrom t), ⟨?_, t, ht, hfreed⟩, rfl⟩
    apply (mem_broken hs).mpr ⟨t, ht, hblocked, rfl, hne⟩

end Broken

/-! ### Repairs -/

variable [Store σ] [LawfulStore σ]

/-- Repairs of several keys free their trackers, and send those keys whose trackers that frees. -/
theorem forM_repair_ends (hs : s.grid.WellFiled) (now : Instant) {found : List (Key × List Key)}
    (hdistinct : (found.map Prod.fst).Nodup) :
  (found.forM (fun (k, gone) => repair now k gone) : Attempt (Scheduler p σ) PUnit).Ends s
    (fun _ s' => s.board.FreesAll now found s'.board ∧ s'.ready = s.ready.append
      ((found.filter (fun e => (s.grid.find? e.1).any (Tracker.isFreedBy e.2))).map Prod.fst))
    (fun _ _ => ¬ LawfulStore.works s.board.store)
  := by
  induction found generalizing s with
  | nil => exact ⟨Board.freesAll_nil hs now, s.ready.append_nil.symm⟩
  | cons e rest ih =>
    obtain ⟨k, gone⟩ := e
    obtain ⟨hk, hrest⟩ := List.nodup_cons.mp hdistinct
    change (repair now k gone >>= fun _ => rest.forM _).Ends s _ _
    rw [ends_bind]
    apply (repair_frees hs now k gone).mono
    · rintro _ s₁ ⟨h, hready⟩
      have hsame : rest.filter (fun e => (s₁.grid.find? e.1).any (Tracker.isFreedBy e.2))
          = rest.filter (fun e => (s.grid.find? e.1).any (Tracker.isFreedBy e.2)) := by
        apply List.filter_congr
        intro e he
        have hothers : s₁.grid.find? e.1 = s.grid.find? e.1 := by
          apply h.others
          rintro rfl
          apply hk (List.mem_map.mpr ⟨e, he, rfl⟩)
        rw [hothers]
      apply (ih h.filed hrest).mono
      · rintro _ s₂ ⟨h', hready'⟩
        use h.cons_all h' hk
        rw [hready', hready, ReadyStream.append_append, hsame, List.filter_cons]
        split <;> rfl
      · exact fun _ _ hnot hworks => hnot (h.works hworks)
    · exact fun _ _ => id

/-- If all trackers are consistent, to free the broken ones of what is gone is to repair all. -/
theorem find?_of_freesAll_broken {now : Instant} (hs : s.grid.WellFiled)
    (hconsistent : ∀ k t, s.grid.find? k = some t → t.isConsistent = true)
    (h : s.board.FreesAll now s.broken s'.board) (k : Key) :
  s'.grid.find? k = (s.grid.find? k).map (s.repaired now)
  := by
  by_cases hk : k ∈ s.broken.map Prod.fst
  · obtain ⟨t, ht, hbroken⟩ := (mem_keys_broken hs hconsistent).mp hk
    have heach := h.each _ (mem_broken_of_consistent hs hconsistent ht hbroken)
    rw [ht]
    exact heach.trans (congrArg (Option.map _) ht)
  · have hothers : s'.grid.find? k = s.grid.find? k := h.others k hk
    rw [hothers]
    cases ht : s.grid.find? k with
    | none => rfl
    | some t =>
      rw [Option.map_some, repaired_of_goneFrom_eq_nil]
      by_contra hne
      apply hk
      apply (mem_keys_broken hs hconsistent).mpr ⟨t, ht, goneFrom_ne_nil_iff.mp hne⟩

/-- All trackers are freed of what is gone, and sent in the order of their keys if that frees
them. -/
theorem recheck_ends (hs : s.grid.WellFiled)
    (hconsistent : ∀ k t, s.grid.find? k = some t → t.isConsistent = true) (now : Instant) :
  (recheck now).Ends s
    (fun ks s' => s'.grid.WellFiled ∧
      (∀ k, k ∈ ks ↔ ∃ t, s.grid.find? k = some t ∧ ∃ j ∈ t.waitingOn, s.grid.isLive j = false) ∧
      (∀ k, s'.grid.find? k = (s.grid.find? k).map (s.repaired now)) ∧
      ∃ released : SortedSet Key, s'.ready = s.ready.append released.toList ∧
        ∀ k, k ∈ released ↔ ∃ t, s.grid.find? k = some t ∧ t.isFreedBy (s.goneFrom t) = true)
    (fun _ _ => ¬ LawfulStore.works s.board.store)
  := by
  rw [recheck, ends_bind, ends_get, ends_bind]
  apply (forM_repair_ends hs now (nodup_broken hs)).mono
  · rintro _ s' ⟨h, hready⟩
    rw [ends_pure]
    refine ⟨h.filed, ?_, find?_of_freesAll_broken hs hconsistent h,
      ⟨_, (pairwise_broken hs).sublist (List.filter_sublist.map _)⟩, hready, ?_⟩
    · intro k
      rw [SortedSet.mem_ofList, mem_keys_broken hs hconsistent]
    · exact fun _ => mem_keys_filter_broken hs
  · exact fun _ _ => id

/-! ### What is repaired -/

/--
The trackers of `ks` are those which wait for what is gone.  They are repaired, so that nobody waits
for what is gone any more, and those of them who are left with nothing to wait for are sent in the
order of their keys.
-/
structure Repairs (s : Scheduler p σ) (ks : SortedSet Key) (s' : Scheduler p σ) : Prop where
  named : ∀ k, k ∈ ks ↔ ∃ t, s.grid.find? k = some t ∧ ∃ j ∈ t.waitingOn, s.grid.isLive j = false
  itself : ∀ k ∈ ks, ∀ t, s.grid.find? k = some t → ∃ m, s'.grid.find? k = some { t with
    waitingOn := t.waitingOn.filter s.grid.isLive
    status := if (t.waitingOn.filter s.grid.isLive).isEmpty then .queuedForProcessing else .blocked
    lastModified := m }
  others : ∀ k, k ∉ ks → s'.grid.find? k = s.grid.find? k
  waits : ∀ k, (s'.grid.find? k).map Tracker.waitingOn
    = (s.grid.find? k).map (fun t => t.waitingOn.filter s.grid.isLive)
  live : ∀ k t, s'.grid.find? k = some t → ∀ j ∈ t.waitingOn, s'.grid.isLive j = true
  ready : s'.ready = s.ready.append
    (ks.filter (fun k => (s'.grid.find? k).any (fun t => t.waitingOn.isEmpty))).toList

section Repaired

omit [Store σ] [LawfulStore σ]

variable {now : Instant} (hfind : ∀ k, s'.grid.find? k = (s.grid.find? k).map (s.repaired now))

include hfind

theorem isLive_of_repaired (k : Key) :
  s'.grid.isLive k = s.grid.isLive k
  := by
  rw [Grid.isLive, hfind, Option.any_map]
  simp only [repaired, Tracker.freed_isLive]
  rfl

theorem waitingOn_of_repaired (k : Key) :
  (s'.grid.find? k).map Tracker.waitingOn
    = (s.grid.find? k).map (fun t => t.waitingOn.filter s.grid.isLive)
  := by
  rw [hfind, Option.map_map]
  congr 1
  funext t
  apply freed_goneFrom_waitingOn

/-- Nobody waits for what is gone any more. -/
theorem isLive_of_mem_repaired {k j : Key} (ht : s'.grid.find? k = some t) (hj : j ∈ t.waitingOn) :
  s'.grid.isLive j = true
  := by
  have hwaits := waitingOn_of_repaired hfind k
  rw [ht] at hwaits
  obtain ⟨u, -, hu⟩ := Option.map_eq_some_iff.mp hwaits.symm
  rw [← hu, SortedSet.mem_filter] at hj
  rw [isLive_of_repaired hfind, hj.2]

end Repaired

theorem recheck_yields_repairs (hs : s.grid.WellFiled) (hworks : LawfulStore.works s.board.store)
    (hconsistent : ∀ k t, s.grid.find? k = some t → t.isConsistent = true) (now : Instant) :
  (recheck now).Yields s (fun ks s' => s'.grid.WellFiled ∧ s.Repairs ks s')
  := by
  apply (recheck_ends hs hconsistent now).mono
  · rintro ks s' ⟨hs', hnamed, hfind, released, hready, hreleased⟩
    have hsame : released
        = ks.filter (fun k => (s'.grid.find? k).any (fun t => t.waitingOn.isEmpty)) := by
      apply SortedSet.ext
      intro k
      have hempty : (s'.grid.find? k).any (fun t => t.waitingOn.isEmpty)
          = (s.grid.find? k).any (fun t => (t.waitingOn.filter s.grid.isLive).isEmpty) := by
        rw [← Option.any_map, waitingOn_of_repaired hfind, Option.any_map]
      rw [hreleased, SortedSet.mem_filter, hnamed, hempty]
      constructor
      · rintro ⟨t, ht, hfreed⟩
        obtain ⟨hbroken, hrest⟩ := (isFreedBy_goneFrom_iff (hconsistent k t ht)).mp hfreed
        rw [ht]
        exact ⟨⟨t, rfl, hbroken⟩, hrest⟩
      · rintro ⟨⟨t, ht, hbroken⟩, hrest⟩
        rw [ht] at hrest
        exact ⟨t, ht, (isFreedBy_goneFrom_iff (hconsistent k t ht)).mpr ⟨hbroken, hrest⟩⟩
    refine ⟨hs', hnamed, ?_, ?_, waitingOn_of_repaired hfind, ?_, ?_⟩
    · intro k hk t ht
      obtain ⟨u, hu, hbroken⟩ := (hnamed k).mp hk
      obtain rfl : t = u := Option.some.inj (ht.symm.trans hu)
      obtain ⟨m, hm⟩ := exists_repaired_eq now (hconsistent k t ht) hbroken
      use m
      rw [hfind, ht, Option.map_some, hm]
    · intro k hk
      rw [hfind]
      cases ht : s.grid.find? k with
      | none => rfl
      | some t =>
        rw [Option.map_some, repaired_of_goneFrom_eq_nil]
        by_contra hne
        apply hk ((hnamed k).mpr ⟨t, ht, goneFrom_ne_nil_iff.mp hne⟩)
    · exact fun _ _ ht _ => isLive_of_mem_repaired hfind ht
    · rw [hready, hsame]
  · exact fun _ _ hnot => hnot hworks

/-! ### Repairs after a removal -/

section Removed

omit [Store σ] [LawfulStore σ]

variable {k : Key}
  (hlive : ∀ j t, s.grid.find? j = some t → ∀ i ∈ t.waitingOn, s.grid.isLive i = true)
  (hfind : ∀ j, s'.grid.find? j = if j = k then none else s.grid.find? j)

include hlive hfind

/-- If nobody waited for what is gone, then of the prerequisites of a tracker the removed key is
what is gone now. -/
theorem mem_goneFrom_of_removed {i j : Key} (ht : s.grid.find? j = some t) (hi : i ∈ t.waitingOn) :
  i ∈ s'.goneFrom t ↔ i ∈ [k]
  := by
  have hstill := hlive j t ht i hi
  rw [Grid.isLive] at hstill
  rw [mem_goneFrom, and_iff_right hi, List.mem_singleton, Grid.isLive, hfind]
  split
  · rename_i hik
    simp [hik]
  · rename_i hik
    simp [hik, hstill]

/-- Who is repaired after a removal is settled as after a completion. -/
theorem undated_repaired_of_removed (now : Instant) (j : Key) :
  ((s'.grid.find? j).map (s'.repaired now)).map Tracker.undated
    = (s.grid.undated? j).bind (Tracker.settled .purge [k] j)
  := by
  rw [hfind, Grid.undated?]
  cases ht : s.grid.find? j with
  | none =>
    rw [ite_self]
    rfl
  | some t =>
    rw [Option.map_some, Option.bind_some, Tracker.settled]
    simp only [List.mem_singleton]
    split
    · rfl
    · rw [Option.map_some, Option.map_some, undated_repaired]
      apply congrArg some
      apply Tracker.relieved_congr
      exact fun _ hi => mem_goneFrom_of_removed hlive hfind ht hi

/-- Who is freed after a removal is freed by the removed key. -/
theorem isFreedBy_goneFrom_of_removed (j : Key) :
  (∃ t, s'.grid.find? j = some t ∧ t.isFreedBy (s'.goneFrom t) = true)
    ↔ j ≠ k ∧ (s.grid.find? j).any (Tracker.isFreedBy [k]) = true
  := by
  rw [hfind]
  split
  · rename_i hj
    simp [hj]
  · rename_i hj
    rw [ne_eq, and_iff_right hj, Option.any_eq_true]
    apply exists_congr
    intro t
    apply and_congr_right
    intro ht
    rw [Tracker.isFreedBy_congr]
    exact fun _ => mem_goneFrom_of_removed hlive hfind ht

end Removed

/--
Where nobody waits for what is gone, who is broken once a chunk is removed is who waits for it.  So
to repair comes to the same as to complete the chunk and purge it, if all who wait for it go to its
sink.
-/
theorem remove_recheck_yields (hs : s.board.Working)
    (hconsistent : ∀ k t, s.grid.find? k = some t → t.isConsistent = true)
    (hlive : ∀ j t, s.grid.find? j = some t → ∀ i ∈ t.waitingOn, s.grid.isLive i = true)
    (hretention : s.settings.retention = .purge) {k : Key} (hk : s.grid.Gathered k)
    (now now' now'' : Instant) :
  (remove now k >>= fun _ => recheck now').Yields s (fun _ s' =>
    (complete now'' k).Yields s (fun _ s'' =>
      (∀ j, s'.grid.undated? j = s''.grid.undated? j) ∧ s'.ready = s''.ready))
  := by
  rw [Yields, ends_bind, remove, ends_onBoard]
  apply (Board.remove_ends s.board now k).mono
  · rintro _ b ⟨-, h⟩
    have hb : b.Working := h.working hs
    have hfind : ∀ j, ({ s with board := b } : Scheduler p σ).grid.find? j
        = if j = k then none else s.grid.find? j := by
      intro j
      rw [withBoard_grid, h.find?_grid]
      simp only [List.mem_singleton]
      rfl
    have hconsistent₁ : ∀ j t, ({ s with board := b } : Scheduler p σ).grid.find? j = some t →
        t.isConsistent = true := by
      intro j t ht
      rw [hfind, Option.ite_none_left_eq_some] at ht
      apply hconsistent j t ht.2
    apply (recheck_ends (s := { s with board := b }) hb.filed hconsistent₁ now').mono
    · rintro _ s' ⟨-, -, hrepaired, released, hready, hreleased⟩
      apply (complete_ends hs.filed now'' k).mono
      · rintro released' s'' ⟨hready', -, hreleased', hcompleted⟩
        constructor
        · intro j
          rw [undated?_of_find? hk hcompleted, hretention, Grid.undated?, hrepaired]
          apply undated_repaired_of_removed hlive hfind
        · have hsame : released = released' := by
            apply SortedSet.ext
            intro j
            rw [hreleased, hreleased', ← any_isFreedBy_iff hk]
            apply isFreedBy_goneFrom_of_removed hlive hfind
          rw [hready, hready', hsame]
          rfl
      · exact fun _ _ hnot => hnot hs.works
    · exact fun _ _ hnot => hnot hb.works
  · exact fun _ _ h => h.1 hs.works

/-! ### Repairs in all -/

/--
What waits for chunks which are gone is repaired, and nothing else: it waits for the rest, and is
sent if there is no rest.  Nothing is left for a second repair.  If nobody waits for a chunk which
is gone, to remove a chunk and to repair then leads to the same trackers and sends the same keys as
to complete it and purge it, as long as all who wait for it go to its sink.
-/
theorem recheck_repairs (hs : s.grid.WellFiled) (hworks : LawfulStore.works s.board.store)
    (hconsistent : ∀ k t, s.grid.find? k = some t → t.isConsistent = true) :
  (∀ now, (recheck now).Yields s (fun ks s' => s.Repairs ks s' ∧
    ∀ now', (recheck now').Yields s' (fun ks' s'' => ks' = ∅ ∧ s'' = s'))) ∧
  ((∀ j t, s.grid.find? j = some t → ∀ i ∈ t.waitingOn, s.grid.isLive i = true) →
    s.settings.retention = .purge → ∀ k, s.grid.Gathered k → ∀ now now' now'',
      (remove now k >>= fun _ => recheck now').Yields s (fun _ s' =>
        (complete now'' k).Yields s (fun _ s'' =>
          (∀ j, s'.grid.undated? j = s''.grid.undated? j) ∧ s'.ready = s''.ready)))
  := by
  constructor
  · intro now
    apply (recheck_yields_repairs hs hworks hconsistent now).mono
    rintro ks s' ⟨hs', h⟩
    use h
    apply recheck_yields_of_kept hs'
    exact fun k t ht => goneFrom_eq_nil (h.live k t ht)
  · intro hlive hretention k hk
    apply remove_recheck_yields ⟨hworks, hs⟩ hconsistent hlive hretention hk

/-- Once chunk 0 is removed the chunks 2 and 3 are broken; chunk 3, which waited for it alone, is
sent, and chunk 2 still waits for chunk 1. -/
theorem recheck_repairs_of_removed :
  let os : List Operation := [.register (.sample 1 0 ["a", "c"]) none,
    .register (.sample 1 1 ["b"]) none, .register (.sample 1 2 ["a", "b"]) none,
    .register (.sample 1 3 ["c"]) none]
  let s := afterAll os
  let s₁ := afterAll (os ++ [.remove ⟨1, 0⟩])
  (recheck default).Yields s₁ (fun ks s₂ => s₁.Repairs ks s₂ ∧
    (recheck default).Yields s₂ (fun ks' s₃ => ks' = ∅ ∧ s₃ = s₂)) ∧
  ((recheck default).outcome s₁).toOption.map SortedSet.toList = some [⟨1, 2⟩, ⟨1, 3⟩] ∧
  ((recheck default).stateAfter s₁).ready.sent = s₁.ready.sent ++ [⟨1, 3⟩] ∧
  (remove default ⟨1, 0⟩ >>= fun _ => recheck default).Yields s (fun _ s' =>
    (complete default ⟨1, 0⟩).Yields s (fun _ s'' =>
      (∀ j, s'.grid.undated? j = s''.grid.undated? j) ∧ s'.ready = s''.ready))
  := by
  intro os s s₁
  have hregular : ∀ os : List Operation, (afterAll os).board.Sound ∧ (afterAll os).grid.Tidy :=
    fun os => (reachable_afterAll (Operation.permits_of_forall (fun _ _ => trivial) _ _)).tidy
      trivial rfl
  obtain ⟨hs, htidy⟩ : s.board.Sound ∧ s.grid.Tidy := hregular os
  obtain ⟨hs₁, htidy₁⟩ : s₁.board.Sound ∧ s₁.grid.Tidy := hregular (os ++ [.remove ⟨1, 0⟩])
  have hkept : ∀ t ∈ s.grid.trackers, ∀ i ∈ t.waitingOn.toList, s.grid.isLive i = true := by
    decide +kernel
  have hsinks : ∀ t ∈ s.grid.trackers, t.sink = 1 := by decide +kernel
  have hretention : s.settings.retention = .purge := by decide +kernel
  have hrepaired : ((recheck default).outcome s₁).toOption.map SortedSet.toList
      = some [⟨1, 2⟩, ⟨1, 3⟩] := by
    decide +kernel
  have hsent : ((recheck default).stateAfter s₁).ready.sent = s₁.ready.sent ++ [⟨1, 3⟩] := by
    decide +kernel
  clear_value s s₁
  have hlive : ∀ j t, s.grid.find? j = some t → ∀ i ∈ t.waitingOn, s.grid.isLive i = true := by
    intro j t ht
    obtain rfl := hs.filed.key ht
    apply hkept t ((Grid.mem_trackers hs.filed).mpr ht)
  have hgathered := Grid.gathered_of_sink hs.filed hsinks ⟨1, 0⟩
  refine ⟨?_, hrepaired, hsent, ?_⟩
  · apply ((recheck_repairs hs₁.filed hs₁.works htidy₁.consistent).1 default).mono
    exact fun _ _ h => ⟨h.1, h.2 default⟩
  · apply (recheck_repairs hs.filed hs.works htidy.consistent).2 hlive hretention ⟨1, 0⟩ hgathered

end Scheduler

end ChunkDispatch
