import ChunkDispatch.Proofs.Allowance
import ChunkDispatch.Proofs.Cascade

/-!
# Completions which are interrupted

A completion is *interrupted* if the store takes some of its writes and refuses the rest.  It has
retired the key by then, if it came so far, and taken it from the dependents in the first of the
partitions which hold any; nothing was sent.  Completed again once the store is mended, the key is
taken from the other dependents, and only whom this releases is sent.  So nobody is missed exactly
if none of those released lies in a partition which was written to before.
-/

namespace ChunkDispatch

open Attempt

variable {p : Partitioner} {σ : Type}

/-! ### Stores which fail and are mended -/

namespace Scheduler

/-- The scheduler whose store takes the next `n` writes and refuses all after them. -/
def refusing (n : Nat) (s : Scheduler p (Scripted σ)) : Scheduler p (Scripted σ) :=
  { s with board.store.writeRefusals := .after n }

/-- The scheduler whose store refuses nothing any more. -/
def mended (s : Scheduler p (Scripted σ)) : Scheduler p (Scripted σ) :=
  { s with board.store.writeRefusals := .none, board.store.loadRefusals := .none }

/-- The store of the scheduler allows `m` writes. -/
def Allows [Store σ] [LawfulStore σ] (m : Nat) (s : Scheduler p (Scripted σ)) : Prop :=
  s.board.Allows m

variable [Store σ] [LawfulStore σ] {s : Scheduler p (Scripted σ)}

theorem allows_refusing (hworks : LawfulStore.works s.board.store.inner) (n : Nat) :
  (s.refusing n).Allows n
  := by
  use hworks
  intro i
  change decide (n ≤ 0 + i) = decide (n ≤ i)
  rw [Nat.zero_add]

theorem works_mended (hworks : LawfulStore.works s.board.store.inner) :
  LawfulStore.works s.mended.board.store
  := ⟨hworks, fun _ _ => rfl, fun _ _ => rfl⟩

end Scheduler

/-! ### Partitions with dependents -/

namespace Grid

variable {g g' : Grid p} {k : Key}

/-- The partitions in which somebody depends on a key, ascending. -/
def dependentParts (g : Grid p) (k : Key) : List (Fin p.count) :=
  (indices p).filter (fun i => (g.partition i).values.any (fun t =>
    t.key ≠ k ∧ Query.WaitingFor.holds ⟨(g.find? k).map Tracker.sink, k⟩ t = true))

theorem mem_dependentParts (hg : g.WellFiled) {i : Fin p.count} :
  i ∈ g.dependentParts k ↔ ∃ j t, p.home j = i ∧ g.Depends k j t
  := by
  simp only [dependentParts, List.mem_filter, List.any_eq_true, decide_eq_true_eq,
    SortedMap.mem_values_iff, hg.find?_partition]
  constructor
  · rintro ⟨-, t, ⟨j, ht⟩, hne, hq⟩
    split at ht
    · rename_i hi
      obtain rfl := hg.key ht
      exact ⟨t.key, t, hi, (depends_iff hne ht).mpr hq⟩
    · cases ht
  · rintro ⟨j, t, hi, hdepends⟩
    obtain rfl := hg.key hdepends.found
    refine ⟨List.mem_finRange _, t, ⟨t.key, ?_⟩, hdepends.other, ?_⟩
    · rw [if_pos hi, hdepends.found]
    · apply (depends_iff hdepends.other hdepends.found).mp hdepends

/-- The key is taken from the trackers in the partitions `done`, and not yet from the others. -/
structure HalfCompleted (now : Instant) (k : Key) (done : List (Fin p.count)) (g g' : Grid p) :
    Prop where
  filed : g'.WellFiled
  others : ∀ j, j ≠ k → g'.find? j = if p.home j ∈ done
    then (g.find? j).map (Scheduler.releaseFrom now k ((g.find? k).map Tracker.sink))
    else g.find? j
  itself : ∀ u', g'.find? k = some u' → ∃ u, g.find? k = some u ∧ u'.sink = u.sink

/-- Whom completing the key releases now are those it would have released before, in other
partitions. -/
theorem HalfCompleted.releases_iff {now : Instant} {done : List (Fin p.count)}
    (h : HalfCompleted now k done g g')
    (hconsistent : ∀ j t, g.find? j = some t → t.isConsistent = true)
    (hall : ∀ j t, j ≠ k → g.find? j = some t → k ∈ t.waitingOn → g.Depends k j t) (j : Key) :
  (j ≠ k ∧ ∃ t, g'.find? j = some t ∧
      Query.WaitingFor.holds ⟨(g'.find? k).map Tracker.sink, k⟩ t = true ∧
      (Change.Release.apply ⟨k⟩ t).1 = true)
    ↔ (∃ t, g.Depends k j t ∧ t.waitingOn.toList = [k]) ∧ p.home j ∉ done
  := by
  constructor
  · rintro ⟨hj, t', ht', hq, hreleased⟩
    have hwaits : k ∈ t'.waitingOn := by
      simp only [Query.WaitingFor.holds, decide_eq_true_eq] at hq
      apply hq.2
    rw [h.others j hj] at ht'
    -- Where the work is done the key was taken from all who waited for it, for all depended on it.
    split at ht'
    · obtain ⟨t, ht, rfl⟩ := Option.map_eq_some_iff.mp ht'
      obtain ⟨hmem, hsink⟩ := (Scheduler.mem_releaseFrom now k _ t k).mp hwaits
      have hholds := (depends_iff hj ht).mp (hall j t hj ht hmem)
      simp only [Query.WaitingFor.holds, decide_eq_true_eq] at hholds
      exact absurd ⟨rfl, hholds.1⟩ hsink
    · rename_i hnot
      refine ⟨⟨t', hall j t' hj ht' hwaits, ?_⟩, hnot⟩
      rw [Change.Release.apply_eq (hconsistent j t' ht') hwaits] at hreleased
      apply of_decide_eq_true hreleased
  · rintro ⟨⟨t, hdepends, hlast⟩, hnot⟩
    refine ⟨hdepends.other, t, ?_, ?_, ?_⟩
    · rw [h.others j hdepends.other, if_neg hnot, hdepends.found]
    · simp only [Query.WaitingFor.holds, decide_eq_true_eq]
      refine ⟨?_, hdepends.waits⟩
      cases hu' : g'.find? k with
      | none => rfl
      | some u' =>
        obtain ⟨u, hu, hsink⟩ := h.itself u' hu'
        simp [hsink, hdepends.sink u hu]
    · rw [Change.Release.apply_eq (hconsistent j t hdepends.found) hdepends.waits]
      apply decide_eq_true hlast

/-- Before anything is done nothing is taken from anybody. -/
theorem halfCompleted_self (hg : g.WellFiled) (now : Instant) :
  HalfCompleted now k [] g g
  := by
  use hg
  · intro j _
    rw [if_neg List.not_mem_nil]
  · exact fun u hu => ⟨u, hu, rfl⟩

end Grid

namespace Scheduler

/-! ### The writes of a completion -/

/-- How many writes it takes to retire a key. -/
def retireWrites (s : Scheduler p σ) (k : Key) : Nat :=
  match s.settings.retention with
  | .purge => 1
  | .retain => (s.grid.isLive k).toNat

/-- How many writes it takes to complete a key: one for each partition with dependents comes after
those which retire it. -/
def completionWrites (s : Scheduler p σ) (k : Key) : Nat :=
  s.retireWrites k + (s.grid.dependentParts k).length

/-- The partitions with dependents which are written to by a completion with `n` writes. -/
def committed (s : Scheduler p σ) (k : Key) (n : Nat) : List (Fin p.count) :=
  (s.grid.dependentParts k).take (n - s.retireWrites k)

theorem length_changedAt_completed {g : Grid p} (now : Instant) {k : Key}
    (hconsistent : ∀ t, g.find? k = some t → t.isConsistent = true) :
  (Board.changedAt now (Change.Force.apply ⟨.completed⟩) g k).length = (g.isLive k).toNat
  := by
  rw [Board.changedAt]
  rw [Grid.isLive]
  cases ht : g.find? k with
  | none => rfl
  | some t =>
    rw [Option.bind_some, Option.any_some, Board.changed?]
    by_cases hstatus : t.status = .completed
    · have hsame : (Change.Force.apply ⟨.completed⟩ t).2 = t := by
        change { t with waitingOn := ∅, status := .completed } = t
        rw [← hstatus, ← Tracker.waitingOn_of_completed (hconsistent t ht) hstatus]
      rw [if_pos hsame, Tracker.isLive, hstatus]
      rfl
    · have hother : (Change.Force.apply ⟨.completed⟩ t).2 ≠ t := by
        intro heq
        apply hstatus
        rw [← heq]
        rfl
      rw [if_neg hother]
      simp [Tracker.isLive, Status.isLive, hstatus]

variable [Store σ] [LawfulStore σ] {s : Scheduler p (Scripted σ)}

theorem spends_onBoard {α : Type} {x : Attempt (Board p (Scripted σ)) α} {c : Nat}
    (hx : Spends Board.Allows c x s.board) :
  Spends Allows c (onBoard x) s
  := by
  intro m hm
  rw [ends_onBoard]
  apply hx m hm

theorem spends_bind_pure {α β : Type} {x : Attempt (Scheduler p (Scripted σ)) α} {c : Nat}
    (hx : Spends Allows c x s) (f : α → β) :
  Spends Allows c (x >>= fun a => pure (f a)) s
  := by
  intro m hm
  rw [ends_bind]
  apply hx m hm

/-- Retiring a key spends a write, or none if it is completed already. -/
theorem retire_spends (now : Instant) {k : Key}
    (hconsistent : ∀ t, s.grid.find? k = some t → t.isConsistent = true) :
  Spends Allows (s.retireWrites k) (retire now k) s
  := by
  intro m hm
  rw [retire, ends_bind, ends_get, retireWrites]
  cases s.settings.retention with
  | purge => apply spends_bind_pure (spends_onBoard (Board.remove_spends now k s.board)) _ m hm
  | retain =>
    rw [← length_changedAt_completed now hconsistent]
    apply spends_bind_pure (spends_onBoard (Board.adjust_spends now k _ s.board)) _ m hm

omit [LawfulStore σ] in
/-- A key which is not retired leaves all as it was. -/
theorem retire_refused {τ : Type} [Store τ] [LawfulStore τ] {s : Scheduler p τ} (now : Instant)
    (k : Key) :
  (retire now k).Ends s (fun _ _ => True) (fun _ s' => s'.ready = s.ready ∧
    s'.settings = s.settings ∧ s'.grid = s.grid)
  := by
  rw [retire, ends_bind, ends_get]
  cases s.settings.retention with
  | purge =>
    simp only []
    rw [ends_bind, ends_onBoard]
    apply (Board.remove_ends s.board now k).mono
    · exact fun _ _ _ => trivial
    · exact fun _ _ h => ⟨rfl, rfl, h.grid⟩
  | retain =>
    simp only []
    rw [ends_bind, ends_onBoard]
    apply (Board.adjust_ends s.board now k _).mono
    · exact fun _ _ _ => trivial
    · exact fun _ _ h => ⟨rfl, rfl, h.grid⟩

omit [Store σ] [LawfulStore σ] in
/-- Once the key is retired, the partitions to be written to are those with dependents. -/
theorem touched_eq_dependentParts {now : Instant} {k : Key} {g' : Grid p}
    (hs : s.grid.WellFiled) (hg' : g'.WellFiled)
    (hfind : ∀ j, g'.find? j =
      if j = k then retired s.settings.retention now (s.grid.find? k) else s.grid.find? j) :
  Board.touched (Board.changesIn now
      (Query.WaitingFor.holds ⟨(s.grid.find? k).map Tracker.sink, k⟩)
      (Change.Release.apply ⟨k⟩) g')
    = s.grid.dependentParts k
  := by
  have hchanges : ∀ t, k ∈ t.waitingOn → (Change.Release.apply ⟨k⟩ t).2 ≠ t := by
    intro t hmem heq
    rw [← heq, Change.Release.mem_waitingOn] at hmem
    apply hmem.2 rfl
  rw [Board.touched, Grid.dependentParts]
  apply List.filter_congr
  intro i hi
  have hparts := Grid.mem_dependentParts (k := k) (i := i) hs
  rw [Grid.dependentParts, List.mem_filter, and_iff_right hi] at hparts
  rw [Bool.eq_iff_iff, Board.changesIn_eq_true_iff hg', hparts]
  apply exists_congr
  intro j
  constructor
  · rintro ⟨t', hi, ht', hq, -⟩
    have hwaits : k ∈ t'.waitingOn := by
      simp only [Query.WaitingFor.holds, decide_eq_true_eq] at hq
      apply hq.2
    rw [hfind] at ht'
    split at ht'
    · obtain ⟨-, -, -, -, hnone⟩ := of_retired_eq_some ht'
      exact absurd hwaits (hnone k)
    · rename_i hj
      exact ⟨t', hi, (Grid.depends_iff hj ht').mpr hq⟩
  · rintro ⟨t, hi, ht⟩
    refine ⟨t, hi, ?_, (Grid.depends_iff ht.other ht.found).mp ht, hchanges t ht.waits⟩
    rw [hfind, if_neg ht.other, ht.found]

/-- An interrupted release has done the first of the partitions with dependents. -/
theorem releaseDependents_interrupted {now : Instant} {k : Key} {s₁ : Scheduler p (Scripted σ)}
    (hs : s.grid.WellFiled) (hs₁ : s₁.grid.WellFiled) {m : Nat} (hm : s₁.Allows m)
    (hfind : ∀ j, s₁.grid.find? j =
      if j = k then retired s.settings.retention now (s.grid.find? k) else s.grid.find? j) :
  (releaseDependents now k ((s.grid.find? k).map Tracker.sink)).Ends s₁
    (fun _ _ => (s.grid.dependentParts k).length ≤ m)
    (fun _ s' => m < (s.grid.dependentParts k).length ∧ s'.ready = s₁.ready ∧
      s'.settings = s₁.settings ∧ LawfulStore.works s'.board.store.inner ∧
      Grid.HalfCompleted now k ((s.grid.dependentParts k).take m) s.grid s'.grid)
  := by
  have hends := Board.adjustWhere_spends now
    (Query.WaitingFor.holds ⟨(s.grid.find? k).map Tracker.sink, k⟩)
    (Change.Release.apply_key ⟨k⟩) hs₁ hm
  rw [← grid, touched_eq_dependentParts hs hs₁ hfind] at hends
  rw [releaseDependents, ends_bind, removeFromWaitingOn, ends_bind, ends_onBoard]
  apply hends.mono
  · rintro _ _ ⟨hle, -⟩
    exact hle
  · rintro _ b ⟨hlt, hfiled, hallows, hfind'⟩
    have hfound : ∀ j, b.grid.find? j = if p.home j ∈ (s.grid.dependentParts k).take m
        then (s₁.grid.find? j).map (releaseFrom now k ((s.grid.find? k).map Tracker.sink))
        else s₁.grid.find? j := hfind'
    refine ⟨hlt, rfl, rfl, hallows.1, hfiled, ?_, ?_⟩
    · intro j hj
      rw [withBoard_grid s₁ b, hfound, hfind, if_neg hj]
    · intro u' hu'
      rw [withBoard_grid s₁ b, hfound, hfind, if_pos rfl] at hu'
      have hretired : ∃ u, retired s.settings.retention now (s.grid.find? k) = some u ∧
          u'.sink = u.sink := by
        split at hu'
        · obtain ⟨u, hu, rfl⟩ := Option.map_eq_some_iff.mp hu'
          exact ⟨u, hu, congrArg Lane.sink (releaseFrom_eases now k _ u).lane⟩
        · exact ⟨u', hu', rfl⟩
      obtain ⟨u, hu, hsink⟩ := hretired
      obtain ⟨t, ht, htrims, -⟩ := of_retired_eq_some hu
      exact ⟨t, ht, hsink.trans (congrArg Lane.sink htrims.lane)⟩

/--
An interrupted completion sends nothing; it has taken the key from the dependents in those
partitions which it wrote to.
-/
theorem complete_interrupted (hs : s.grid.WellFiled) (now : Instant) {k : Key}
    (hconsistent : ∀ t, s.grid.find? k = some t → t.isConsistent = true) {n : Nat}
    (hn : s.Allows n) :
  (complete now k).Ends s
    (fun _ _ => s.completionWrites k ≤ n)
    (fun _ s' => n < s.completionWrites k ∧ s'.ready = s.ready ∧ s'.settings = s.settings ∧
      LawfulStore.works s'.board.store.inner ∧
      Grid.HalfCompleted now k (s.committed k n) s.grid s'.grid)
  := by
  have hcommits := commitsOnly_retire (p := p) (σ := Scripted σ) (F := True) now k
    (P := fun _ _ => True) (fun _ => trivial) (fun _ => trivial) s
  rw [complete_eq, ends_bind, completionWrites]
  apply ((((retire_ends hs now k).and hcommits).and (retire_refused now k)).and
    (retire_spends now hconsistent n hn)).mono
  · rintro sink s₁ ⟨⟨⟨⟨hready, hsettings, rfl, hfind⟩, hcommits⟩, -⟩, hle, hallows⟩
    apply (releaseDependents_interrupted hs ((hcommits hs).filed hs) hallows hfind).mono
    · intro _ _ hle'
      omega
    · rintro _ s' ⟨hlt, hready', hsettings', hworks, hhalf⟩
      refine ⟨by omega, ?_, ?_, hworks, hhalf⟩
      · rw [hready', hready]
      · rw [hsettings', hsettings]
  · rintro _ s' ⟨⟨⟨-, hcommits⟩, hready, hsettings, hgrid⟩, hlt, hallows⟩
    refine ⟨by omega, hready, hsettings, hallows.1, ?_⟩
    rw [committed, Nat.sub_eq_zero_of_le (Nat.le_of_lt hlt), List.take_zero, hgrid]
    apply Grid.halfCompleted_self hs

/-! ### Completed again -/

/--
If all who wait for a key depend on it, a completion which the store interrupts after `n` writes
sends nothing, and made again on the mended store it releases and sends those whom one completion on
a working store releases, except the chunks in the partitions which were written to before.
-/
theorem complete_again_releases (hs : s.grid.WellFiled)
    (hworks : LawfulStore.works s.board.store.inner)
    (hconsistent : ∀ t ∈ s.grid.trackers, t.isConsistent = true) {k : Key}
    (hall : ∀ j t, j ≠ k → s.grid.find? j = some t → k ∈ t.waitingOn → s.grid.Depends k j t)
    (now now' : Instant) (n : Nat) :
  (complete now k).Yields s.mended (fun single s' =>
    (∀ j, j ∈ single ↔ ∃ t, s.grid.Depends k j t ∧ t.waitingOn.toList = [k]) ∧
    s'.ready = ⟨s.ready.listening,
      s.ready.sent ++ if s.ready.listening then single.toList else []⟩ ∧
    (complete now k).Ends (s.refusing n)
      (fun _ _ => s.completionWrites k ≤ n)
      (fun _ s₁ => n < s.completionWrites k ∧ s₁.ready = s.ready ∧
        (complete now' k).Yields s₁.mended (fun released s₂ =>
          s₂.ready = ⟨s.ready.listening,
            s.ready.sent ++ if s.ready.listening then released.toList else []⟩ ∧
          (∀ j, j ∈ released ↔ j ∈ single ∧ p.home j ∉ s.committed k n) ∧
          (released = single ↔ ∀ j ∈ single, p.home j ∉ s.committed k n))))
  := by
  have hconsistent : ∀ j t, s.grid.find? j = some t → t.isConsistent = true := by
    intro j t ht
    apply hconsistent t
    obtain rfl := hs.key ht
    apply (Grid.mem_values hs).mpr ⟨ht, rfl⟩
  apply (complete_ends (s := s.mended) hs now k).mono
  · rintro single s' ⟨hready', -, hfound, -⟩
    have hsingle : ∀ j, j ∈ single ↔ ∃ t, s.grid.Depends k j t ∧ t.waitingOn.toList = [k] := by
      intro j
      apply (hfound j).trans
      apply ((Grid.halfCompleted_self hs now).releases_iff hconsistent hall j).trans
      apply and_iff_left List.not_mem_nil
    refine ⟨hsingle, hready', ?_⟩
    apply (complete_interrupted (s := s.refusing n) hs now (hconsistent k)
      (allows_refusing hworks n)).mono
    · exact fun _ _ => id
    · rintro _ s₁ ⟨hlt, hready₁, -, hworks₁, hhalf⟩
      refine ⟨hlt, hready₁, ?_⟩
      apply (complete_ends (s := s₁.mended) hhalf.filed now' k).mono
      · rintro released s₂ ⟨hready₂, -, hreleased, -⟩
        have hiff : ∀ j, j ∈ released ↔ j ∈ single ∧ p.home j ∉ s.committed k n := by
          intro j
          rw [hsingle]
          apply (hreleased j).trans (hhalf.releases_iff hconsistent hall j)
        refine ⟨?_, hiff, ?_⟩
        · have hmended : s₁.mended.ready = s.ready := hready₁
          rw [hready₂, hmended]
        · constructor
          · rintro rfl j hj
            apply ((hiff j).mp hj).2
          · intro hnone
            apply SortedSet.ext
            intro j
            rw [hiff]
            apply and_iff_left_of_imp (hnone j)
      · exact fun _ _ hnot => hnot (works_mended hworks₁)
  · exact fun _ _ hnot => hnot (works_mended hworks)

/-- Two chunks wait for chunk 0, each in a partition of its own. -/
def forked : Scheduler (.ofCount 2) (Scripted Memory) :=
  (Operation.run (start { Settings.standard with partitions := 2 } true
    (Scripted.of (Memory.ofList [])) : Scheduler (.ofCount 2) (Scripted Memory)) [
      (default, .register (.sample 1 0 ["a", "b"]) none),
      (default, .register (.sample 1 1 ["a"]) none),
      (default, .register (.sample 1 2 ["b"]) none)]).2

theorem reachable_forked :
  Reachable (fun _ _ => True) (start { Settings.standard with partitions := 2 } true
    (Scripted.of (Memory.ofList []))) forked
  := Reachable.start.run ⟨trivial, trivial, trivial, trivial⟩

theorem forked_trackers :
  ∀ t ∈ forked.grid.trackers, t.isConsistent = true ∧ t.sink = 1
  := by
  decide +kernel

/-- With two writes the completion of chunk 0 is interrupted when chunk 1 is released. -/
theorem complete_again_releases_of_forked :
  (∀ t ∈ forked.grid.trackers, t.isConsistent = true) ∧
    (∀ j t, j ≠ ⟨1, 0⟩ → forked.grid.find? j = some t → ⟨1, 0⟩ ∈ t.waitingOn →
      forked.grid.Depends ⟨1, 0⟩ j t) ∧
    (complete default ⟨1, 0⟩).Yields forked.mended (fun single _ =>
      ⟨1, 1⟩ ∈ single ∧ ⟨1, 2⟩ ∈ single ∧
      (complete default ⟨1, 0⟩).Ends (forked.refusing 2) (fun _ _ => False)
        (fun _ s₁ => (complete default ⟨1, 0⟩).Yields s₁.mended (fun released _ =>
          ⟨1, 1⟩ ∉ released ∧ ⟨1, 2⟩ ∈ released)))
  := by
  have hworks : LawfulStore.works (Scripted.of (Memory.ofList [])) :=
    ⟨trivial, fun _ _ => rfl, fun _ _ => rfl⟩
  have hfiled : forked.grid.WellFiled := (reachable_forked.tidy hworks rfl).1.filed
  have hall : ∀ j t, j ≠ ⟨1, 0⟩ → forked.grid.find? j = some t → ⟨1, 0⟩ ∈ t.waitingOn →
      forked.grid.Depends ⟨1, 0⟩ j t := by
    have hsink : ∀ {j t}, forked.grid.find? j = some t → t.sink = 1 := by
      intro j t ht
      obtain rfl := hfiled.key ht
      apply (forked_trackers t ((Grid.mem_values hfiled).mpr ⟨ht, rfl⟩)).2
    intro j t hj ht hwaits
    exact ⟨hj, ht, hwaits, fun u hu => (hsink ht).trans (hsink hu).symm⟩
  have hconsistent : ∀ t ∈ forked.grid.trackers, t.isConsistent = true :=
    fun t ht => (forked_trackers t ht).1
  have hwrites : forked.completionWrites ⟨1, 0⟩ = 3 := by decide +kernel
  have hfirst : Partitioner.home (.ofCount 2) ⟨1, 1⟩ ∈ forked.committed ⟨1, 0⟩ 2 := by
    decide +kernel
  have hsecond : Partitioner.home (.ofCount 2) ⟨1, 2⟩ ∉ forked.committed ⟨1, 0⟩ 2 := by
    decide +kernel
  have halone : ∀ {j}, j ≠ ⟨1, 0⟩ →
      (forked.grid.find? j).map (fun t => t.waitingOn.toList) = some [⟨1, 0⟩] →
      ∃ t, forked.grid.Depends ⟨1, 0⟩ j t ∧ t.waitingOn.toList = [⟨1, 0⟩] := by
    intro j hj hwaits
    obtain ⟨t, ht, hlist⟩ := Option.map_eq_some_iff.mp hwaits
    refine ⟨t, hall j t hj ht ?_, hlist⟩
    rw [SortedSet.mem_iff, hlist]
    apply List.mem_singleton_self
  refine ⟨hconsistent, hall, ?_⟩
  apply (complete_again_releases hfiled trivial hconsistent hall default default 2).mono
  rintro single s' ⟨hsingle, -, hends⟩
  have hone : ⟨1, 1⟩ ∈ single := (hsingle _).mpr (halone (by decide) (by decide +kernel))
  have htwo : ⟨1, 2⟩ ∈ single := (hsingle _).mpr (halone (by decide) (by decide +kernel))
  refine ⟨hone, htwo, ?_⟩
  apply hends.mono
  · intro _ _ hle
    rw [hwrites] at hle
    omega
  · rintro _ s₁ ⟨-, -, hagain⟩
    apply hagain.mono
    rintro released s₂ ⟨-, hiff, -⟩
    exact ⟨fun hmem => ((hiff _).mp hmem).2 hfirst, (hiff _).mpr ⟨htwo, hsecond⟩⟩

/-- The third write is refused: chunk 1 is released without being sent, and missed afterwards. -/
theorem complete_again_misses :
  let s₁ := (complete default ⟨1, 0⟩).stateAfter (forked.refusing 2)
  (∀ t ∈ forked.grid.trackers, t.isConsistent = true ∧ t.sink = 1) ∧
    (complete default ⟨1, 0⟩).outcome (forked.refusing 2) = .error .writeRefused ∧
    ((complete default ⟨1, 0⟩).outcome forked.mended).toOption.map SortedSet.toList
      = some [⟨1, 1⟩, ⟨1, 2⟩] ∧
    ((complete default ⟨1, 0⟩).outcome s₁.mended).toOption.map SortedSet.toList
      = some [⟨1, 2⟩] ∧
    ((complete default ⟨1, 0⟩).stateAfter forked.mended).ready.sent
      = [⟨1, 0⟩, ⟨1, 1⟩, ⟨1, 2⟩] ∧
    ((complete default ⟨1, 0⟩).stateAfter s₁.mended).ready.sent = [⟨1, 0⟩, ⟨1, 2⟩]
  := by
  decide +kernel

end Scheduler

end ChunkDispatch
