import ChunkDispatch.Proofs.Run

/-!
# The dependents a completion leaves

The trackers which wait for a key are *gathered* if all of them go to the sink of the tracker of the
key, or the key is not tracked.  A completion takes the key out of the wait sets of that sink, so it
leaves nobody waiting for the key exactly if they are gathered.  Only one thing *scatters* those who
wait for a key: a chunk which was removed is registered again, for another sink than a chunk which
still waits for it.
-/

namespace ChunkDispatch

open Attempt

variable {p : Partitioner} {σ : Type}

namespace Grid

variable {g g' : Grid p}

/-- All who wait for the key go to the sink of its tracker, if it has one. -/
def Gathered (g : Grid p) (k : Key) : Prop :=
  ∀ u, g.find? k = some u → ∀ j t, g.find? j = some t → k ∈ t.waitingOn → t.sink = u.sink

/-- Who waits for a gathered key goes to its sink, if it is tracked. -/
theorem Gathered.all_sink {k j : Key} {t : Tracker} (hk : g.Gathered k) (ht : g.find? j = some t)
    (hmem : k ∈ t.waitingOn) :
  ((g.find? k).map Tracker.sink).all (· = t.sink) = true
  := by
  cases hu : g.find? k with
  | none => rfl
  | some u => simp [hk u hu j t ht hmem]

/-- If all trackers go to one sink, all who wait are gathered. -/
theorem gathered_of_sink (hg : g.WellFiled) {sink : Int32} (h : ∀ t ∈ g.trackers, t.sink = sink)
    (k : Key) :
  g.Gathered k
  := by
  have hsink : ∀ {k t}, g.find? k = some t → t.sink = sink := by
    intro k t ht
    obtain rfl := hg.key ht
    apply h t ((mem_trackers hg).mpr ht)
  intro u hu j t ht _
  rw [hsink ht, hsink hu]

theorem gathered_of_trims
    (h : ∀ k t', g'.find? k = some t' → ∃ t, g.find? k = some t ∧ t.Trims t') {k : Key}
    (hk : g.Gathered k) :
  g'.Gathered k
  := by
  intro u' hu' j t' ht' hmem
  obtain ⟨u, hu, hsame⟩ := h k u' hu'
  obtain ⟨t, ht, htrims⟩ := h j t' ht'
  have hsinks : t.sink = u.sink := hk u hu j t ht (htrims.within k hmem)
  have hu : u'.sink = u.sink := congrArg Lane.sink hsame.lane
  have ht : t'.sink = t.sink := congrArg Lane.sink htrims.lane
  rw [ht, hu, hsinks]

/-- A new tracker goes to the sink of whatever it waits for. -/
theorem Gathered.insert {t : Tracker} (hg : ∀ k, g.Gathered k)
    (hshares : ∀ j ∈ t.waitingOn, g.Shares t j ∧ j ≠ t.key)
    (hgathered : ∀ j u, j ≠ t.key → g.find? j = some u → t.key ∈ u.waitingOn → u.sink = t.sink)
    (k : Key) :
  (g.insert t).Gathered k
  := by
  intro u hu j v hv hmem
  rw [find?_insert] at hu hv
  split at hv
  · cases hv
    obtain ⟨⟨_, _, w, hw, -, hlane, -⟩, hne⟩ := hshares k hmem
    rw [if_neg hne, hw] at hu
    cases hu
    exact (congrArg Lane.sink hlane).symm
  · rename_i hj
    split at hu
    · rename_i hk
      cases hu
      rw [hk] at hmem
      apply hgathered j v hj hv hmem
    · apply hg k u hu j v hv hmem

end Grid

/-- A chunk which is not live is registered for another sink than a chunk which waits for it. -/
def Operation.Scatters (s : Scheduler p σ) : Operation → Prop
  | register c _ => s.grid.isLive c.key = false ∧
      ∃ t ∈ s.grid.trackers, c.key ∈ t.waitingOn ∧ t.sink ≠ c.sink
  | _ => False

variable [Store σ] [LawfulStore σ]

namespace Scheduler

variable {s : Scheduler p σ}

/-- A completion leaves nobody waiting for the key exactly if those who wait for it are gathered. -/
theorem complete_leaves_none_iff (hs : s.board.Sound) (now : Instant) (k : Key) :
  (complete now k).Yields s
    (fun _ s' => (∀ t ∈ s'.grid.trackers, k ∉ t.waitingOn) ↔ s.grid.Gathered k)
  := by
  apply (complete_yields hs now k).mono
  rintro released s' ⟨hs', hcompletes⟩
  have hfiled : s'.grid.WellFiled := hs'.filed
  constructor
  · intro hnone u hu j t ht hmem
    by_contra hsink
    have hj : j ≠ k := by
      rintro rfl
      obtain rfl := Option.some.inj (hu.symm.trans ht)
      exact hsink rfl
    -- A dependent of another sink is not visited.
    have ht' : s'.grid.find? j = some t := by
      rw [hcompletes.others j hj, ht, hu, Option.map_some, Option.map_some, releaseFrom, if_neg]
      simp [Query.WaitingFor.holds, Ne.symm hsink]
    obtain rfl := hfiled.key ht'
    apply hnone t ((Grid.mem_trackers hfiled).mpr ht') hmem
  · intro hgathered t' ht' hmem
    have hfind := (Grid.mem_trackers hfiled).mp ht'
    by_cases hk : t'.key = k
    · rw [hk] at hfind
      obtain ⟨-, -, -, -, hnone⟩ := hcompletes.itself t' hfind
      apply hnone k hmem
    · rw [hcompletes.others _ hk] at hfind
      obtain ⟨t, ht, heq⟩ := Option.map_eq_some_iff.mp hfind
      rw [← heq, mem_releaseFrom] at hmem
      apply hmem.2
      use rfl
      apply hgathered.all_sink ht hmem.1

end Scheduler

/-! ### Operations and runs -/

namespace Operation

variable {s : Scheduler p σ} {o : Operation}

omit [Store σ] [LawfulStore σ] in
/-- A new tracker leaves the dependents gathered exactly if it is not put away from who waits for
it. -/
theorem gathered_insert_iff (hs : s.grid.WellFiled) (hg : s.grid.Tidy)
    (hgathered : ∀ k, s.grid.Gathered k) {now : Instant} {c : Chunk} {barrier : Option String}
    (hnew : s.grid.isLive c.key = false) {t : Tracker} (ht : s.Enrols now c barrier t) :
  (∀ k, (s.grid.insert t).Gathered k) ↔ ¬ (register c barrier).Scatters s
  := by
  have hkey : t.key = c.key := by rw [ht.key, Scheduler.newcomer_key]
  constructor
  · rintro hafter ⟨-, u, hu, hmem, hsink⟩
    have huser := (Grid.mem_trackers hs).mp hu
    -- Who waits is live, so it is not the chunk itself which is registered.
    have hne : u.key ≠ t.key := by
      intro heq
      rw [heq, hkey] at huser
      cases hnew.symm.trans (hg.isLive_left ⟨u, huser, hmem⟩)
    have hitself : (s.grid.insert t).find? c.key = some t := by
      rw [Grid.find?_insert, if_pos hkey.symm]
    have hother : (s.grid.insert t).find? u.key = some u := by
      rw [Grid.find?_insert, if_neg hne, huser]
    apply hsink
    rw [hafter c.key t hitself u.key u hother hmem, ht.sink]
  · intro hnot
    apply Grid.Gathered.insert hgathered
    · intro j hj
      have hlatest := ((ht.mem_waitingOn_iff hs hg).mp hj).1
      exact ⟨hlatest.shares, hlatest.ne⟩
    · intro j u hj hu hmem
      rw [ht.sink]
      by_contra hsink
      obtain rfl := hs.key hu
      apply hnot ⟨hnew, u, (Grid.mem_trackers hs).mpr hu, hkey ▸ hmem, hsink⟩

/-- Where all dependents are gathered, an operation keeps them gathered exactly if it does not
register a chunk away from who waits for it. -/
theorem perform_gathered_iff (hs : s.board.Sound) (hg : s.grid.Tidy)
    (hgathered : ∀ k, s.grid.Gathered k) (now : Instant) :
  (∀ k, ((o.perform now).stateAfter s).grid.Gathered k) ↔ ¬ o.Scatters s
  := by
  have heffect := (perform_effect hs now o).2
  by_cases hnew : ∃ c barrier, o = register c barrier ∧ s.grid.isLive c.key = false
  · obtain ⟨c, barrier, rfl, hnew⟩ := hnew
    obtain ⟨t, ht, hgrid⟩ := heffect.2 hnew
    rw [hgrid]
    apply gathered_insert_iff hs.filed hg hgathered hnew ht
  · have hstays : ¬ o.Scatters s := by
      intro hscatters
      cases o with
      | register c barrier => exact hnew ⟨c, barrier, rfl, hscatters.1⟩
      | _ => exact hscatters
    constructor
    · exact fun _ => hstays
    · intro _ k
      apply Grid.gathered_of_trims _ (hgathered k)
      intro k t' ht'
      apply heffect.trims _ ht'
      intro c barrier ho
      rw [← Bool.not_eq_false]
      exact fun hnot => hnew ⟨c, barrier, ho, hnot⟩

/-- The dependents are gathered all along a run exactly if it scatters none of them. -/
theorem run_gathered_iff (hs : s.board.Sound) (hg : s.grid.Tidy)
    (hgathered : ∀ k, s.grid.Gathered k) (os : List (Instant × Operation)) :
  (∀ os', os' <+: os → ∀ k, (run s os').2.grid.Gathered k)
    ↔ Permits (fun s o => ¬ o.Scatters s) s os
  := by
  apply along_run_iff (J := fun s => s.board.Sound ∧ s.grid.Tidy)
    (I := fun s => ∀ k, s.grid.Gathered k)
  · intro s now o hs
    obtain ⟨hsound, heffect⟩ := perform_effect hs.1 now o
    exact ⟨hsound, hs.2.perform heffect⟩
  · exact fun s now o hs h => perform_gathered_iff hs.1 hs.2 h now
  · exact ⟨hs, hg⟩
  · exact hgathered

end Operation

/--
In every state which operations lead to from an empty store which works, a completion succeeds, and
leaves nobody waiting for its key exactly if all who waited for it go to the sink of its tracker, or
it has none.  Along a run this is so in every state and for every key exactly if no chunk which is
not live is registered for another sink than a chunk which waits for it.
-/
theorem complete_leaves_nobody_waiting_iff {settings : Settings} {listening : Bool} {store : σ}
    (hworks : LawfulStore.works store) (hrows : LawfulStore.rows store = ∅)
    (os : List (Instant × Operation)) :
  (∀ os' s, os' <+: os → (Operation.run (Scheduler.start settings listening store) os').2 = s →
      ∀ now k, (Scheduler.complete now k).Yields s (fun _ s' =>
        (∀ t ∈ s'.grid.trackers, k ∉ t.waitingOn) ↔ s.grid.Gathered k)) ∧
    ((∀ os' s, os' <+: os → (Operation.run (Scheduler.start settings listening store) os').2 = s →
        ∀ now k, (Scheduler.complete now k).Yields s (fun _ s' =>
          ∀ t ∈ s'.grid.trackers, k ∉ t.waitingOn))
      ↔ Operation.Permits (fun s o => ¬ o.Scatters s)
          (Scheduler.start settings listening store) os)
  := by
  have hsound : ∀ os',
      (Operation.run (Scheduler.start settings listening store) os').2.board.Sound := by
    intro os'
    apply ((Operation.reachable_run _ os').tidy hworks hrows).1
  have htidy : (Scheduler.start settings listening store).grid.Tidy := Grid.orderly_empty.toTidy
  have hgathered : ∀ k, (Scheduler.start settings listening store).grid.Gathered k := by
    intro k u hu
    cases (Grid.find?_empty k).symm.trans hu
  have hcomplete := fun os' => Scheduler.complete_leaves_none_iff (hsound os')
  constructor
  · rintro os' s - rfl now k
    apply hcomplete
  · rw [← Operation.run_gathered_iff (Board.sound_start hworks hrows) htidy hgathered]
    constructor
    · intro hall os' hos' k
      obtain ⟨_, s', heq, hiff⟩ := yields_iff.mp (hcomplete os' default k)
      have hnone := (ends_of_ok heq).mp (hall os' _ hos' rfl default k)
      apply hiff.mp hnone
    · rintro hall os' s hos' rfl now k
      apply (hcomplete os' now k).mono
      exact fun _ _ hiff => hiff.mpr (hall os' hos' k)

/-- Chunk 1 waits for chunk 0, which is removed and registered again for the same sink. -/
theorem complete_leaves_nobody_waiting_iff_of_return :
  let store := Memory.ofList []
  let os := [(default, .register (.sample 1 0 ["a"]) none),
    (default, .register (.sample 1 1 ["a"]) none), (default, .remove ⟨1, 0⟩),
    (default, .register (.sample 1 0 ["a"]) none)]
  let s := (Operation.run (Scheduler.start .standard true store) os).2
  LawfulStore.works store ∧ LawfulStore.rows store = ∅ ∧
    (∃ t ∈ s.grid.trackers, ⟨1, 0⟩ ∈ t.waitingOn) ∧
    (Scheduler.complete default ⟨1, 0⟩).Yields s (fun _ s' =>
      ∀ t ∈ s'.grid.trackers, ⟨1, 0⟩ ∉ t.waitingOn)
  := by
  intro store os s
  have hworks : LawfulStore.works store := trivial
  have hrows : LawfulStore.rows store = ∅ := rfl
  have hs : (Operation.run (Scheduler.start .standard true store) os).2 = s := rfl
  have hwaits : ∃ t ∈ s.grid.trackers, ⟨1, 0⟩ ∈ t.waitingOn := by decide +kernel
  have hsinks : ∀ t ∈ s.grid.trackers, t.sink = 1 := by decide +kernel
  clear_value s
  have hfiled : s.grid.WellFiled := by
    rw [← hs]
    apply ((Operation.reachable_run _ os).tidy hworks hrows).1.filed
  refine ⟨hworks, hrows, hwaits, ?_⟩
  apply ((complete_leaves_nobody_waiting_iff hworks hrows os).1 os s (List.prefix_refl os) hs
    default ⟨1, 0⟩).mono
  intro _ _ hiff
  apply hiff.mpr (Grid.gathered_of_sink hfiled hsinks ⟨1, 0⟩)

/--
Chunk 1 of sink 1 waits for chunk 0, which is removed and registered again for sink 2.  When chunk 0
is completed, chunk 1 goes on waiting for it.
-/
theorem complete_leaves_one_waiting :
  let s := Scheduler.afterAll [.register (.sample 1 0 ["a"]) none,
    .register (.sample 1 1 ["a"]) none, .remove ⟨1, 0⟩,
    .register ((Chunk.sample 1 0 ["a"]).to 2) none, .complete ⟨1, 0⟩]
  s.grid.find? ⟨1, 0⟩ = none ∧ ∃ t ∈ s.grid.trackers, ⟨1, 0⟩ ∈ t.waitingOn
  := by
  decide +kernel

end ChunkDispatch
