import ChunkDispatch.Proofs.Boost
import ChunkDispatch.Proofs.Counters
import ChunkDispatch.Store.Scripted

/-!
# Inherited priorities

A boost *carries* its priority from the given keys if it is the least priority of all that following
wait sets leads to from them.  But it goes on only from the trackers it raises itself, so it stops
at one which has the priority already, whomever that one waits for.  Hence every boost carries its
priority exactly if priorities are *inherited* before: nobody waits for a tracker of lower priority.
-/

namespace ChunkDispatch

open Attempt Relation

variable {p : Partitioner}

namespace Grid

variable {g g' : Grid p} {priority : Int32} {keys : List Key}

/-- All tracked keys to which following wait sets leads from a given one have the priority, or a
higher one. -/
def Carries (g : Grid p) (priority : Int32) (keys : List Key) : Prop :=
  ∀ j ∈ keys, ∀ k t, ReflTransGen g.Waits j k → g.find? k = some t → priority ≤ t.priority

/-- Whoever is waited for has the priority of those who wait for it, or a higher one. -/
def Inherits (g : Grid p) : Prop :=
  ∀ k j t u, g.find? k = some t → j ∈ t.waitingOn → g.find? j = some u → t.priority ≤ u.priority

/-- Who waits for whom does not depend on priorities. -/
theorem Raises.waits {now : Instant} {S : Set Key} (h : Raises now priority S g g') :
  g'.Waits = g.Waits
  := by
  funext k j
  unfold Waits
  by_cases hk : k ∈ S
  · rw [h.raised k hk]
    simp only [Option.map_eq_some_iff, exists_exists_and_eq_and]
    rfl
  · rw [h.others k hk]

/--
When just the lifted keys have been raised, the priority is carried exactly if all keys which were
below it and to which following wait sets leads are among them.
-/
theorem Raises.carries_iff {now : Instant}
    (h : Raises now priority { k | g.Lifted priority keys k } g g') :
  g'.Carries priority keys
    ↔ ∀ j ∈ keys, ∀ k, ReflTransGen g.Waits j k → g.Below priority k → g.Lifted priority keys k
  := by
  rw [Carries, h.waits]
  constructor
  · rintro hcarries j hj k hpath ⟨t, ht, hlt⟩
    by_contra hnot
    have hle := hcarries j hj k t hpath ((h.others k hnot).trans ht)
    exact Std.not_le.mpr hlt hle
  · intro hlifted j hj k t' hpath ht'
    by_cases hk : g.Lifted priority keys k
    · rw [h.raised k hk] at ht'
      obtain ⟨t, -, rfl⟩ := Option.map_eq_some_iff.mp ht'
      exact Std.le_refl priority
    · rw [h.others k hk] at ht'
      apply Std.not_lt.mp
      exact fun hlt => hk (hlifted j hj k hpath ⟨t', ht', hlt⟩)

/-- Where priorities are inherited, all keys on a path to one below the priority are below it. -/
theorem Inherits.lifted (hg : g.Inherits) {j k : Key} (hj : j ∈ keys)
    (hpath : ReflTransGen g.Waits j k) (hbelow : g.Below priority k) :
  g.Lifted priority keys k
  := by
  induction hpath with
  | refl => exact Lifted.given hj hbelow
  | tail _ hwaits ih =>
    obtain ⟨u, hu, hlt⟩ := hbelow
    obtain ⟨t, ht, hmem⟩ := hwaits
    have hle := hg _ _ t u ht hmem hu
    exact Lifted.waits (ih ⟨t, ht, Std.lt_of_le_of_lt hle hlt⟩) ⟨t, ht, hmem⟩ ⟨u, hu, hlt⟩

end Grid

namespace Scheduler

variable {σ : Type} [Store σ] [LawfulStore σ]

/--
After any operations, and whatever the store refused of them, a boost which succeeds carries its
priority exactly if every key below it, to which following wait sets leads from a given one, is also
reached from one by a path all of which is below it.  So all boosts do exactly if priorities are
inherited.
-/
theorem boost_carries_iff {settings : Settings} {listening : Bool} {store : σ}
    {s : Scheduler (.ofCount settings.partitions) σ}
    (hs : Reachable (fun _ _ => True) (start settings listening store) s) :
  (∀ now keys priority, (boost now keys priority).Ends s
    (fun _ s' => s'.grid.Carries priority keys ↔
      ∀ j ∈ keys, ∀ k, ReflTransGen s.grid.Waits j k → s.grid.Below priority k →
        s.grid.Lifted priority keys k)
    (fun _ _ => True)) ∧
  ((∀ now keys priority, (boost now keys priority).Ends s
      (fun _ s' => s'.grid.Carries priority keys) (fun _ _ => True)) ↔ s.grid.Inherits)
  := by
  have hfiled : s.grid.WellFiled := hs.counted.filed
  constructor
  · intro now keys priority
    apply (boost_ends hfiled now keys priority).mono
    · exact fun _ _ h => h.2.1.carries_iff
    · exact fun _ _ => id
  · constructor
    -- A boost of one who waits to its own priority changes nothing, so it succeeds on any store.
    · intro hcarries k j t u ht hmem hu
      have hidle : ∀ i ∈ [k], ¬ s.grid.Below t.priority i := by
        rintro i hi ⟨t', ht', hlt⟩
        rw [List.mem_singleton.mp hi, ht] at ht'
        obtain rfl := Option.some.inj ht'
        exact Std.lt_irrefl hlt
      obtain ⟨n, s', hended, -, rfl⟩ := yields_iff.mp (boost_idle hfiled default hidle)
      have hafter := (ends_of_ok hended).mp (hcarries default [k] t.priority)
      exact hafter k List.mem_cons_self j u (ReflTransGen.single ⟨t, ht, hmem⟩) hu
    · intro hinherits now keys priority
      apply (boost_ends hfiled now keys priority).mono
      · rintro _ s' ⟨-, hraises, -⟩
        apply hraises.carries_iff.mpr
        exact fun j hj k hpath hbelow => hinherits.lifted hj hpath hbelow
      · exact fun _ _ => id

/-- Chunk 1 waits for chunk 0. -/
def pair : List Operation :=
  [.register (.sample 1 0 ["a"]) none, .register (.sample 1 1 ["a"]) none]

/-- While both chunks have one priority, a boost of the one that waits carries its own. -/
theorem boost_carries_iff_of_pair :
  (afterAll pair).grid.Inherits ∧ (boost default [⟨1, 1⟩] 5).Yields (afterAll pair)
    (fun n s' => n = 2 ∧ s'.grid.Carries 5 [⟨1, 1⟩])
  := by
  have hs : Reachable (fun _ _ => True) (start .standard true (Memory.ofList []))
      (afterAll pair) := reachable_afterAll ⟨trivial, trivial, trivial⟩
  have heven : ∀ t ∈ (afterAll pair).grid.trackers, t.priority = 0 := by decide +kernel
  have houtcome : (boost default [⟨1, 1⟩] 5).outcome (afterAll pair) = .ok 2 := by decide +kernel
  generalize afterAll pair = s at hs heven houtcome ⊢
  have hfiled : s.grid.WellFiled := hs.counted.filed
  have hzero : ∀ k t, s.grid.find? k = some t → t.priority = 0 := by
    intro k t ht
    apply heven t
    apply (Grid.mem_trackers hfiled).mpr
    rwa [hfiled.key ht]
  have hinherits : s.grid.Inherits := by
    intro k j t u ht _ hu
    rw [hzero k t ht, hzero j u hu]
    exact Std.le_refl 0
  use hinherits
  apply (Ends.and (yields_of_outcome houtcome)
    ((boost_carries_iff hs).2.mpr hinherits default [⟨1, 1⟩] 5)).mono
  · exact fun _ _ => id
  · exact fun _ _ => And.left

/-- A store which refuses its fourth write, and no other. -/
def faltering : Scripted Memory :=
  { Scripted.of (.ofList []) with writeRefusals := ⟨fun i => i = 3, 0⟩ }

/-- Both chunks over the store which falters. -/
def paired : Scheduler (.ofCount Settings.standard.partitions) (Scripted Memory) :=
  (Operation.run (start .standard true faltering) (pair.map (fun o => (default, o)))).2

/--
A boost of chunk 1 raises it and fails before chunk 0 is raised.  Made again it succeeds, but finds
chunk 1 raised already, and goes no further.
-/
theorem boost_again_misses :
  let keys : List Key := [⟨1, 1⟩]
  let s₁ := (Operation.run paired [(default, .boost keys 5)]).2
  let s₂ := (boost default keys 5).stateAfter s₁
  Reachable (fun _ _ => True) (start .standard true faltering) s₁ ∧
    (boost default keys 5).outcome paired = .error .writeRefused ∧
    (boost default keys 5).outcome s₁ = .ok 0 ∧ ¬ s₂.grid.Carries 5 keys
  := by
  intro keys s₁ s₂
  have hfails : (boost default keys 5).outcome paired = .error .writeRefused := by decide +kernel
  have hagain : (boost default keys 5).outcome s₁ = .ok 0 := by decide +kernel
  have hwaits : s₂.grid.Waits ⟨1, 1⟩ ⟨1, 0⟩ := by decide +kernel
  have hlow : (s₂.grid.find? ⟨1, 0⟩).map Tracker.priority = some 0 := by decide +kernel
  have hs : Reachable (fun _ _ => True) (start .standard true faltering) s₁ :=
    (Operation.reachable_run _ _).trans (Operation.reachable_run _ _)
  refine ⟨hs, hfails, hagain, ?_⟩
  clear_value s₂
  intro hcarries
  obtain ⟨t, ht, hpriority⟩ := Option.map_eq_some_iff.mp hlow
  have hle := hcarries ⟨1, 1⟩ List.mem_cons_self ⟨1, 0⟩ t (ReflTransGen.single hwaits) ht
  rw [hpriority] at hle
  exact absurd hle (by decide)

end Scheduler

end ChunkDispatch
