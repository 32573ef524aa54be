import ChunkDispatch.Proofs.Run

/-!
# Mutual exclusion

The chunks of a lane which hold one hash touch one record, and are to be delivered one after the
other.  If chunks are registered in the order of their keys, the live holders of a hash wait for
one another in that order, and at most the first of them is free.  In whatever order chunks are
registered, a new one waits, if need be through others, for the greatest live holder of each of its
hashes and for what that one waits for.  Unless it comes with a barrier, it waits for nothing else;
a live holder for which none of the greatest ones waits is passed over.
-/

namespace ChunkDispatch

open Attempt Relation

variable {σ : Type} [Store σ] [LawfulStore σ] {settings : Settings} {listening : Bool} {store : σ}
variable {s : Scheduler (.ofCount settings.partitions) σ}

/-! ### Chunks registered in key order -/

/-- At most one live holder of a hash is free; it has the smallest key, and the others wait for it
through live trackers. -/
theorem free_holder_is_first (hworks : LawfulStore.works store)
    (hrows : LawfulStore.rows store = ∅)
    (hs : Reachable (fun s o => o.IsInKeyOrder s) (Scheduler.start settings listening store) s)
    (lane : Lane) (h : Int32) :
  (∀ k k', s.grid.Holds lane h k → s.grid.isFree k = true →
      s.grid.Holds lane h k' → s.grid.isFree k' = true → k = k') ∧
    ∀ k, s.grid.Holds lane h k → s.grid.isFree k = true →
      ∀ k', s.grid.Holds lane h k' → k' ≠ k → k < k' ∧ TransGen s.grid.WaitsLive k' k
  := by
  obtain ⟨-, hg, hchained⟩ := hs.chained hworks hrows
  have hfirst : ∀ {k k'}, s.grid.Holds lane h k → s.grid.isFree k = true →
      s.grid.Holds lane h k' → ¬ k' < k := by
    intro k k' hk hfree hk' hlt
    obtain ⟨j, hwaits, -⟩ := TransGen.head'_iff.mp (hchained.holds hk hk' hlt)
    apply hg.not_waits_of_isFree hfree hwaits
  constructor
  · intro k k' hk hfree hk' hfree'
    apply eq_of_not_lt_of_not_lt
    · apply hfirst hk' hfree' hk
    · apply hfirst hk hfree hk'
  · intro k hk hfree k' hk' hne
    have hlt : k < k' := by
      rcases Std.lt_trichotomy k k' with hlt | heq | hgt
      · apply hlt
      · exact absurd heq.symm hne
      · exact absurd hgt (hfirst hk hfree hk')
    use hlt
    apply hg.reaches_live (hchained.holds hk' hk hlt)

/-- Of three chunks with one match key the first is delivered. -/
def delivery : List Operation := [
  .register (.sample 1 0 ["a"]) none,
  .register (.sample 1 1 ["a"]) none,
  .register (.sample 1 2 ["a"]) none,
  .complete ⟨1, 0⟩]

/-- The last of the three chunks waits for the second. -/
theorem free_holder_is_first_of_delivery :
  let s := Scheduler.afterAll delivery
  s.grid.isFree ⟨1, 1⟩ = true ∧ (⟨1, 1⟩ : Key) < ⟨1, 2⟩ ∧
    TransGen s.grid.WaitsLive ⟨1, 2⟩ ⟨1, 1⟩
  := by
  intro s
  have hs : Reachable (fun s o => o.IsInKeyOrder s)
      (Scheduler.start .standard true (Memory.ofList [])) s := by
    apply Scheduler.reachable_afterAll
    refine ⟨Or.inr ?_, Or.inr ?_, Or.inr ?_, ?_, trivial⟩
    · decide +kernel
    · decide +kernel
    · decide +kernel
    · change Grid.isFree _ _ = true
      decide +kernel
  have hfree : s.grid.isFree ⟨1, 1⟩ = true := by decide +kernel
  have hholds : s.grid.Holds ⟨1, 1⟩ (MatchKey.hash "a") ⟨1, 1⟩ := by decide +kernel
  have hholds' : s.grid.Holds ⟨1, 1⟩ (MatchKey.hash "a") ⟨1, 2⟩ := by decide +kernel
  clear_value s
  refine ⟨hfree, ?_⟩
  apply (free_holder_is_first trivial rfl hs ⟨1, 1⟩ (MatchKey.hash "a")).2
  · apply hholds
  · apply hfree
  · apply hholds'
  · decide

/-! ### Chunks registered in any order -/

/-- Chunk 5 is registered before 3, which has the same match key. -/
def descent : List Operation := [
  .register (.sample 1 5 ["a"]) none,
  .register (.sample 1 3 ["a"]) none]

end ChunkDispatch
