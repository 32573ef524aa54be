import ChunkDispatch.Proofs.Run

/-!
# Deadlock

As long as chunks leave scheduling only by being completed, whatever is waited for is live, nobody
waits in a cycle, and from a blocked chunk one comes to a free chunk.  When a chunk is removed while
others wait for it and is registered again, a cycle may be closed: a holder which waits for the
chunk directly is not waited for, but one which waits for it through others is.
-/

namespace ChunkDispatch

open Attempt Relation

variable {σ : Type} [Store σ] [LawfulStore σ] {settings : Settings} {listening : Bool} {store : σ}
variable {s : Scheduler (.ofCount settings.partitions) σ}

/-! ### Progress -/

/--
Whatever is waited for is another live tracker, of the same lane and with a common hash; nobody
waits in a cycle; and a blocked tracker reaches a free one.
-/
theorem blocked_reaches_free (hworks : LawfulStore.works store)
    (hrows : LawfulStore.rows store = ∅)
    (hs : Reachable (fun _ o => o.IsCareful) (Scheduler.start settings listening store) s) :
  (∀ k t, s.grid.find? k = some t → ∀ j ∈ t.waitingOn, j ≠ k ∧
      ∃ u, s.grid.find? j = some u ∧ u.isLive = true ∧ u.lane = t.lane ∧
        ∃ h ∈ t.hashes, h ∈ u.hashes) ∧
    s.grid.Acyclic ∧
    ∀ k t, s.grid.find? k = some t → t.status = .blocked →
      ∃ j, s.grid.Reaches k j ∧ s.grid.isFree j = true
  := by
  obtain ⟨-, hg⟩ := hs.orderly hworks hrows (fun _ _ => id)
  refine ⟨?_, hg.acyclic, ?_⟩
  · intro k t ht j hj
    constructor
    · rintro rfl
      apply hg.acyclic j (TransGen.single ⟨t, ht, hj⟩)
    · obtain ⟨h, hh, u, hu, hlive, hlane, hhu⟩ := hg.shares k t ht j hj
      exact ⟨u, hu, hlive, hlane, h, hh, hhu⟩
  · intro k t ht hblocked
    apply hg.exists_free ht hblocked

/-- Chunks registered against the order of their keys, one of them again after its completion. -/
theorem blocked_reaches_free_of_three :
  let s := Scheduler.afterAll [.register (.sample 1 2 ["a"]) none, .complete ⟨1, 2⟩,
    .register (.sample 1 1 ["a", "b"]) none, .register (.sample 1 0 ["b"]) none,
    .register (.sample 1 2 ["b"]) none]
  s.grid.waitSet ⟨1, 2⟩ = [⟨1, 1⟩] ∧ ∃ j, s.grid.Reaches ⟨1, 2⟩ j ∧ s.grid.isFree j = true
  := by
  intro s
  have hs : Reachable (fun _ o => o.IsCareful)
      (Scheduler.start .standard true (Memory.ofList [])) s :=
    Scheduler.reachable_afterAll ⟨trivial, trivial, trivial, trivial, trivial, trivial⟩
  have hwaits : s.grid.waitSet ⟨1, 2⟩ = [⟨1, 1⟩] := by decide +kernel
  have hblocked : (s.grid.find? ⟨1, 2⟩).map Tracker.status = some .blocked := by decide +kernel
  clear_value s
  obtain ⟨t, ht, hstatus⟩ := Option.map_eq_some_iff.mp hblocked
  use hwaits
  apply (blocked_reaches_free trivial rfl hs).2.2 _ t ht hstatus

/-! ### Registering again -/

/--
Registering a chunk closes a cycle exactly if the chunk is not live and one of the latest holders of
its hashes, of those which do not wait for the chunk directly, reaches it.
-/
theorem register_acyclic_iff (hworks : LawfulStore.works store)
    (hrows : LawfulStore.rows store = ∅)
    (hs : Reachable (fun _ _ => True) (Scheduler.start settings listening store) s)
    (hacyclic : s.grid.Acyclic) (now : Instant) (c : Chunk) (barrier : Option String) :
  (Scheduler.register now c barrier).Yields s (fun _ s' => s'.grid.Acyclic ↔
    s.grid.isLive c.key = true ∨
      ∀ d, s.grid.Latest (Scheduler.newcomer now c barrier) d → ¬ s.grid.Reaches d c.key)
  := by
  obtain ⟨hsound, htidy⟩ := hs.tidy hworks hrows
  cases hlive : s.grid.isLive c.key with
  | true =>
    apply (Scheduler.register_yields_of_live hsound now barrier hlive).mono
    rintro _ s' ⟨_, heases⟩
    have hacyclic' : s'.grid.Acyclic := hacyclic.mono (fun _ _ => heases.loosens.waits)
    apply iff_of_true hacyclic' (Or.inl rfl)
  | false =>
    apply (Scheduler.register_yields hsound now barrier hlive).mono
    rintro t s' ⟨-, ht, hgrid⟩
    have hkey : t.key = c.key := by rw [ht.key, Scheduler.newcomer_key]
    rw [hgrid, ht.acyclic_insert_iff hsound.filed htidy hacyclic, hkey]
    simp

/-- Chunk 1 is removed while 2 waits for it and 3 waits for 2. -/
def removal : List Operation := [
  .register (.sample 1 1 ["x", "z"]) none,
  .register (.sample 1 2 ["x", "y"]) none,
  .register (.sample 1 3 ["y", "z"]) none,
  .remove ⟨1, 1⟩]

theorem acyclic_after_removal :
  let s := Scheduler.afterAll removal
  Reachable (fun _ _ => True) (Scheduler.start .standard true (Memory.ofList [])) s ∧
    s.grid.Acyclic
  := by
  intro s
  have hs : Reachable (fun _ _ => True)
      (Scheduler.start .standard true (Memory.ofList [])) s :=
    Scheduler.reachable_afterAll ⟨trivial, trivial, trivial, trivial, trivial⟩
  use hs
  apply Grid.acyclic_of_descending (hs.tidy trivial rfl).1.filed
  decide +kernel

/-- When chunk 1 comes again, chunk 3 is the latest holder of a hash of it. -/
theorem register_acyclic_iff_of_removed :
  let s := Scheduler.afterAll removal
  s.grid.Acyclic ∧
    (Scheduler.register default (.sample 1 1 ["x", "z"]) none).Yields s (fun _ s' =>
      s'.grid.Acyclic ↔ s.grid.isLive ⟨1, 1⟩ = true ∨
        ∀ d, s.grid.Latest (Scheduler.newcomer default (.sample 1 1 ["x", "z"]) none) d →
          ¬ s.grid.Reaches d ⟨1, 1⟩)
  := by
  obtain ⟨hs, hacyclic⟩ := acyclic_after_removal
  use hacyclic
  apply register_acyclic_iff trivial rfl hs hacyclic

/-- Registered again, chunk 1 waits for 3, which waits for 2, which still waits for 1. -/
theorem register_closes_cycle :
  let s := Scheduler.afterAll removal
  let s' := Scheduler.afterAll (removal ++ [.register (.sample 1 1 ["x", "z"]) none])
  s.grid.Acyclic ∧ ¬ s'.grid.Acyclic
  := by
  intro s s'
  have h13 : s'.grid.Waits ⟨1, 1⟩ ⟨1, 3⟩ := by decide +kernel
  have h32 : s'.grid.Waits ⟨1, 3⟩ ⟨1, 2⟩ := by decide +kernel
  have h21 : s'.grid.Waits ⟨1, 2⟩ ⟨1, 1⟩ := by decide +kernel
  use acyclic_after_removal.2
  intro h
  apply h ⟨1, 1⟩
  apply TransGen.head h13
  apply TransGen.head h32
  apply TransGen.single h21

end ChunkDispatch
