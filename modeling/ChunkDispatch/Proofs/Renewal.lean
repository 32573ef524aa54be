import ChunkDispatch.Proofs.Release
import ChunkDispatch.Proofs.Run

/-!
# Registering a live chunk again

A chunk which is live is not planned anew when it is registered again, whatever is said of it: its
tracker is *renewed*.  The tracker is released from those prerequisites which are gone, and is
queued and sent if it was blocked by them alone.  If none is gone nothing is done at all, so that to
register it a second time changes nothing.
-/

namespace ChunkDispatch

open Attempt

namespace Scheduler

variable {p : Partitioner} {σ : Type} {s : Scheduler p σ} {t : Tracker}

variable [Store σ] [LawfulStore σ]

/-- A tracker which is renewed is freed of what is gone, and sent if that frees it. -/
theorem carryOut_renew_ends (hs : s.grid.WellFiled) (ht : s.grid.find? t.key = some t)
    (now : Instant) (gone : List Key) :
  (carryOut now (.renew t gone)).Ends s
    (fun t' s' => t' = t.freed now gone ∧ s.board.Frees now t.key gone s'.board ∧
      s'.ready = s.ready.append (if t.isFreedBy gone then [t.key] else []))
    (fun _ _ => ¬ LawfulStore.works s.board.store)
  := by
  rw [carryOut, ends_bind]
  apply (dropFrom_frees hs ht now gone).mono
  · rintro _ s₁ ⟨rfl, hready, h⟩
    have hfreed : t.status = .blocked ∧ (t.freed now gone).status = .queuedForProcessing
        ↔ t.isFreedBy gone = true := by
      rw [Tracker.freed_status_eq]
      split
      · rename_i hfreed
        simp [hfreed, (Tracker.isFreedBy_iff.mp hfreed).1]
      · rename_i hnot
        apply iff_of_false _ hnot
        rintro ⟨hblocked, hqueued⟩
        cases hblocked.symm.trans hqueued
    simp only [hfreed]
    split
    · rw [ends_bind, ends_modify, ends_pure, send_board, send_ready, hready]
      exact ⟨rfl, h, rfl⟩
    · rw [ends_pure, ReadyStream.append_nil]
      exact ⟨rfl, h, hready⟩
  · exact fun _ _ => id

/--
To register a live chunk again drops those of its prerequisites which are not live, whatever is said
of it now, and leaves the rest of its tracker and all other trackers.  If it was blocked and none of
its prerequisites is live it is queued and sent; else the status stays and nothing is sent.  The
tracker which comes of it is that of the grid.  If all prerequisites are live nothing is written,
so that a second time nothing changes.
-/
theorem register_renews (hs : s.grid.WellFiled) (hworks : LawfulStore.works s.board.store)
    {c : Chunk} (ht : s.grid.find? c.key = some t) (hlive : t.isLive = true)
    (hconsistent : t.isConsistent = true) (now : Instant) (barrier : Option String) :
  (register now c barrier).Yields s (fun t' s' =>
    s'.grid.find? c.key = some t' ∧
    (∀ k, k ≠ c.key → s'.grid.find? k = s.grid.find? k) ∧
    (∃ m, t' = { t with
      waitingOn := t.waitingOn.filter s.grid.isLive, status := t'.status, lastModified := m }) ∧
    ((t.status = .blocked ∧ ∀ j ∈ t.waitingOn, s.grid.isLive j = false) →
      t'.status = .queuedForProcessing ∧ s'.ready = (s.send c.key).ready) ∧
    (¬ (t.status = .blocked ∧ ∀ j ∈ t.waitingOn, s.grid.isLive j = false) →
      t'.status = t.status ∧ s'.ready = s.ready) ∧
    ((∀ j ∈ t.waitingOn, s.grid.isLive j = true) → s' = s) ∧
    ∀ now', (register now' c barrier).Yields s' (fun t'' s'' => t'' = t' ∧ s'' = s'))
  := by
  have hkey : t.key = c.key := hs.key ht
  have hkept : (register now c barrier).Ends s
      (fun _ s' => (∀ j ∈ t.waitingOn, s.grid.isLive j = true) → s' = s)
      (fun _ _ => (∀ j ∈ t.waitingOn, s.grid.isLive j = true) → False) := by
    apply ends_imp
    intro hall
    apply (register_yields_of_kept ht hlive (goneFrom_eq_nil hall) now barrier).mono
    exact fun _ _ h => h.2
  have hrenewed : (register now c barrier).Ends s
      (fun t' s' => t' = t.freed now (s.goneFrom t) ∧
        s.board.Frees now t.key (s.goneFrom t) s'.board ∧
        s'.ready = s.ready.append (if t.isFreedBy (s.goneFrom t) then [t.key] else []))
      (fun _ _ => ¬ LawfulStore.works s.board.store) := by
    rw [register, ends_bind, ends_modifyGet, plan_of_live ht hlive]
    rw [← hkey] at ht
    apply carryOut_renew_ends hs ht
  apply (hrenewed.and hkept).mono
  · rintro _ s' ⟨⟨rfl, h, hready⟩, hkept⟩
    rw [hkey] at h hready
    have hfind : s'.grid.find? c.key = some (t.freed now (s.goneFrom t)) :=
      h.itself.trans (congrArg (Option.map _) ht)
    refine ⟨hfind, h.others, exists_freed_goneFrom_eq now, ?_, ?_, hkept, ?_⟩
    · intro hreleased
      have hfreed := (isFreedBy_goneFrom hconsistent).mpr hreleased
      rw [Tracker.freed_status_eq, hready, if_pos hfreed, if_pos hfreed, send_ready]
      exact ⟨rfl, rfl⟩
    · intro hnot
      have hfreed := fun h => hnot ((isFreedBy_goneFrom (s := s) hconsistent).mp h)
      rw [Tracker.freed_status_eq, hready, if_neg hfreed, if_neg hfreed, ReadyStream.append_nil]
      exact ⟨rfl, rfl⟩
    · intro now'
      apply register_yields_of_kept hfind _ (goneFrom_freed h.isLive) now' barrier
      rw [Tracker.freed_isLive, hlive]
  · exact fun _ _ h => h.1 hworks

/-- One prerequisite of a chunk was removed and the other set completed: registered again, even for
another sink, the chunk keeps its sink, is queued and is sent. -/
theorem register_renews_of_vanished :
  let s := afterAll [.register (.sample 1 0 ["a"]) none, .register (.sample 1 1 ["b"]) none,
    .register (.sample 2 0 ["a", "b"]) none, .remove ⟨1, 0⟩, .setStatus ⟨1, 1⟩ .completed]
  let c := (Chunk.sample 2 0 ["c"]).to 2
  ∃ t, s.grid.WellFiled ∧ LawfulStore.works s.board.store ∧ s.grid.find? c.key = some t ∧
    t.isLive = true ∧ t.isConsistent = true ∧ t.waitingOn.toList = [⟨1, 0⟩, ⟨1, 1⟩] ∧
    (register default c (some "x")).Yields s (fun t' s' => s'.grid.find? ⟨2, 0⟩ = some t' ∧
      t'.status = .queuedForProcessing ∧ t'.sink = 1 ∧ t'.waitingOn.toList = [] ∧
      s'.ready.sent = s.ready.sent ++ [⟨2, 0⟩])
  := by
  intro s c
  have hreachable : Reachable (fun _ _ => True) (start .standard true (.ofList [])) s :=
    reachable_afterAll (Operation.permits_of_forall (fun _ _ => trivial) _ _)
  obtain ⟨hs, htidy⟩ := hreachable.tidy trivial rfl
  have hfound : (s.grid.find? c.key).any (fun t => t.isLive && t.sink = 1 &&
      t.status = .blocked && t.waitingOn.toList = [⟨1, 0⟩, ⟨1, 1⟩]) = true := by
    decide +kernel
  have hgone : ∀ j ∈ [(⟨1, 0⟩ : Key), ⟨1, 1⟩], s.grid.isLive j = false := by decide +kernel
  have hlistening : s.ready.listening = true := by decide +kernel
  simp only [Option.any_eq_true, Bool.and_eq_true, decide_eq_true_eq] at hfound
  obtain ⟨t, ht, ⟨⟨hlive, hsink⟩, hblocked⟩, hwaits⟩ := hfound
  have hdead : ∀ j ∈ t.waitingOn, s.grid.isLive j = false := by
    intro j hj
    rw [SortedSet.mem_iff, hwaits] at hj
    apply hgone j hj
  have hconsistent := htidy.consistent c.key t ht
  refine ⟨t, hs.filed, hs.works, ht, hlive, hconsistent, hwaits, ?_⟩
  apply (register_renews hs.filed hs.works ht hlive hconsistent default (some "x")).mono
  rintro t' s' ⟨hfind, -, ⟨m, hm⟩, hreleased, -⟩
  obtain ⟨hqueued, hready⟩ := hreleased ⟨hblocked, hdead⟩
  refine ⟨hfind, hqueued, ?_, ?_, ?_⟩
  · rw [hm]
    exact hsink
  · rw [hm]
    apply List.filter_eq_nil_iff.mpr
    intro j hj
    rw [hdead j hj]
    exact Bool.false_ne_true
  · rw [hready, send, if_pos hlistening]
    rfl

end Scheduler

end ChunkDispatch
