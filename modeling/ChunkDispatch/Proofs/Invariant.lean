import ChunkDispatch.Proofs.Operation
import ChunkDispatch.Proofs.Run

/-!
# Properties of all trackers

A property is *passed on* where a tracker with it takes the place of one with it, or of none.  Each
write is taken or refused as a whole, and what is loaded are the rows.  So if all that operations
write passes a property on, and the rows of a store have it to begin with, every tracker and every
row has it after any operations and whatever the store refuses.
-/

namespace ChunkDispatch

open Attempt

/-- If what was there has the property, what takes its place has it. -/
def PassesOn (P : Tracker → Prop) (old new : Option Tracker) : Prop :=
  (∀ t, old = some t → P t) → ∀ t, new = some t → P t

variable {p : Partitioner} {σ : Type} [Store σ] [LawfulStore σ] {P : Tracker → Prop}

namespace Board

variable {b b' : Board p σ}

/-- All that is found in the grid and in the rows has the property. -/
structure All (P : Tracker → Prop) (b : Board p σ) : Prop where
  filed : b.grid.WellFiled
  tracked : ∀ k t, b.grid.find? k = some t → P t
  stored : ∀ k t, (LawfulStore.rows b.store).find? k = some t → P t

theorem All.commit (hb : b.All P) (h : b.Commit (PassesOn P) b') :
  b'.All P
  := by
  obtain ⟨written, hpasses, hgrid, hrows⟩ := h.exists_written
  have hwritten : ∀ {k new}, written k = some new → ∀ t, new = some t → P t :=
    fun hk => hpasses _ _ hk (hb.tracked _)
  use h.filed hb.filed
  · intro k t ht
    rw [hgrid] at ht
    cases hk : written k with
    | none =>
      rw [hk] at ht
      apply hb.tracked k t ht
    | some new =>
      rw [hk] at ht
      apply hwritten hk t ht
  · intro k t ht
    rw [hrows] at ht
    cases hk : written k with
    | none =>
      rw [hk] at ht
      apply hb.stored k t ht
    | some new =>
      rw [hk] at ht
      apply hwritten hk t ht

theorem All.commits (hb : b.All P) (h : b.Commits (PassesOn P) b') :
  b'.All P
  := by
  induction h with
  | refl => exact hb
  | tail _ hstep ih => apply ih.commit hstep

/-- What is loaded has the property, as the rows have it. -/
theorem loadAll_all (hb : b.All P) :
  (loadAll : Attempt (Board p σ) Nat).Ends b (fun _ => All P) (fun _ => All P)
  := by
  apply (loadAll_ends b).mono
  · rintro _ _ ⟨s, ts, hrows, -, hts, -, rfl⟩
    use Grid.wellFiled_ofTrackers ts
    · intro k t ht
      change (ts.foldl (fun g t => g.insert t) (Grid.empty p)).find? k = some t at ht
      rw [Grid.find?_foldl_insert, Grid.find?_empty, Option.or_none] at ht
      obtain ⟨k', hk'⟩ := (hts t).mp (List.mem_reverse.mp (List.mem_of_find?_eq_some ht))
      apply hb.stored k' t hk'
    · rw [hrows]
      apply hb.stored
  · intro _ b' h
    have hcommit : b.Commit (PassesOn P) b' := .refused h
    apply hb.commit hcommit

end Board

/-- An operation whose writes pass the property on leaves it to all, however it ends. -/
theorem Operation.perform_all {s : Scheduler p σ} (hs : s.board.All P) {now : Instant}
    {o : Operation}
    (ho : o ≠ load →
      Scheduler.CommitsOnly (PassesOn P) True (o.perform now : Attempt (Scheduler p σ) Answer)) :
  (o.perform now).Ends s (fun _ s' => s'.board.All P) (fun _ s' => s'.board.All P)
  := by
  by_cases hload : o = load
  · subst hload
    rw [perform, ends_bind, Scheduler.load, ends_bind, Scheduler.ends_onBoard]
    apply (Board.loadAll_all hs).mono
    · intro n b hb
      rw [ends_bind, ends_modify, ends_pure]
      have hbook : b.Commit (PassesOn P) (Scheduler.recount now ∅ { s with board := b }).board :=
        .book ⟨_, rfl⟩
      apply hb.commit hbook
    · exact fun _ _ => id
  · apply (ho hload s).mono
    · exact fun _ _ h => hs.commits (h hs.filed)
    · exact fun _ _ h => hs.commits (h hs.filed).1

/-- What all rows have to begin with and all writes pass on, all trackers and rows have ever
after. -/
theorem Reachable.all {settings : Settings} {listening : Bool} {store : σ}
    {permitted : Scheduler (.ofCount settings.partitions) σ → Operation → Prop}
    {s : Scheduler (.ofCount settings.partitions) σ}
    (hpasses : ∀ (now : Instant) (o : Operation), o ≠ .load →
      Scheduler.CommitsOnly (PassesOn P) True
        (o.perform now : Attempt (Scheduler (.ofCount settings.partitions) σ) Operation.Answer))
    (hrows : ∀ k t, (LawfulStore.rows store).find? k = some t → P t)
    (hs : Reachable permitted (Scheduler.start settings listening store) s) :
  s.board.All P
  := by
  induction hs with
  | start =>
    use Grid.wellFiled_empty
    · intro k t ht
      cases (Grid.find?_empty k).symm.trans ht
    · apply hrows
  | step now o _ _ ih => apply (Operation.perform_all ih (hpasses now o)).stateAfter

end ChunkDispatch
