import ChunkDispatch.Proofs.Consistency

/-!
# Trackers and their rows

A board is *backed* if its grid is well filed and each of its trackers is the row of its key.  Rows
which have not been loaded are *loose*, they lie in the store without a tracker, so a backed board
need not be coherent.  The board over any keyed rows is backed from the start and stays so, whatever
operations are made and whatever the store refuses, and loading does not change what is tracked
already.  Commits which replace only what is tracked leave the loose rows alone.
-/

namespace ChunkDispatch

open Attempt

variable {p : Partitioner} {σ : Type} [Store σ] [LawfulStore σ]

namespace Board

variable {b b' : Board p σ} {P : Option Tracker → Option Tracker → Prop}

/-- Every row lies under its key, and every tracker is a row. -/
structure Backed (b : Board p σ) : Prop where
  filed : b.grid.WellFiled
  keyed : ∀ k t, (LawfulStore.rows b.store).find? k = some t → t.key = k
  agree : ∀ k t, b.grid.find? k = some t → (LawfulStore.rows b.store).find? k = some t

theorem Coherent.backed (hb : b.Coherent) :
  b.Backed
  := by
  refine ⟨hb.filed, hb.keyed, ?_⟩
  intro k t ht
  rw [hb.agree, ht]

theorem backed_start {store : σ}
    (hkeyed : ∀ k t, (LawfulStore.rows store).find? k = some t → t.key = k) :
  (start p store).Backed
  := by
  refine ⟨Grid.wellFiled_empty, hkeyed, ?_⟩
  intro k t ht
  cases (Grid.find?_empty k).symm.trans ht

theorem Backed.commit (hb : b.Backed) (h : b.Commit P b') :
  b'.Backed
  := by
  obtain ⟨written, -, hgrid, hrows⟩ := h.exists_written
  have hfiled := h.filed hb.filed
  use hfiled
  · intro k t ht
    cases hk : written k with
    | none =>
      rw [hrows, hk] at ht
      apply hb.keyed k t ht
    | some new =>
      -- what is written to the rows is written to the grid, which is well filed
      apply hfiled.key
      rw [hgrid, hk]
      rw [hrows, hk] at ht
      apply ht
  · intro k t ht
    rw [hgrid] at ht
    rw [hrows]
    cases hk : written k with
    | none =>
      rw [hk] at ht
      apply hb.agree k t ht
    | some new =>
      rw [hk] at ht
      apply ht

theorem Backed.commits (hb : b.Backed) (h : b.Commits P b') :
  b'.Backed
  := by
  induction h with
  | refl => exact hb
  | tail _ hstep ih => apply ih.commit hstep

/-- The row of a key which is not tracked. -/
def loose? (b : Board p σ) (k : Key) : Option Tracker :=
  if (b.grid.find? k).isSome then none else (LawfulStore.rows b.store).find? k

/-- A row is a tracker, or it is loose. -/
theorem Backed.find?_rows (hb : b.Backed) (k : Key) :
  (LawfulStore.rows b.store).find? k = (b.grid.find? k).or (b.loose? k)
  := by
  rw [loose?]
  cases ht : b.grid.find? k with
  | none => rfl
  | some t => apply hb.agree k t ht

/-- Where nothing is tracked nothing is written, so the loose rows stay. -/
theorem Commits.loose? (h : b.Commits P b') (hP : ∀ old new, P old new → old.isSome = true)
    (k : Key) :
  b'.loose? k = b.loose? k
  := by
  induction h with
  | refl => rfl
  | tail _ hstep ih =>
    rw [← ih]
    obtain ⟨written, hwritten, hgrid, hrows⟩ := hstep.exists_written
    rw [Board.loose?, Board.loose?, hgrid, hrows]
    cases hk : written k with
    | none => rfl
    | some new =>
      rw [if_pos (hP _ _ (hwritten k new hk))]
      cases new <;> rfl

theorem Refused.loose? (h : b.Refused b') (k : Key) :
  b'.loose? k = b.loose? k
  := by
  rw [Board.loose?, Board.loose?, h.grid, h.rows]

theorem Refused.backed (h : b.Refused b') (hb : b.Backed) :
  b'.Backed
  := hb.commit (P := fun _ _ => True) (.refused h)

end Board

/-- Loading the rows of a backed board keeps every tracker that is there. -/
theorem Scheduler.load_backed {s : Scheduler p σ} (hs : s.board.Backed) (now : Instant) :
  (load now).Ends s
    (fun _ s' => s'.board.Backed ∧ ∀ k t, s.grid.find? k = some t → s'.grid.find? k = some t)
    (fun _ s' => s'.board.Backed ∧ ∀ k t, s.grid.find? k = some t → s'.grid.find? k = some t)
  := by
  rw [load, ends_bind, ends_onBoard]
  apply (Board.loadAll_coherent hs.keyed).mono
  · rintro n b ⟨hb, -, hfind⟩
    rw [ends_bind, ends_modify, ends_pure]
    use hb.backed.commit (P := fun _ _ => True) (.book ⟨_, rfl⟩)
    intro k t ht
    apply (hfind k).trans (hs.agree k t ht)
  · rintro _ b h
    use h.backed hs
    intro k t ht
    rw [withBoard_grid, h.grid]
    apply ht

/-- Every operation leaves a backed board, however it ends. -/
theorem Operation.perform_backed {s : Scheduler p σ} (hs : s.board.Backed) (now : Instant)
    (o : Operation) :
  (o.perform now).Ends s (fun _ s' => s'.board.Backed) (fun _ s' => s'.board.Backed)
  := by
  by_cases ho : o = .load
  · subst ho
    rw [perform, ends_bind]
    apply (Scheduler.load_backed hs now).mono
    · exact fun _ _ => And.left
    · exact fun _ _ => And.left
  · apply (perform_commitsOnly now ho s).mono
    · exact fun _ _ h => hs.commits (h hs.filed)
    · exact fun _ _ h => hs.commits (h hs.filed).1

/-- Over keyed rows the board stays backed, whatever operations are permitted. -/
theorem Reachable.backed {settings : Settings} {listening : Bool} {store : σ}
    {permitted : Scheduler (.ofCount settings.partitions) σ → Operation → Prop}
    {s : Scheduler (.ofCount settings.partitions) σ}
    (hkeyed : ∀ k t, (LawfulStore.rows store).find? k = some t → t.key = k)
    (hs : Reachable permitted (Scheduler.start settings listening store) s) :
  s.board.Backed
  := by
  induction hs with
  | start => apply Board.backed_start hkeyed
  | step now o _ _ ih => apply (Operation.perform_backed ih now o).stateAfter

end ChunkDispatch
