import ChunkDispatch.Proofs.Release
import ChunkDispatch.Proofs.Run

/-!
# Prerequisites which vanish during a registration

A registration is planned at one scheduler and carried out at another, and in between others may
*remove* trackers.  When the plan is carried out the tracker is freed of those prerequisites which
are gone by then.  So a new chunk waits for those which are still live when it is written, and is
queued if there were some and none is left.
-/

namespace ChunkDispatch

open Attempt

/-! ### Removals -/

/-- The operation removes trackers and does nothing else. -/
def Operation.IsRemoval : Operation → Prop
  | .remove _ | .removeJob _ | .purge => True
  | _ => False

namespace Scheduler

variable {p : Partitioner} {σ : Type} {s s' : Scheduler p σ} [Store σ] [LawfulStore σ]
variable {now : Instant}

/-- The board went on by commits, and nothing was sent. -/
def Quietly (s s' : Scheduler p σ) : Prop :=
  s'.ready = s.ready ∧ (s.grid.WellFiled → s.board.Commits (fun _ _ => True) s'.board)

theorem Quietly.refl (s : Scheduler p σ) :
  s.Quietly s
  := ⟨rfl, fun _ => .refl⟩

theorem Quietly.trans {s'' : Scheduler p σ} (h : s.Quietly s') (h' : s'.Quietly s'') :
  s.Quietly s''
  := by
  refine ⟨h'.1.trans h.1, ?_⟩
  intro hs
  have hcommits := h.2 hs
  exact hcommits.trans (h'.2 (hcommits.filed hs))

/-- What commits only on the board goes on quietly. -/
theorem quietly_onBoard {α : Type} {x : Attempt (Board p σ) α}
    (hx : Board.CommitsOnly (fun _ _ => True) x) (s : Scheduler p σ) :
  s.Quietly ((onBoard x).stateAfter s)
  := by
  apply Ends.stateAfter (P := fun s' => s.Quietly s')
  rw [ends_onBoard]
  apply (hx s.board).mono
  · exact fun _ _ h => ⟨rfl, h⟩
  · exact fun _ _ h => ⟨rfl, fun hs => (h hs).1⟩

theorem perform_quietly {o : Operation} (ho : o.IsRemoval) (now : Instant) (s : Scheduler p σ) :
  s.Quietly ((o.perform now).stateAfter s)
  := by
  have hremove : ∀ q : Tracker → Bool, Board.CommitsOnly (σ := σ) (p := p) (fun _ _ => True)
      (Board.removeWhere now q) :=
    fun q => Board.commitsOnly_removeWhere now (fun _ _ => trivial)
  cases o with
  | remove k =>
    rw [Operation.perform, stateAfter_bind_pure]
    apply quietly_onBoard (Board.commitsOnly_remove now k (fun _ => trivial))
  | removeJob job =>
    rw [Operation.perform, stateAfter_bind_pure]
    apply quietly_onBoard (hremove _)
  | purge =>
    rw [Operation.perform, stateAfter_bind_pure]
    apply quietly_onBoard (hremove _)
  | _ => exact absurd ho id

theorem run_quietly {os : List (Instant × Operation)} (hos : ∀ o ∈ os, o.2.IsRemoval)
    (s : Scheduler p σ) :
  s.Quietly (Operation.run s os).2
  := by
  induction os generalizing s with
  | nil => apply Quietly.refl
  | cons o rest ih =>
    obtain ⟨ho, hrest⟩ := List.forall_mem_cons.mp hos
    exact (perform_quietly ho o.1 s).trans (ih hrest _)

/-! ### Carrying a plan out -/

omit [LawfulStore σ] in
/-- A registration during which one chunk is removed is a plan carried out after that removal. -/
theorem registerWhileRemoving_eq (now : Instant) (c : Chunk) (barrier : Option String) (k : Key)
    (s : Scheduler p σ) :
  let s₁ := (Operation.run (s.plan now c barrier).2 [(now, .remove k)]).2
  s.registerWhileRemoving now c barrier k
    = (((carryOut now (s.plan now c barrier).1).outcome s₁,
        (remove now k).outcome (s.plan now c barrier).2),
      (carryOut now (s.plan now c barrier).1).stateAfter s₁)
  := by
  intro s₁
  have hremoved : s₁ = (remove now k).stateAfter (s.plan now c barrier).2 :=
    stateAfter_bind_pure _ _
  rw [hremoved]
  rfl

/--
A new tracker which is carried out is freed of those prerequisites which are not live when it is
written, and sent if it is then queued.
-/
theorem carryOut_enrol_ends {t : Tracker} (hs : s.grid.WellFiled)
    (hself : t.key ∉ t.waitingOn) :
  (carryOut now (.enrol t)).Ends s
    (fun t' s' => ∃ gone, (∀ j, j ∈ gone ↔ j ∈ t.waitingOn ∧ s.grid.isLive j = false) ∧
      t' = t.freed now gone ∧ s'.grid.find? t.key = some t' ∧
      s'.ready = (if t'.status = .queuedForProcessing then send t.key s else s).ready)
    (fun _ _ => ¬ LawfulStore.works s.board.store)
  := by
  rw [carryOut, ends_bind, ends_onBoard]
  apply (Board.set_ends s.board now t).mono
  · intro _ b h
    have hinsert : b.grid = s.grid.insert t := h.grid
    have hfiled : b.grid.WellFiled := by
      rw [hinsert]
      apply hs.insert
    have hfind : b.grid.find? t.key = some t := by
      rw [hinsert, Grid.find?_insert, if_pos rfl]
    rw [ends_bind, ends_get, ends_bind]
    apply (dropFrom_frees (s := { s with board := b }) hfiled hfind now _).mono
    · rintro t' s' ⟨rfl, hready, hfrees⟩
      have hgone : ∀ j, j ∈ ({ s with board := b } : Scheduler p σ).goneFrom t
          ↔ j ∈ t.waitingOn ∧ s.grid.isLive j = false := by
        intro j
        rw [mem_goneFrom, withBoard_grid, hinsert, Grid.isLive_insert]
        apply and_congr_right
        intro hj
        rw [if_neg]
        rintro rfl
        exact hself hj
      have hfind' : s'.grid.find? t.key = some (t.freed now _) :=
        hfrees.itself.trans (congrArg (Option.map _) hfind)
      split
      · rename_i hqueued
        rw [ends_bind, ends_modify, ends_pure]
        refine ⟨_, hgone, rfl, ?_, ?_⟩
        · rw [send_grid]
          exact hfind'
        · rw [if_pos hqueued, send_ready, send_ready, hready]
      · rename_i hqueued
        rw [ends_pure]
        refine ⟨_, hgone, rfl, hfind', ?_⟩
        rw [if_neg hqueued, hready]
    · exact fun _ _ hnot hworks => hnot (h.works hworks)
  · exact fun _ _ h => h.1

/--
While removals come between the plan of a new chunk and its carrying out, the tracker which comes of
it is that of the grid.  It waits for those prerequisites of the plan which are live when it is
written, is blocked exactly if there are any, and queued if there were some and none is left.  Its
key is sent once if it is queued, and else not at all; the store apart, nothing can fail.
-/
theorem carryOut_plan_ends (hs : s.grid.WellFiled) (now now' : Instant) {c : Chunk}
    (barrier : Option String) (hnew : s.grid.isLive c.key = false)
    {os : List (Instant × Operation)} (hos : ∀ o ∈ os, o.2.IsRemoval) :
  let s₁ := (Operation.run (s.plan now c barrier).2 os).2
  (carryOut now' (s.plan now c barrier).1).Ends s₁
    (fun t s' => s'.grid.find? c.key = some t ∧
      (∀ j, j ∈ t.waitingOn
        ↔ j ∈ s.prerequisites (newcomer now c barrier) barrier ∧ s₁.grid.isLive j = true) ∧
      (t.status = .blocked ↔ ∃ j, j ∈ t.waitingOn) ∧
      ((∃ j, j ∈ s.prerequisites (newcomer now c barrier) barrier) → (∀ j, j ∉ t.waitingOn) →
        t.status = .queuedForProcessing) ∧
      s'.ready.sent = s.ready.sent
        ++ if s.ready.listening ∧ t.status = .queuedForProcessing then [c.key] else [])
    (fun _ _ => ¬ LawfulStore.works s.board.store)
  := by
  intro s₁
  have henrols := planNew_enrols s now c barrier
  obtain ⟨book, hplanned⟩ := exists_planNew_eq s now c barrier
  have hplan : s.plan now c barrier
      = (.enrol (s.planNew now c barrier).1, (s.planNew now c barrier).2) :=
    plan_of_not_live hnew
  have hquiet : (s.plan now c barrier).2.Quietly s₁ := run_quietly hos _
  rw [hplan, hplanned] at hquiet
  rw [hplan]
  clear_value s₁
  generalize (s.planNew now c barrier).1 = t at henrols ⊢
  obtain ⟨hready, hcommits⟩ := hquiet
  have hkey : t.key = c.key := henrols.key.trans newcomer_key
  have hself : t.key ∉ t.waitingOn := by
    intro hmem
    rw [henrols.waitingOn] at hmem
    apply (isLive_of_mem_prerequisites hs hmem).2 henrols.key
  apply (carryOut_enrol_ends ((hcommits hs).filed hs) hself).mono
  · rintro t' s' ⟨gone, hgone, rfl, hfind, hsent⟩
    rw [hkey] at hfind hsent
    have hwaits : ∀ j, j ∈ (t.freed now' gone).waitingOn
        ↔ j ∈ s.prerequisites (newcomer now c barrier) barrier ∧ s₁.grid.isLive j = true := by
      intro j
      rw [Tracker.mem_waitingOn_freed, hgone, ← henrols.waitingOn]
      by_cases hj : j ∈ t.waitingOn <;> simp [hj]
    have hblocked : (t.freed now' gone).status = .blocked
        ↔ ∃ j, j ∈ (t.freed now' gone).waitingOn :=
      Tracker.isConsistent_iff.mp (Tracker.isConsistent_freed henrols.consistent)
    refine ⟨hfind, hwaits, hblocked, ?_, ?_⟩
    · rintro ⟨j, hj⟩ hnone
      rw [← henrols.waitingOn] at hj
      obtain hsame | hqueued := t.freed_status now' gone
      · have hstill : (t.freed now' gone).status = .blocked :=
          hsame.trans ((Tracker.isConsistent_iff.mp henrols.consistent).mpr ⟨j, hj⟩)
        obtain ⟨i, hi⟩ := hblocked.mp hstill
        exact absurd hi (hnone i)
      · exact hqueued
    · have hbefore : s₁.ready = s.ready := hready
      rw [hsent, ← hbefore]
      by_cases hqueued : (t.freed now' gone).status = .queuedForProcessing
      · rw [if_pos hqueued, send]
        cases s₁.ready.listening <;> simp [hqueued]
      · simp [hqueued]
  · intro _ _ hnot hworks
    apply hnot ((hcommits hs).works hworks)

/-- Both prerequisites of a new chunk are removed while it is registered: it is queued and sent. -/
theorem carryOut_plan_ends_of_removed :
  let s := afterAll [.register (.sample 1 0 ["a"]) none, .register (.sample 1 1 ["b"]) none]
  let c := Chunk.sample 2 0 ["a", "b"]
  let os := [(default, .remove ⟨1, 0⟩), (default, .removeJob 1)]
  s.grid.WellFiled ∧ s.grid.isLive c.key = false ∧ (∀ o ∈ os, o.2.IsRemoval) ∧
    (s.prerequisites (newcomer default c none) none).toList = [⟨1, 0⟩, ⟨1, 1⟩] ∧
    (carryOut default (s.plan default c none).1).Yields
      (Operation.run (s.plan default c none).2 os).2
      (fun t s' => s'.grid.find? ⟨2, 0⟩ = some t ∧ t.status = .queuedForProcessing ∧
        s'.ready.sent = s.ready.sent ++ [⟨2, 0⟩])
  := by
  intro s c os
  have hreachable : Reachable (fun _ _ => True) (start .standard true (.ofList [])) s :=
    reachable_afterAll (Operation.permits_of_forall (fun _ _ => trivial) _ _)
  have hs : s.board.Sound := (hreachable.tidy trivial rfl).1
  have hnew : s.grid.isLive c.key = false := by decide +kernel
  have hos : ∀ o ∈ os, o.2.IsRemoval :=
    List.forall_mem_cons.mpr ⟨trivial, List.forall_mem_singleton.mpr trivial⟩
  have hwaits : (s.prerequisites (newcomer default c none) none).toList = [⟨1, 0⟩, ⟨1, 1⟩] := by
    decide +kernel
  have hgone : ∀ j ∈ [(⟨1, 0⟩ : Key), ⟨1, 1⟩],
      (Operation.run (s.plan default c none).2 os).2.grid.isLive j = false := by
    decide +kernel
  have hlistening : s.ready.listening = true := by decide +kernel
  refine ⟨hs.filed, hnew, hos, hwaits, ?_⟩
  apply (carryOut_plan_ends hs.filed default default none hnew hos).mono
  · rintro t s' ⟨hfind, hiff, -, hqueued, hsent⟩
    have hstatus : t.status = .queuedForProcessing := by
      apply hqueued
      · use ⟨1, 0⟩
        rw [SortedSet.mem_iff, hwaits]
        apply List.mem_cons_self
      · intro j hj
        obtain ⟨hmem, hlive⟩ := (hiff j).mp hj
        rw [SortedSet.mem_iff, hwaits] at hmem
        cases (hgone j hmem).symm.trans hlive
    refine ⟨hfind, hstatus, ?_⟩
    rw [hsent, if_pos ⟨hlistening, hstatus⟩]
    rfl
  · exact fun _ _ hnot => hnot hs.works

end Scheduler

end ChunkDispatch
