import ChunkDispatch.Proofs.Aim
import ChunkDispatch.Proofs.Refill

/-!
# Rounds

A *round* selects trackers and then visits them one by one, which *revises* each of them: chunks are
reset or repaired.  A round which ends early has visited some of the trackers it selected.  What is
selected anew then are those not visited yet, and perhaps some who do not change any more, so the
round has the same goal.
-/

namespace ChunkDispatch

open Attempt

variable {p : Partitioner} {σ : Type}

/-! ### Visits -/

namespace Grid

variable {g g' g'' : Grid p} {k : Key} {f f' : Tracker → Tracker}

theorem WellFiled.key_undated? (hg : g.WellFiled) {t : Tracker} (ht : g.undated? k = some t) :
  t.key = k
  := by
  obtain ⟨u, hu, rfl⟩ := Option.map_eq_some_iff.mp ht
  have hkey := hg.key hu
  exact hkey

/-- The tracker of the key becomes what `f` makes of it, and all others stay. -/
structure Revises (k : Key) (f : Tracker → Tracker) (g g' : Grid p) : Prop where
  filed : g'.WellFiled
  others : ∀ j, j ≠ k → g'.find? j = g.find? j
  itself : g'.undated? k = (g.undated? k).map f

theorem Revises.undated (h : Revises k f g g') (j : Key) :
  g'.undated? j = if j = k then (g.undated? k).map f else g.undated? j
  := by
  split
  · rename_i hj
    rw [hj, h.itself]
  · rename_i hj
    rw [undated?, h.others j hj, undated?]

theorem revises_id (hg : g.WellFiled) (k : Key) :
  Revises k id g g
  := by
  use hg, fun _ _ => rfl
  rw [Option.map_id_fun, id]

theorem Revises.trans (h : Revises k f g g') (h' : Revises k f' g' g'') :
  Revises k (f' ∘ f) g g''
  := by
  use h'.filed
  · intro j hj
    rw [h'.others j hj, h.others j hj]
  · rw [h'.itself, h.itself, Option.map_map]

theorem Revises.congr (h : Revises k f g g')
    (hsame : (g.undated? k).map f = (g.undated? k).map f') :
  Revises k f' g g'
  := ⟨h.filed, h.others, h.itself.trans hsame⟩

/-- Every tracker is as it was, or as it is to be. -/
def Underway (aim : Tracker → Tracker) (g g' : Grid p) : Prop :=
  ∀ j, g'.undated? j = g.undated? j ∨ g'.undated? j = (g.undated? j).map aim

theorem Underway.revises {aim : Tracker → Tracker} (haim : aim ∘ aim = aim)
    (h : Underway aim g g') (h' : Revises k aim g' g'') :
  Underway aim g g''
  := by
  intro j
  rw [h'.undated]
  split
  · rename_i hj
    rw [hj]
    obtain heq | heq := h k
    · rw [heq]
      exact Or.inr rfl
    · rw [heq, Option.map_map, haim]
      exact Or.inr rfl
  · apply h j

end Grid

namespace Scheduler

variable [Store σ] [LawfulStore σ] {s : Scheduler p σ}

theorem adjust_revises {α : Type} (hs : s.grid.WellFiled) (now : Instant) (k : Key)
    {c : Tracker → α × Tracker} {f : Tracker → Tracker} (hkey : ∀ t, (c t).2.key = t.key)
    (hf : ∀ t, (c t).2.undated = f t.undated) :
  (onBoard (Board.adjust now k c)).Ends s
    (fun _ s' => Grid.Revises k f s.grid s'.grid)
    (fun _ s' => s'.grid = s.grid)
  := by
  rw [ends_onBoard]
  apply (Board.adjust_ends s.board now k c).mono
  · rintro _ b ⟨-, hputs⟩
    have hfind := Board.find?_changedAt hkey hs hputs
    constructor
    · rw [withBoard_grid s b, hputs.grid]
      apply hs.insertAll
    · intro j hj
      rw [withBoard_grid s b, hfind, if_neg hj]
      rfl
    · rw [withBoard_grid s b, Grid.undated?, hfind, if_pos rfl, Grid.undated?, Option.map_map,
        Option.map_map]
      congr 1
      funext t
      exact (Board.undated_amend now c t).trans (hf t)
  · exact fun _ _ h => h.grid

/-- A status which is forced is not refused by the tracker. -/
theorem setStatus_revises (hs : s.grid.WellFiled) (now : Instant) (k : Key) {status : Status}
    (hstatus : status ≠ .blocked) :
  (setStatus now k status).Ends s
    (fun _ s' => Grid.Revises k (Tracker.forced status) s.grid s'.grid)
    (fun _ s' => s'.grid = s.grid)
  := by
  have hforced : ∀ t, (Change.Force.apply ⟨status⟩ t).2.undated = t.undated.forced status := by
    intro t
    rw [Change.Force.apply, if_neg hstatus]
    rfl
  rw [setStatus, ends_bind]
  apply (adjust_revises hs now k (Change.Force.apply_key _) hforced).mono
  · intro changed s₁ h
    split
    · split
      · rw [ends_bind, ends_modify, ends_pure, send_grid]
        exact h
      · exact h
    · exact h
  · exact fun _ _ => id

/-- Who is in the source status is moved. -/
theorem transition_revises (hs : s.grid.WellFiled) (now : Instant) {k : Key}
    {source target : Status} (hk : (s.grid.find? k).all (fun t => t.status = source) = true)
    (hsource : source ≠ .blocked) (htarget : target ≠ .blocked) (hne : source ≠ target) :
  (transition now k source target).Ends s
    (fun _ s' => Grid.Revises k (Tracker.moved target) s.grid s'.grid)
    (fun _ s' => s'.grid = s.grid)
  := by
  apply ((transition_ends hs now k hsource htarget).and
    (transition_filed hs now k source target)).mono
  · rintro _ s' ⟨⟨-, hfind⟩, hs'⟩
    use hs'
    · intro j hj
      rw [hfind, if_neg hj]
    · rw [Grid.undated?, Grid.undated?, hfind, if_pos rfl]
      cases ht : s.grid.find? k with
      | none => rfl
      | some t =>
        rw [ht] at hk
        have hmoves : ¬ (t.status ≠ source ∨ source = target) :=
          not_or.mpr ⟨not_not.mpr (of_decide_eq_true hk), hne⟩
        rw [Option.map_some, Option.map_some, Option.map_some, Option.map_some,
          Board.undated_amend, Change.Move.apply, if_neg hmoves]
        rfl
  · exact fun _ _ h => h.1.grid

/-- A chunk is relieved of the keys, or of some of them if this fails. -/
theorem repair_revises (hs : s.grid.WellFiled) (now : Instant) (k : Key) (gone : List Key) :
  (repair now k gone).Ends s
    (fun _ s' => Grid.Revises k (Tracker.relieved gone) s.grid s'.grid)
    (fun _ s' => ∃ ps, ps ⊆ gone ∧ Grid.Revises k (Tracker.relieved ps) s.grid s'.grid)
  := by
  induction gone generalizing s with
  | nil =>
    rw [Tracker.relieved_nil]
    apply Grid.revises_id hs
  | cons j rest ih =>
    have hrelieved : ∀ t,
        (Change.Release.apply ⟨j⟩ t).2.undated = t.undated.relieved [j] := by
      intro t
      rw [Change.Release.apply_eq_relieved]
      rfl
    have hcons : ∀ ps, Tracker.relieved (j :: ps)
        = Tracker.relieved ps ∘ Tracker.relieved [j] := by
      intro ps
      funext t
      have happend : t.relieved ([j] ++ ps) = (t.relieved [j]).relieved ps :=
        Tracker.relieved_append
      exact happend
    rw [repair_cons, ends_bind, ends_bind]
    apply (adjust_revises hs now k (Change.Release.apply_key _) hrelieved).mono
    · intro released s₁ h
      have hrest : ∀ s₂ : Scheduler p σ, s₂.grid = s₁.grid → (repair now k rest).Ends s₂
          (fun _ s' => Grid.Revises k (Tracker.relieved (j :: rest)) s.grid s'.grid)
          (fun _ s' => ∃ ps, ps ⊆ j :: rest ∧
            Grid.Revises k (Tracker.relieved ps) s.grid s'.grid) := by
        intro s₂ hgrid
        rw [← hgrid] at h
        apply (ih h.filed).mono
        · intro _ s' h'
          rw [hcons]
          apply h.trans h'
        · rintro _ s' ⟨ps, hps, h'⟩
          use j :: ps, List.cons_subset_cons j hps
          rw [hcons]
          apply h.trans h'
      split
      · rw [ends_modify]
        apply hrest _ (send_grid k s₁)
      · apply hrest s₁ rfl
    · intro _ s₁ hgrid
      use [], List.nil_subset _
      rw [hgrid, Tracker.relieved_nil]
      apply Grid.revises_id hs

/-! ### Rounds of visits -/

omit [Store σ] [LawfulStore σ] in
/--
Trackers are visited one by one, and each visit brings one of them to its aim, or fails and keeps
the aims.  All aims are kept then, and if nothing fails those visited are as they are to be.
-/
theorem forM_revises {ι : Type} (key : ι → Key) {aim : Tracker → Tracker}
    (haim : aim ∘ aim = aim) {f : ι → Attempt (Scheduler p σ) PUnit} {is : List ι}
    {g : Grid p} (hs : s.grid.WellFiled) (hunderway : Grid.Underway aim g s.grid)
    (hf : ∀ i ∈ is, ∀ s' : Scheduler p σ, s'.grid.WellFiled → Grid.Underway aim g s'.grid →
      (f i).Ends s' (fun _ s'' => Grid.Revises (key i) aim s'.grid s''.grid)
        (fun _ s'' => ∀ j, (s''.grid.undated? j).map aim = (s'.grid.undated? j).map aim)) :
  (is.forM f).Ends s
    (fun _ s' => ∀ j, s'.grid.undated? j =
      if j ∈ is.map key then (s.grid.undated? j).map aim else s.grid.undated? j)
    (fun _ s' => ∀ j, (s'.grid.undated? j).map aim = (s.grid.undated? j).map aim)
  := by
  induction is generalizing s with
  | nil => exact fun _ => rfl
  | cons i rest ih =>
    change (f i >>= fun _ => rest.forM f).Ends s _ _
    rw [ends_bind]
    apply (hf i List.mem_cons_self s hs hunderway).mono
    · intro _ s₁ h
      have hkept : ∀ j, (s₁.grid.undated? j).map aim = (s.grid.undated? j).map aim := by
        intro j
        rw [h.undated]
        split
        · rename_i hj
          rw [Option.map_map, haim, hj]
        · rfl
      apply (ih h.filed (hunderway.revises haim h)
        (fun i' hi' => hf i' (List.mem_cons_of_mem i hi'))).mono
      · intro _ s₂ hrest j
        rw [hrest, hkept, h.undated, List.map_cons]
        by_cases hj : j = key i
        · simp [hj]
        · simp [hj]
      · intro _ s₂ hrest j
        rw [hrest, hkept]
    · exact fun _ _ => id

omit [Store σ] [LawfulStore σ] in
/-- If only those visited have an aim of their own, all are as they are to be. -/
theorem round_aims {ι : Type} (key : ι → Key) {aim : Tracker → Tracker}
    (haim : aim ∘ aim = aim) {f : ι → Attempt (Scheduler p σ) PUnit} {is : List ι}
    (hs : s.grid.WellFiled)
    (hf : ∀ i ∈ is, ∀ s' : Scheduler p σ, s'.grid.WellFiled → Grid.Underway aim s.grid s'.grid →
      (f i).Ends s' (fun _ s'' => Grid.Revises (key i) aim s'.grid s''.grid)
        (fun _ s'' => ∀ j, (s''.grid.undated? j).map aim = (s'.grid.undated? j).map aim))
    (hothers : ∀ k t, k ∉ is.map key → s.grid.find? k = some t → aim t.undated = t.undated) :
  (is.forM f).Ends s
    (fun _ s' => ∀ j, s'.grid.undated? j = (s.grid.undated? j).map aim)
    (fun _ s' => ∀ j, (s'.grid.undated? j).map aim = (s.grid.undated? j).map aim)
  := by
  apply (forM_revises key haim hs (fun _ => Or.inl rfl) hf).mono
  · intro _ s' h j
    rw [h]
    split
    · rfl
    · rename_i hj
      rw [Grid.undated?]
      cases ht : s.grid.find? j with
      | none => rfl
      | some t => exact congrArg some (hothers j t hj ht).symm
  · exact fun _ _ => id

/-! ### Resets -/

omit [Store σ] [LawfulStore σ] in
theorem resetTo_resetTo (source target : Status) (jobs : List Int32) :
  Tracker.resetTo source target jobs ∘ Tracker.resetTo source target jobs
    = Tracker.resetTo source target jobs
  := by
  funext t
  rw [Function.comp_apply]
  by_cases h : t.status = source ∧ t.key.job ∈ jobs
  · have hforced : t.resetTo source target jobs = t.forced target := if_pos h
    rw [hforced, Tracker.resetTo]
    split <;> rfl
  · have hsame : t.resetTo source target jobs = t := if_neg h
    rw [hsame, hsame]

theorem resetStatus_aims (hs : s.grid.WellFiled) (now : Instant) (source target : Status)
    (jobs : List Int32) :
  (resetStatus now source target jobs).Ends s
    (fun _ s' => ∀ k, s'.grid.undated? k = s.goal (.resetStatus source target jobs) k)
    (fun _ s' => ∀ k, s'.goal (.resetStatus source target jobs) k
      = s.goal (.resetStatus source target jobs) k)
  := by
  have haim := resetTo_resetTo source target jobs
  have hgoal : ∀ (s : Scheduler p σ) k, s.goal (.resetStatus source target jobs) k
      = (s.grid.undated? k).map (Tracker.resetTo source target jobs) :=
    fun s k => (Option.map_eq_bind).symm
  simp only [hgoal]
  rw [resetStatus]
  split
  · exact fun _ => rfl
  · rename_i hstatus
    rw [not_or] at hstatus
    rw [ends_bind, ends_get, ends_bind]
    have hmem : ∀ k, k ∈ s.grid.keys (Query.InJobs.holds ⟨source, .ofList jobs⟩)
        ↔ ∃ t, s.grid.find? k = some t ∧ t.status = source ∧ t.key.job ∈ jobs := by
      intro k
      rw [Grid.keys, SortedMap.mem_keys_iff]
      simp only [Grid.find?_select hs, Option.filter_eq_some_iff, Query.InJobs.holds,
        decide_eq_true_eq, SortedSet.mem_ofList]
    apply (round_aims id haim hs _ _).mono
    · exact fun _ _ => id
    · exact fun _ _ => id
    · intro k hk s₁ hs₁ hunderway
      obtain ⟨t, ht, hselected⟩ := (hmem k).mp hk
      have hforced : t.undated.resetTo source target jobs = t.undated.forced target :=
        if_pos hselected
      rw [ends_bind]
      apply (setStatus_revises hs₁ now k hstatus.2).mono
      · intro _ s₂ h
        apply h.congr
        obtain heq | heq := hunderway k
        · rw [heq, Grid.undated?, ht]
          exact congrArg some hforced.symm
        · rw [heq, Option.map_map, Option.map_map, haim, Grid.undated?, ht]
          change some ((t.undated.resetTo source target jobs).forced target) = some _
          rw [hforced]
          rfl
      · intro _ s₂ hgrid j
        rw [hgrid]
    · intro k t hk ht
      apply if_neg
      intro hselected
      apply hk
      rw [List.map_id]
      exact (hmem k).mpr ⟨t, ht, hselected⟩

/-! ### Repairs -/

section Restored

omit [Store σ] [LawfulStore σ]

theorem restored_isLive (t : Tracker) :
  (s.restored t).isLive = t.isLive
  := by
  rw [restored]
  split
  · apply Tracker.relieved_isLive
  · rfl

/-- What waits for nobody who is gone is not repaired. -/
theorem restored_of_goneFrom_eq_nil {t : Tracker} (h : s.goneFrom t = []) :
  s.restored t = t
  := by
  rw [restored, h, Tracker.relieved_nil]
  split <;> rfl

/-- A blocked chunk which is relieved of some who are gone is repaired as before. -/
theorem restored_relieved {t : Tracker} (hblocked : t.status = .blocked) {ps : List Key}
    (hps : ps ⊆ s.goneFrom t) :
  s.restored (t.relieved ps) = s.restored t
  := by
  have hrestored : s.restored t = t.relieved (s.goneFrom t) := if_pos hblocked
  rw [hrestored, restored]
  have hstatus : (t.relieved ps).status
      = if t.isFreedBy ps then .queuedForProcessing else t.status := Tracker.relieved_status
  cases hfreed : t.isFreedBy ps with
  | true =>
    -- nothing is left of the wait set, so that all of it is gone
    have hall := (Tracker.isFreedBy_iff.mp hfreed).2.2
    rw [hstatus, hfreed, if_neg (by simp)]
    apply Tracker.relieved_congr
    intro j hj
    exact ⟨fun hjs => hps hjs, fun _ => hall j hj⟩
  | false =>
    rw [hfreed, if_neg Bool.false_ne_true, hblocked] at hstatus
    rw [if_pos hstatus, ← Tracker.relieved_append]
    apply Tracker.relieved_congr
    intro j hj
    rw [List.mem_append, mem_goneFrom, mem_goneFrom, Tracker.mem_relieved]
    have hgone : j ∈ ps → s.grid.isLive j = false := fun hjs => (mem_goneFrom.mp (hps hjs)).2
    tauto

theorem restored_restored (s : Scheduler p σ) :
  s.restored ∘ s.restored = s.restored
  := by
  funext t
  rw [Function.comp_apply]
  by_cases hblocked : t.status = .blocked
  · have hrestored : s.restored t = t.relieved (s.goneFrom t) := if_pos hblocked
    conv_lhs => rw [hrestored]
    apply restored_relieved hblocked (List.Subset.refl _)
  · have hsame : s.restored t = t := if_neg hblocked
    rw [hsame, hsame]

/-- Who is gone is a matter of the aims alone. -/
theorem restored_eq {s' : Scheduler p σ}
    (h : ∀ k, (s'.grid.undated? k).map s.restored = (s.grid.undated? k).map s.restored) :
  s'.restored = s.restored
  := by
  have hlive : ∀ k, s'.grid.isLive k = s.grid.isLive k := by
    have hany : ∀ o : Option Tracker, o.any Tracker.isLive
        = ((o.map Tracker.undated).map s.restored).any Tracker.isLive := by
      intro o
      cases o with
      | none => rfl
      | some t => exact (restored_isLive t.undated).symm
    intro k
    exact (hany _).trans ((congrArg (Option.any Tracker.isLive) (h k)).trans (hany _).symm)
  funext t
  simp only [restored, goneFrom, hlive]

end Restored

theorem recheck_aims (hs : s.grid.WellFiled) (now : Instant) :
  (recheck now).Ends s (fun _ s' => ∀ k, s'.grid.undated? k = s.goal .recheck k)
    (fun _ s' => ∀ k, s'.goal .recheck k = s.goal .recheck k)
  := by
  have hgoal : ∀ (s : Scheduler p σ) k, s.goal .recheck k
      = (s.grid.undated? k).map s.restored :=
    fun s k => (Option.map_eq_bind).symm
  simp only [hgoal]
  rw [recheck, ends_bind, ends_get]
  rw [ends_bind]
  apply (round_aims Prod.fst (restored_restored s) hs _ _).mono
  · exact fun _ _ => id
  · intro _ s' h
    rw [restored_eq h]
    exact h
  · rintro ⟨k, gone⟩ hk s₁ hs₁ hunderway
    obtain ⟨t, ht, hblocked, rfl, -⟩ := (mem_broken hs).mp hk
    have hrestored : s.restored t.undated = t.undated.relieved (s.goneFrom t) := if_pos hblocked
    -- the tracker is as it was, or repaired already
    obtain ⟨x, hx, hcases⟩ : ∃ x, s₁.grid.undated? k = some x ∧
        (x = t.undated ∨ x = t.undated.relieved (s.goneFrom t)) := by
      have hfound : s.grid.undated? k = some t.undated := congrArg (Option.map _) ht
      obtain heq | heq := hunderway k
      · exact ⟨_, heq.trans hfound, Or.inl rfl⟩
      · rw [hfound, Option.map_some, hrestored] at heq
        exact ⟨_, heq, Or.inr rfl⟩
    apply (repair_revises hs₁ now k (s.goneFrom t)).mono
    · intro _ s₂ h
      apply h.congr
      rw [hx]
      apply congrArg some
      obtain rfl | rfl := hcases
      · exact hrestored.symm
      · rw [Tracker.relieved_relieved, ← hrestored]
        exact (congrFun (restored_restored s) t.undated).symm
    · rintro _ s₂ ⟨ps, hps, h⟩ j
      rw [h.undated]
      split
      · rename_i hj
        rw [hj, hx]
        apply congrArg some
        obtain rfl | rfl := hcases
        · apply restored_relieved (t := t.undated) hblocked hps
        · rw [Tracker.relieved_of_forall_not_mem]
          exact fun j hj hmem => (Tracker.mem_relieved.mp hmem).2 (hps hj)
      · rfl
  · intro k t hk ht
    by_cases hblocked : t.status = .blocked
    · apply restored_of_goneFrom_eq_nil
      by_contra hne
      apply hk
      exact List.mem_map_of_mem (f := Prod.fst) ((mem_broken hs).mpr ⟨t, ht, hblocked, rfl, hne⟩)
    · apply if_neg hblocked

end Scheduler

end ChunkDispatch
