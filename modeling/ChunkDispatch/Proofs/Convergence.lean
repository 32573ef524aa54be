import ChunkDispatch.Proofs.Balance
import ChunkDispatch.Proofs.Coherence
import ChunkDispatch.Proofs.Evolution
import ChunkDispatch.Proofs.Lineup

/-!
# Operations which are repeated

An operation which fails half-way leaves some trackers as they are to be, and the others as they
were.  Made once more it *converges*: it leaves the trackers, the rows and the counts of the sinks
which it would have left had it not failed.  For that it has to keep its goal, the rows nobody has
loaded, and counts which lean, until it is done.
-/

namespace ChunkDispatch

open Attempt

variable {p : Partitioner} {σ : Type}

/-! ### Aims which are reached -/

/--
An operation which may be repeated leaves every tracker as it is to be, or it fails and keeps its
goal.
-/
theorem Operation.perform_aims [Store σ] [LawfulStore σ] {s : Scheduler p σ} (hs : s.Counted)
    (hgathered : ∀ k, s.grid.Gathered k) (now : Instant) {o : Operation} (ho : o.IsRepeated) :
  (o.perform now).Ends s (fun _ s' => ∀ k, s'.grid.undated? k = s.goal o k)
    (fun _ s' => ∀ k, s'.goal o k = s.goal o k)
  := by
  cases o with
  | complete k =>
    rw [perform, ends_bind]
    apply Scheduler.complete_aims hs.filed now (hgathered k)
  | removeFromWaitingOn k sink =>
    rw [perform, ends_bind]
    apply Scheduler.removeFromWaitingOn_aims hs.filed
  | removeJob job =>
    rw [perform, ends_bind]
    apply Scheduler.removeJob_aims hs.filed
  | purge =>
    rw [perform, ends_bind]
    apply Scheduler.purge_aims hs.filed
  | recheck =>
    rw [perform, ends_bind]
    apply Scheduler.recheck_aims hs.filed
  | resetStatus source target jobs =>
    rw [perform, ends_bind]
    apply Scheduler.resetStatus_aims hs.filed
  | bulkSchedule sink phase =>
    rw [perform, ends_bind]
    apply Scheduler.bulkSchedule_aims hs
  | _ => exact ho.elim

/-! ### Rows which are not loaded -/

/-- The operation deletes the row of the key even if the key is not tracked. -/
def Operation.Clears (s : Scheduler p σ) (j : Key) : Operation → Prop
  | complete k => s.settings.retention = .purge ∧ j = k
  | _ => False

section Loose

variable [Store σ] [LawfulStore σ] {s : Scheduler p σ}

theorem Board.Deletes.loose? {b b' : Board p σ} {now : Instant} {ks : List Key}
    (h : b.Deletes now ks b') (j : Key) :
  b'.loose? j = if j ∈ ks then none else b.loose? j
  := by
  rw [Board.loose?, Board.loose?, h.find?_grid, h.find?_rows]
  by_cases hj : j ∈ ks <;> simp [hj]

namespace Scheduler

/-- A key which is purged has no row any more; other loose rows stay. -/
theorem retire_purged (hs : s.grid.WellFiled) (hpurge : s.settings.retention = .purge)
    (now : Instant) (k : Key) :
  (retire now k).Ends s
    (fun _ s' => s'.grid.WellFiled ∧
      ∀ j, s'.board.loose? j = if j = k then none else s.board.loose? j)
    (fun _ s' => ∀ j, s'.board.loose? j = s.board.loose? j)
  := by
  rw [retire, ends_bind, ends_get, hpurge]
  simp only []
  rw [ends_bind, ends_onBoard]
  apply (Board.remove_ends s.board now k).mono
  · rintro old b ⟨-, h⟩
    rw [ends_pure]
    use (Board.Commit.delete (P := fun _ _ => True) h (fun _ _ => trivial)).filed hs
    intro j
    rw [h.loose?]
    simp only [List.mem_singleton]
  · exact fun _ _ h => h.loose?

theorem complete_purged (hs : s.grid.WellFiled) (hpurge : s.settings.retention = .purge)
    (now : Instant) (k : Key) :
  (complete now k).Ends s
    (fun _ s' => ∀ j, s'.board.loose? j = if j = k then none else s.board.loose? j)
    (fun _ s' => ∀ j, j ≠ k → s'.board.loose? j = s.board.loose? j)
  := by
  rw [complete_eq, ends_bind]
  apply (retire_purged hs hpurge now k).mono
  · rintro sink s₁ ⟨hs₁, h⟩
    apply (commitsOnly_releaseDependents (F := True) now k sink
      (P := fun old _ => old.isSome = true) (fun _ => rfl) s₁).mono
    · intro _ s₂ h₂ j
      rw [(h₂ hs₁).loose? (fun _ _ => id), h]
    · intro _ s₂ h₂ j hj
      rw [(h₂ hs₁).1.loose? (fun _ _ => id), h, if_neg hj]
  · exact fun _ _ h j _ => h j

end Scheduler

/-- What is not tracked stays in the store, unless it is completed and purged. -/
theorem Operation.perform_loose (hs : s.grid.WellFiled) (now : Instant) {o : Operation}
    (ho : o.IsRepeated) :
  (o.perform now).Ends s
    (fun _ s' => ∀ j, (o.Clears s j → s'.board.loose? j = none) ∧
      (¬ o.Clears s j → s'.board.loose? j = s.board.loose? j))
    (fun _ s' => ∀ j, ¬ o.Clears s j → s'.board.loose? j = s.board.loose? j)
  := by
  have hrest : (∀ j, ¬ o.Clears s j) → o.Grants s now (fun old _ => old.isSome = true) →
      (o.perform now).Ends s
        (fun _ s' => ∀ j, (o.Clears s j → s'.board.loose? j = none) ∧
          (¬ o.Clears s j → s'.board.loose? j = s.board.loose? j))
        (fun _ s' => ∀ j, ¬ o.Clears s j → s'.board.loose? j = s.board.loose? j) := by
    intro hnot hgrants
    apply (perform_grants hs hgrants).mono
    · intro _ s' h j
      exact ⟨fun hclears => absurd hclears (hnot j), fun _ => h.loose? (fun _ _ => id) j⟩
    · exact fun _ s' h j _ => h.1.loose? (fun _ _ => id) j
  cases o with
  | complete k =>
    cases hretention : s.settings.retention with
    | purge =>
      have hclears : ∀ j, (complete k).Clears s j ↔ j = k := fun _ => and_iff_right hretention
      simp only [hclears]
      rw [perform, ends_bind]
      apply (Scheduler.complete_purged hs hretention now k).mono
      · exact fun _ _ h j => ⟨fun hj => (h j).trans (if_pos hj), fun hj => (h j).trans (if_neg hj)⟩
      · exact fun _ _ => id
    | retain =>
      have hnot : s.settings.retention ≠ .purge := by simp [hretention]
      apply hrest (fun _ h => hnot h.1)
      exact ⟨fun hpurge => absurd hpurge hnot, fun _ _ => rfl, fun _ => rfl⟩
  | removeFromWaitingOn k sink => exact hrest (fun _ => id) (fun _ => rfl)
  | removeJob job => exact hrest (fun _ => id) (fun _ => rfl)
  | purge => exact hrest (fun _ => id) (fun _ => rfl)
  | recheck => exact hrest (fun _ => id) (fun _ _ => rfl)
  | resetStatus source target jobs => exact hrest (fun _ => id) (fun _ => rfl)
  | bulkSchedule sink phase => exact hrest (fun _ => id) (fun _ => rfl)
  | _ => exact ho.elim

end Loose

/-! ### Half done and done -/

namespace Scheduler

section Done

variable [Store σ] [LawfulStore σ]

/-- The board is backed, the live counts are right, and who waits for a key is gathered. -/
structure Regular (s : Scheduler p σ) : Prop where
  counted : s.Counted
  backed : s.board.Backed
  gathered : ∀ k, s.grid.Gathered k

/-- The operation was made at `s` and failed; it may be taken up again at `s'`. -/
structure HalfDone (o : Operation) (s s' : Scheduler p σ) : Prop where
  regular : s'.Regular
  settings : s'.settings = s.settings
  goal : ∀ k, s'.goal o k = s.goal o k
  loose : ∀ k, ¬ o.Clears s k → s'.board.loose? k = s.board.loose? k
  leans : s.Leans (o.raises s) .completed s'

/-- The operation was made at `s` and led to `s'`. -/
structure Done (o : Operation) (s s' : Scheduler p σ) : Prop where
  regular : s'.Regular
  undated : ∀ k, s'.grid.undated? k = s.goal o k
  loose : ∀ k, (o.Clears s k → s'.board.loose? k = none) ∧
    (¬ o.Clears s k → s'.board.loose? k = s.board.loose? k)
  leans : s.Leans (o.raises s) .completed s'

/-- The trackers, the rows and the counts of the sinks are the same, but for the last changes. -/
structure Matches (s s' : Scheduler p σ) : Prop where
  trackers : s.grid.trackers.map Tracker.undated = s'.grid.trackers.map Tracker.undated
  rows : ∀ k, ((LawfulStore.rows s.board.store).find? k).map Tracker.undated
    = ((LawfulStore.rows s'.board.store).find? k).map Tracker.undated
  counts : ∀ now sink status,
    (s.book.get now sink).count status = (s'.book.get now sink).count status

variable {o : Operation} {s s₁ s₂ s₃ : Scheduler p σ}

/-- An operation which was half done comes to the same as one which was done at once. -/
theorem HalfDone.matches (h₁ : HalfDone o s s₁) (h₂ : Done o s₁ s₂) (h₃ : Done o s s₃) :
  s₂.Matches s₃
  := by
  have hundated : ∀ k, s₂.grid.undated? k = s₃.grid.undated? k := by
    intro k
    rw [h₂.undated, h₁.goal, h₃.undated]
  have htrackers := Grid.map_undated_trackers h₂.regular.counted.filed h₃.regular.counted.filed
    hundated
  have hclears : ∀ k, o.Clears s₁ k ↔ o.Clears s k := by
    intro k
    cases o <;> simp only [Operation.Clears, h₁.settings]
  have hraises : o.raises s₁ = o.raises s := by
    cases o <;> simp only [Operation.raises, h₁.settings]
  constructor
  · exact htrackers
  · intro k
    have hloose : s₂.board.loose? k = s₃.board.loose? k := by
      by_cases hk : o.Clears s k
      · rw [(h₂.loose k).1 ((hclears k).mpr hk), (h₃.loose k).1 hk]
      · rw [(h₂.loose k).2 (fun h => hk ((hclears k).mp h)), (h₃.loose k).2 hk, h₁.loose k hk]
    have hrow : ∀ s : Scheduler p σ, s.Regular →
        ((LawfulStore.rows s.board.store).find? k).map Tracker.undated
          = (s.grid.undated? k).or ((s.board.loose? k).map Tracker.undated) := by
      intro s hs
      rw [hs.backed.find?_rows, Grid.undated?, grid]
      cases s.board.grid.find? k <;> rfl
    rw [hrow s₂ h₂.regular, hrow s₃ h₃.regular, hundated, hloose]
  · intro now sink status
    have hcensus := fun status => Grid.census_congr htrackers sink status
    rw [Book.count_get, Book.count_get]
    cases hlive : status.isLive with
    | true =>
      rw [h₂.regular.counted.counts hlive, h₃.regular.counted.counts hlive]
      apply hcensus
    | false =>
      obtain rfl : status = .completed := by simpa [Status.isLive] using hlive
      have h₂leans := h₂.leans
      rw [hraises] at h₂leans
      apply h₁.leans.count_eq h₂leans h₃.leans (hcensus _)

/-- However it ends, an operation which may be repeated keeps all in order. -/
theorem Regular.perform (hs : s.Regular) (now : Instant) (ho : o.IsRepeated) :
  ((o.perform now).stateAfter s).Regular
  := by
  have hfiled := hs.counted.filed
  have hcommits := Operation.commits_of_grants hfiled
    (Operation.grants_of_allows (s := s) (allows_descends now) ho)
  use (Operation.perform_counted hs.counted now o).1
  · apply (Operation.perform_backed hs.backed now o).stateAfter
  · intro k
    apply Grid.gathered_of_trims _ (hs.gathered k)
    intro j t' ht'
    obtain ⟨t, ht, hevolves⟩ := hcommits.rel j t' ht'
    exact ⟨t, ht, hevolves.toTrims⟩

/-- An operation which may be repeated is done, or half done if the store refuses a write. -/
theorem Regular.perform_done (hs : s.Regular) (now : Instant) (ho : o.IsRepeated) :
  (o.perform now).Ends s (fun _ s' => Done o s s')
    (fun _ s' => HalfDone o s s' ∧ (LawfulStore.works s.board.store → o.IsRefused))
  := by
  have hfiled := hs.counted.filed
  have hafter : (o.perform now).Ends s
      (fun _ s' => s'.Regular ∧ s'.settings = s.settings ∧ s.Leans (o.raises s) .completed s')
      (fun _ s' => s'.Regular ∧ s'.settings = s.settings ∧ s.Leans (o.raises s) .completed s') :=
    ends_of_stateAfter (P := fun s' : Scheduler p σ =>
        s'.Regular ∧ s'.settings = s.settings ∧ s.Leans (o.raises s) .completed s')
      ⟨hs.perform now ho, Operation.perform_settings now o s,
        Operation.perform_leans hfiled now ho⟩
  apply (((Operation.perform_aims hs.counted hs.gathered now ho).and
    (Operation.perform_loose hfiled now ho)).and (hafter.and
      (Operation.perform_grants hfiled (Operation.grants_of_allows (allows_descends now) ho)))).mono
  · rintro _ s' ⟨⟨hundated, hloose⟩, ⟨hregular, -, hleans⟩, -⟩
    exact ⟨hregular, hundated, hloose, hleans⟩
  · rintro _ s' ⟨⟨hgoal, hloose⟩, ⟨hregular, hsettings, hleans⟩, -, hrefused⟩
    exact ⟨⟨hregular, hsettings, hgoal, hloose, hleans⟩, hrefused⟩

end Done

section Repeated

variable [Store σ] [LawfulStore σ] {o : Operation} {s : Scheduler p (Scripted σ)}

/-- What the store refuses is no matter of the board. -/
theorem Regular.refusing (hs : s.Regular) (n : Nat) :
  (s.refusing n).Regular
  := ⟨⟨hs.counted.filed, hs.counted.counts⟩,
    ⟨hs.backed.filed, hs.backed.keyed, hs.backed.agree⟩, hs.gathered⟩

theorem Regular.mended (hs : s.Regular) :
  s.mended.Regular
  := ⟨⟨hs.counted.filed, hs.counted.counts⟩,
    ⟨hs.backed.filed, hs.backed.keyed, hs.backed.agree⟩, hs.gathered⟩

/-- Once the store is mended the operation is done. -/
theorem Regular.mended_done (hs : s.Regular) (hworks : LawfulStore.works s.board.store.inner)
    (now : Instant) (ho : o.IsRepeated) (hrefused : ¬ o.IsRefused) :
  (o.perform now).Yields s.mended (fun _ s' => Done o s s')
  := by
  apply (hs.mended.perform_done now ho).mono
  · exact fun _ _ h => ⟨h.regular, h.undated, h.loose, h.leans⟩
  · exact fun _ _ h => hrefused (h.2 (works_mended hworks))

end Repeated

end Scheduler

/-- An operation which is refused whatever the store does tells why. -/
theorem Operation.perform_refused [Store σ] {o : Operation} (ho : o.IsRefused) (now : Instant)
    (s : Scheduler p σ) :
  (o.perform now).Ends s (fun _ _ => False)
    (fun e _ => ∃ source target, e = .badTransition source target)
  := by
  cases o with
  | resetStatus source target jobs =>
    have hblocked : source = .blocked ∨ target = .blocked := ho
    rw [perform, ends_bind, Scheduler.resetStatus, if_pos hblocked]
    exact ⟨source, target, rfl⟩
  | _ => exact ho.elim

/--
Over keyed rows in a store which refuses nothing itself, and after any operations, let all who wait
for a tracked key go to its sink.  An operation which may be repeated is made while all writes after
the first `n` are refused.  If it fails, either the statuses it was asked for are not permitted, or
it converges: made again with all writes taken it succeeds, and leaves the trackers, the rows and
the counts of all sinks as it would have at once, but for the instants of the last changes.
-/
theorem repetition_converges {settings : Settings} {listening : Bool} [Store σ] [LawfulStore σ]
    {store : Scripted σ} (hkeyed : ∀ k t, (LawfulStore.rows store).find? k = some t → t.key = k)
    (hworks : ∀ t : σ, LawfulStore.works t)
    {s : Scheduler (.ofCount settings.partitions) (Scripted σ)}
    (hs : Reachable (fun _ _ => True) (Scheduler.start settings listening store) s)
    (hgathered : ∀ k, s.grid.Gathered k) {o : Operation} (ho : o.IsRepeated) (n : Nat)
    (now now' now'' : Instant) :
  (o.perform now).Ends (s.refusing n) (fun _ _ => True) (fun e s₁ =>
    (∃ source target, e = .badTransition source target) ∨
      (o.perform now').Yields s₁.mended (fun _ s₂ =>
        (o.perform now'').Yields s.mended (fun _ s₃ => s₂.Matches s₃)))
  := by
  have hregular : s.Regular := ⟨hs.counted, hs.backed hkeyed, hgathered⟩
  by_cases hrefused : o.IsRefused
  · apply (Operation.perform_refused hrefused now _).mono
    · exact fun _ _ _ => trivial
    · exact fun _ _ => Or.inl
  · apply ((hregular.refusing n).perform_done now ho).mono
    · exact fun _ _ _ => trivial
    · rintro _ s₁ ⟨h, -⟩
      right
      -- what the store refuses is no matter of what is half done
      have h₁ : Scheduler.HalfDone o s s₁ := ⟨h.regular, h.settings, h.goal, h.loose, h.leans⟩
      apply (h.regular.mended_done (hworks _) now' ho hrefused).mono
      intro _ s₂ h₂
      apply (hregular.mended_done (hworks _) now'' ho hrefused).mono
      exact fun _ s₃ h₃ => h₁.matches h₂ h₃

/-- The third write of a completion is refused, after chunk 1 was released and before chunk 2 is. -/
theorem repetition_converges_of_forked :
  let complete : Operation := .complete ⟨1, 0⟩
  let s := Scheduler.forked
  let s₁ := (complete.perform default).stateAfter (s.refusing 2)
  (∀ k t, (LawfulStore.rows (Scripted.of (Memory.ofList []))).find? k = some t → t.key = k) ∧
    (∀ t : Memory, LawfulStore.works t) ∧ (∀ k, s.grid.Gathered k) ∧ complete.IsRepeated ∧
    (complete.perform default).outcome (s.refusing 2) = .error .writeRefused ∧
    (complete.perform default).Yields s₁.mended (fun _ s₂ =>
      (complete.perform default).Yields s.mended (fun _ s₃ => s₂.Matches s₃))
  := by
  intro complete s s₁
  have hkeyed : ∀ k t,
      (LawfulStore.rows (Scripted.of (Memory.ofList []))).find? k = some t → t.key = k :=
    Memory.keyed_ofList []
  have hworks : ∀ t : Memory, LawfulStore.works t := fun _ => trivial
  have hs : Reachable (fun _ _ => True)
      (Scheduler.start { Settings.standard with partitions := 2 } true
        (Scripted.of (Memory.ofList []))) s :=
    Scheduler.reachable_forked
  have hgathered : ∀ k, s.grid.Gathered k :=
    Grid.gathered_of_sink hs.counted.filed (fun t ht => (Scheduler.forked_trackers t ht).2)
  have hfails : (complete.perform default).outcome (s.refusing 2) = .error .writeRefused := by
    decide +kernel
  clear_value s
  refine ⟨hkeyed, hworks, hgathered, trivial, hfails, ?_⟩
  have hends := (repetition_converges hkeyed hworks hs hgathered (o := complete) trivial 2
    default default default).and (ends_of_outcome hfails)
  apply Ends.stateAfter (P := fun s₁ : Scheduler (.ofCount 2) (Scripted Memory) =>
    (complete.perform default).Yields s₁.mended (fun _ s₂ =>
      (complete.perform default).Yields s.mended (fun _ s₃ => s₂.Matches s₃)))
  apply hends.mono
  · exact fun _ _ h => h.2.elim
  · rintro _ s₁ ⟨⟨source, target, hbad⟩ | h, rfl⟩
    · cases hbad
    · exact h

end ChunkDispatch
