import ChunkDispatch.Proofs.Completion

/-!
# Trackers relieved of several keys

A tracker is *relieved* of some keys if they are taken out of its wait set; they *free* it if it was
blocked by them alone, and then it is queued.  It does not matter in which order the keys are taken
out, and a tracker is freed at most once.  When chunks are completed, the tracker of each of them is
*settled* as the retention says, and all others are relieved of their keys.
-/

namespace ChunkDispatch

namespace Tracker

/-- The tracker but for the instant of its last change. -/
def undated (t : Tracker) : Tracker :=
  { t with lastModified := default }

/-- The tracker is blocked, and waits for some of the keys and nothing else. -/
def isFreedBy (ks : List Key) (t : Tracker) : Bool :=
  t.status = .blocked ∧ t.waitingOn.isEmpty = false ∧ t.waitingOn.toList.all (· ∈ ks)

/-- The tracker without the keys in its wait set, queued if that frees it. -/
def relieved (ks : List Key) (t : Tracker) : Tracker :=
  { t with
    waitingOn := t.waitingOn.filter (fun k => k ∉ ks)
    status := if t.isFreedBy ks then .queuedForProcessing else t.status }

/-- What is left of the tracker of a completed chunk. -/
def kept (retention : Retention) (t : Tracker) : Option Tracker :=
  match retention with
  | .purge => none
  | .retain => some { t with waitingOn := ∅, status := .completed }

/-- What is left of the tracker of `k` when the chunks of `ks` are completed. -/
def settled (retention : Retention) (ks : List Key) (k : Key) (t : Tracker) : Option Tracker :=
  if k ∈ ks then t.kept retention else some (t.relieved ks)

variable {ks ks' : List Key} {t : Tracker}

theorem isFreedBy_iff :
  t.isFreedBy ks = true
    ↔ t.status = .blocked ∧ (∃ k, k ∈ t.waitingOn) ∧ ∀ k ∈ t.waitingOn, k ∈ ks
  := by
  rw [isFreedBy, decide_eq_true_iff, SortedSet.isEmpty_eq_false_iff, List.all_eq_true]
  simp only [decide_eq_true_eq, SortedSet.mem_iff]

theorem mem_relieved {k : Key} :
  k ∈ (t.relieved ks).waitingOn ↔ k ∈ t.waitingOn ∧ k ∉ ks
  := by
  rw [relieved, SortedSet.mem_filter, decide_eq_true_iff]

/-- What waits for none of the keys is not freed by them. -/
theorem isFreedBy_of_forall_not_mem (h : ∀ k ∈ ks, k ∉ t.waitingOn) :
  t.isFreedBy ks = false
  := by
  rw [Bool.eq_false_iff, ne_eq, isFreedBy_iff]
  rintro ⟨-, ⟨k, hk⟩, hall⟩
  apply h k (hall k hk) hk

/-- What waits for none of the keys is left as it is. -/
theorem relieved_of_forall_not_mem (h : ∀ k ∈ ks, k ∉ t.waitingOn) :
  t.relieved ks = t
  := by
  have hrest : t.waitingOn.filter (fun k => k ∉ ks) = t.waitingOn := by
    apply SortedSet.ext
    intro k
    rw [SortedSet.mem_filter, decide_eq_true_iff]
    exact and_iff_left_of_imp (fun hk hks => h k hks hk)
  rw [relieved, hrest, isFreedBy_of_forall_not_mem h]
  rfl

theorem relieved_status :
  (t.relieved ks).status = if t.isFreedBy ks then .queuedForProcessing else t.status
  := rfl

theorem relieved_isLive :
  (t.relieved ks).isLive = t.isLive
  := by
  rw [isLive, relieved_status]
  split
  · rename_i hfreed
    rw [isLive_of_blocked (isFreedBy_iff.mp hfreed).1]
    rfl
  · rfl

/-- What was freed is not blocked any more. -/
theorem isFreedBy_relieved (h : t.isFreedBy ks = true) (ks' : List Key) :
  (t.relieved ks).isFreedBy ks' = false
  := by
  rw [isFreedBy, relieved_status, if_pos h]
  rfl

/-- A tracker is freed by the first keys, or by the others when the first are taken out. -/
theorem isFreedBy_append :
  t.isFreedBy (ks ++ ks') = (t.isFreedBy ks ^^ (t.relieved ks).isFreedBy ks')
  := by
  cases hfreed : t.isFreedBy ks with
  | true =>
    obtain ⟨hblocked, hsome, hall⟩ := isFreedBy_iff.mp hfreed
    rw [isFreedBy_relieved hfreed]
    apply isFreedBy_iff.mpr ⟨hblocked, hsome, _⟩
    exact fun k hk => List.mem_append_left ks' (hall k hk)
  | false =>
    have hstatus : (t.relieved ks).status = t.status := by
      rw [relieved_status, hfreed]
      rfl
    rw [Bool.false_xor, Bool.eq_iff_iff, isFreedBy_iff, isFreedBy_iff, hstatus]
    simp only [mem_relieved, List.mem_append]
    constructor
    · rintro ⟨hblocked, hsome, hall⟩
      refine ⟨hblocked, ?_, fun k hk => (hall k hk.1).resolve_left hk.2⟩
      by_contra hnone
      apply Bool.eq_false_iff.mp hfreed
      apply isFreedBy_iff.mpr ⟨hblocked, hsome, _⟩
      intro k hk
      by_contra hks
      exact hnone ⟨k, hk, hks⟩
    · rintro ⟨hblocked, ⟨k, hk, -⟩, hall⟩
      refine ⟨hblocked, ⟨k, hk⟩, ?_⟩
      intro j hj
      by_cases hjs : j ∈ ks
      · exact Or.inl hjs
      · exact Or.inr (hall j ⟨hj, hjs⟩)

/-- Keys are taken out at once or one after another. -/
theorem relieved_append :
  t.relieved (ks ++ ks') = (t.relieved ks).relieved ks'
  := by
  have hrest : t.waitingOn.filter (fun k => k ∉ ks ++ ks')
      = (t.waitingOn.filter (fun k => k ∉ ks)).filter (fun k => k ∉ ks') := by
    apply SortedSet.ext
    intro k
    simp [SortedSet.mem_filter, and_assoc]
  have hstatus : (if t.isFreedBy (ks ++ ks') then Status.queuedForProcessing else t.status)
      = ((t.relieved ks).relieved ks').status := by
    rw [isFreedBy_append, relieved_status, relieved_status]
    cases hfreed : t.isFreedBy ks with
    | true => simp [isFreedBy_relieved hfreed]
    | false => simp
  rw [relieved, hrest, hstatus]
  rfl

theorem isFreedBy_congr (h : ∀ k ∈ t.waitingOn, k ∈ ks ↔ k ∈ ks') :
  t.isFreedBy ks = t.isFreedBy ks'
  := by
  rw [Bool.eq_iff_iff, isFreedBy_iff, isFreedBy_iff]
  apply and_congr_right
  intro _
  apply and_congr_right
  intro _
  apply forall_congr'
  exact fun k => imp_congr_right (h k)

/-- Only the keys the tracker waits for matter. -/
theorem relieved_congr (h : ∀ k ∈ t.waitingOn, k ∈ ks ↔ k ∈ ks') :
  t.relieved ks = t.relieved ks'
  := by
  have hrest : t.waitingOn.filter (fun k => k ∉ ks) = t.waitingOn.filter (fun k => k ∉ ks') := by
    apply SortedSet.ext
    intro k
    simp only [SortedSet.mem_filter, decide_eq_true_eq]
    apply and_congr_right
    intro hk
    rw [h k hk]
  rw [relieved, relieved, hrest, isFreedBy_congr h]

theorem isFreedBy_perm (h : ks.Perm ks') :
  t.isFreedBy ks = t.isFreedBy ks'
  := by
  apply isFreedBy_congr
  exact fun _ _ => h.mem_iff

/-- In which order the keys are taken out does not matter. -/
theorem relieved_perm (h : ks.Perm ks') :
  t.relieved ks = t.relieved ks'
  := by
  apply relieved_congr
  exact fun _ _ => h.mem_iff

theorem relieved_nil :
  relieved [] = id
  := by
  funext t
  apply relieved_of_forall_not_mem
  exact fun _ hk => absurd hk List.not_mem_nil

/-- Keys taken out once are not there to be taken out again. -/
theorem relieved_relieved (ks : List Key) (t : Tracker) :
  (t.relieved ks).relieved ks = t.relieved ks
  := by
  apply relieved_of_forall_not_mem
  intro k hk hmem
  apply (mem_relieved.mp hmem).2 hk

/-- What is kept of a completed chunk waits for nothing. -/
theorem relieved_kept (retention : Retention) (ks : List Key) :
  (t.kept retention).map (relieved ks) = t.kept retention
  := by
  cases retention with
  | purge => rfl
  | retain =>
    apply congrArg some
    apply relieved_of_forall_not_mem
    exact fun _ _ => List.not_mem_nil

theorem kept_relieved (retention : Retention) (ks : List Key) :
  (t.relieved ks).kept retention = t.kept retention
  := by
  cases retention <;> rfl

theorem settled_of_mem {k : Key} (hk : k ∈ ks) (retention : Retention) :
  t.settled retention ks k = t.kept retention
  := if_pos hk

theorem settled_of_not_mem {k : Key} (hk : k ∉ ks) (retention : Retention) :
  t.settled retention ks k = some (t.relieved ks)
  := if_neg hk

/-- Chunks are completed at once or one after another, but none of them twice. -/
theorem settled_append (hdisjoint : ks.Disjoint ks') (retention : Retention) (k : Key) :
  t.settled retention (ks ++ ks') k
    = (t.settled retention ks k).bind (settled retention ks' k)
  := by
  by_cases hk : k ∈ ks
  · have hk' : k ∉ ks' := hdisjoint hk
    have hrelieved : settled retention ks' k = some ∘ relieved ks' := by
      funext t
      apply settled_of_not_mem hk'
    rw [settled_of_mem (List.mem_append_left ks' hk), settled_of_mem hk, hrelieved,
      ← Option.map_eq_bind, relieved_kept]
  · rw [settled_of_not_mem hk, Option.bind_some, settled, settled, relieved_append, kept_relieved]
    simp only [List.mem_append, hk, false_or]

theorem settled_perm (h : ks.Perm ks') (retention : Retention) (k : Key) :
  t.settled retention ks k = t.settled retention ks' k
  := by
  rw [settled, settled, relieved_perm h]
  simp only [h.mem_iff]

end Tracker

namespace Change

/-- To release a tracker from a key is to relieve it of the key, and tells whether that frees it. -/
theorem Release.apply_eq_relieved (k : Key) (t : Tracker) :
  Release.apply ⟨k⟩ t = (t.isFreedBy [k], t.relieved [k])
  := by
  by_cases hk : k ∈ t.waitingOn
  · have hrest : t.waitingOn.erase k = t.waitingOn.filter (fun j => j ∉ [k]) := by
      apply SortedSet.ext
      intro j
      simp [SortedSet.mem_erase, SortedSet.mem_filter]
    have hfreed : ((t.waitingOn.erase k).isEmpty = true ∧ t.status = .blocked)
        ↔ t.isFreedBy [k] = true := by
      rw [Tracker.isFreedBy_iff, ← Bool.not_eq_false, SortedSet.isEmpty_eq_false_iff]
      simp only [SortedSet.mem_erase, List.mem_singleton, not_exists, not_and, not_not]
      constructor
      · exact fun h => ⟨h.2, ⟨k, hk⟩, h.1⟩
      · exact fun h => ⟨h.2.2, h.1⟩
    rw [Release.apply, if_pos hk, Tracker.relieved, ← hrest]
    simp only [hfreed]
    split
    · rename_i h
      simp [h]
    · rename_i h
      simp [h]
  · have hnone : ∀ j ∈ [k], j ∉ t.waitingOn := by
      intro j hj
      rwa [List.mem_singleton.mp hj]
    rw [Release.apply, if_neg hk, Tracker.isFreedBy_of_forall_not_mem hnone,
      Tracker.relieved_of_forall_not_mem hnone]

end Change

/-! ### One completion -/

theorem Board.undated_amend {α : Type} (now : Instant) (f : Tracker → α × Tracker) (t : Tracker) :
  (amend now f t).undated = (f t).2.undated
  := by
  obtain ⟨m, hm⟩ := exists_amend_eq now f t
  rw [hm]
  rfl

namespace Scheduler

theorem undated_retired (retention : Retention) (now : Instant) (old : Option Tracker) :
  (retired retention now old).map Tracker.undated
    = (old.map Tracker.undated).bind (Tracker.kept retention)
  := by
  cases old with
  | none => cases retention <;> rfl
  | some t =>
    cases retention with
    | purge => rfl
    | retain =>
      rw [retired, Option.map_some, Option.map_some, Board.undated_amend]
      rfl

/-- A tracker is relieved of the key, unless it waits for it and goes to another sink. -/
theorem undated_releaseFrom {now : Instant} {k : Key} {sink : Option Int32} {t : Tracker}
    (hsink : k ∈ t.waitingOn → sink.all (· = t.sink) = true) :
  (releaseFrom now k sink t).undated = t.undated.relieved [k]
  := by
  rw [releaseFrom]
  split
  · rw [Board.undated_amend, Change.Release.apply_eq_relieved]
    rfl
  · rename_i hq
    have hnone : ∀ j ∈ [k], j ∉ t.undated.waitingOn := by
      intro j hj hmem
      rw [List.mem_singleton.mp hj] at hmem
      apply hq
      rw [Query.WaitingFor.holds, decide_eq_true_iff]
      exact ⟨hsink hmem, hmem⟩
    rw [Tracker.relieved_of_forall_not_mem hnone]

end Scheduler

end ChunkDispatch
