import ChunkDispatch.Proofs.OneMap
import ChunkDispatch.Proofs.Scheduler
import ChunkDispatch.Proofs.WaitGraph
import ChunkDispatch.Store.Memory
import Mathlib.Data.Set.Card

/-!
# Boosts

A boost goes in *rounds*.  A round raises those of its keys which are *below* the priority; the keys
of the next round are those which the raised ones wait for and which were not met before.  So the
keys which are *lifted* are those to which a path along wait sets leads from a given key, all of it
below the priority.  A round which lifts nobody is the last, and only so many trackers can be
lifted, hence a boost comes to an end whatever waits for whom.
-/

namespace ChunkDispatch

open Attempt

/-! ### Raised trackers -/

namespace Tracker

/-- The tracker with a priority it was given at `now`. -/
def raised (now : Instant) (priority : Int32) (t : Tracker) : Tracker :=
  { t with priority := priority }.touch now

end Tracker

namespace Change

variable {priority : Int32} {t : Tracker}

theorem Raise.apply_of_lt (h : t.priority < priority) :
  Raise.apply ⟨priority⟩ t = (some t.waitingOn, { t with priority := priority })
  := by
  rw [Raise.apply, if_neg (Std.not_le.mpr h)]

theorem Raise.apply_of_not_lt (h : ¬ t.priority < priority) :
  Raise.apply ⟨priority⟩ t = (none, t)
  := by
  rw [Raise.apply, if_pos (Std.not_lt.mp h)]

/-- Who is below the priority is raised to it, and who is not is left alone. -/
theorem amend_raise (now : Instant) (priority : Int32) (t : Tracker) :
  Board.amend now (Raise.apply ⟨priority⟩) t
    = if t.priority < priority then t.raised now priority else t
  := by
  split
  · rename_i hlt
    rw [Board.amend, Board.changed?, Raise.apply_of_lt hlt, if_neg]
    · rfl
    · intro heq
      have hsame : priority = t.priority := congrArg Tracker.priority heq
      rw [← hsame] at hlt
      exact Std.lt_irrefl hlt
  · rename_i hnot
    rw [Board.amend, Board.changed?, Raise.apply_of_not_lt hnot, if_pos rfl]
    rfl

end Change

/-! ### Lifted keys -/

variable {p : Partitioner}

namespace Grid

variable {g g' : Grid p} {priority : Int32} {keys : List Key}

/-- The key is tracked, and its priority is lower. -/
def Below (g : Grid p) (priority : Int32) (k : Key) : Prop :=
  ∃ t, g.find? k = some t ∧ t.priority < priority

/--
A path along wait sets leads to the key from one of the given ones, and all keys on it, the first
and the last among them, are below the priority.
-/
inductive Lifted (g : Grid p) (priority : Int32) (keys : List Key) : Key → Prop where
  | given {k : Key} (hk : k ∈ keys) (hbelow : g.Below priority k) : Lifted g priority keys k
  | waits {j k : Key} (hj : Lifted g priority keys j) (hwaits : g.Waits j k)
      (hbelow : g.Below priority k) : Lifted g priority keys k

theorem below_of_lifted {k : Key} (h : g.Lifted priority keys k) :
  g.Below priority k
  := by
  cases h with
  | given _ hbelow => exact hbelow
  | waits _ _ hbelow => exact hbelow

/-- The trackers of the keys in `S` have been raised, and all others are as they were. -/
structure Raises (now : Instant) (priority : Int32) (S : Set Key) (g g' : Grid p) : Prop where
  filed : g'.WellFiled
  raised : ∀ k ∈ S, g'.find? k = (g.find? k).map (Tracker.raised now priority)
  others : ∀ k, k ∉ S → g'.find? k = g.find? k

theorem raises_empty (now : Instant) (priority : Int32) (hg : g.WellFiled) :
  Raises now priority ↑(∅ : Finset Key) g g
  := ⟨hg, fun k hk => absurd hk (Finset.notMem_empty k), fun _ _ => rfl⟩

/-- No more keys are tracked than there are trackers. -/
theorem card_le_size (hg : g.WellFiled) {S : Finset Key} (hS : ∀ k ∈ S, ∃ t, g.find? k = some t) :
  S.card ≤ g.size
  := by
  have hsub : S ⊆ g.oneMap.keys.toFinset := by
    intro k hk
    rw [List.mem_toFinset, SortedMap.mem_keys_iff]
    obtain ⟨t, ht⟩ := hS k hk
    exact ⟨t, (find?_oneMap hg k).trans ht⟩
  apply (Finset.card_le_card hsub).trans
  apply (List.toFinset_card_le _).trans
  rw [size_eq hg, SortedMap.size, SortedMap.keys, List.length_map]

/--
A boost of the grid has lifted some keys and met those `visited`, of which the `pending` are due
next.
-/
structure Midway (g : Grid p) (priority : Int32) (keys : List Key) (lifted : Finset Key)
    (visited : SortedSet Key) (pending : List Key) : Prop where
  sound : ∀ k ∈ lifted, g.Lifted priority keys k
  met : ∀ k ∈ lifted, k ∈ visited
  given : ∀ k ∈ keys, k ∈ visited
  closed : ∀ j ∈ lifted, ∀ k, g.Waits j k → k ∈ visited
  settled : ∀ k ∈ visited, k ∉ pending → g.Below priority k → k ∈ lifted
  due : ∀ k ∈ pending, k ∈ visited ∧ k ∉ lifted ∧ (k ∈ keys ∨ ∃ j ∈ lifted, g.Waits j k)

/-- At first all given keys are due. -/
theorem midway_start (g : Grid p) (priority : Int32) (keys : List Key) :
  g.Midway priority keys ∅ (.ofList keys) keys
  := by
  constructor
  case sound => exact fun k hk => absurd hk (Finset.notMem_empty k)
  case met => exact fun k hk => absurd hk (Finset.notMem_empty k)
  case given => exact fun k hk => SortedSet.mem_ofList.mpr hk
  case closed => exact fun j hj => absurd hj (Finset.notMem_empty j)
  case settled => exact fun k hk hnot => absurd (SortedSet.mem_ofList.mp hk) hnot
  case due => exact fun k hk => ⟨SortedSet.mem_ofList.mpr hk, Finset.notMem_empty k, Or.inl hk⟩

variable {lifted newly : Finset Key} {visited next : SortedSet Key} {pending : List Key}

/-- A round lifts the keys due which are below the priority. -/
theorem Midway.round (h : g.Midway priority keys lifted visited pending)
    (hnewly : ∀ k, k ∈ newly ↔ k ∈ pending ∧ g.Below priority k)
    (hnext : ∀ k, k ∈ next ↔ k ∉ visited ∧ ∃ j ∈ newly, g.Waits j k) :
  g.Midway priority keys (lifted ∪ newly) (visited.union next) next.toList
  := by
  have hmet : ∀ k ∈ lifted ∪ newly, k ∈ visited := by
    intro k hk
    obtain hk | hk := Finset.mem_union.mp hk
    · exact h.met k hk
    · exact (h.due k ((hnewly k).mp hk).1).1
  constructor
  case sound =>
    intro k hk
    obtain hk | hk := Finset.mem_union.mp hk
    · exact h.sound k hk
    · obtain ⟨hpending, hbelow⟩ := (hnewly k).mp hk
      obtain ⟨-, -, hgiven | ⟨j, hj, hwaits⟩⟩ := h.due k hpending
      · exact Lifted.given hgiven hbelow
      · exact Lifted.waits (h.sound j hj) hwaits hbelow
  case met => exact fun k hk => SortedSet.mem_union.mpr (Or.inl (hmet k hk))
  case given => exact fun k hk => SortedSet.mem_union.mpr (Or.inl (h.given k hk))
  case closed =>
    intro j hj k hwaits
    apply SortedSet.mem_union.mpr
    obtain hj | hj := Finset.mem_union.mp hj
    · exact Or.inl (h.closed j hj k hwaits)
    · by_cases hk : k ∈ visited
      · exact Or.inl hk
      · exact Or.inr ((hnext k).mpr ⟨hk, j, hj, hwaits⟩)
  case settled =>
    intro k hk hnot hbelow
    apply Finset.mem_union.mpr
    have hvisited := (SortedSet.mem_union.mp hk).resolve_right hnot
    by_cases hpending : k ∈ pending
    · exact Or.inr ((hnewly k).mpr ⟨hpending, hbelow⟩)
    · exact Or.inl (h.settled k hvisited hpending hbelow)
  case due =>
    intro k hk
    obtain ⟨hnot, j, hj, hwaits⟩ := (hnext k).mp hk
    refine ⟨SortedSet.mem_union.mpr (Or.inr hk), fun hmem => hnot (hmet k hmem), Or.inr ?_⟩
    exact ⟨j, Finset.mem_union.mpr (Or.inr hj), hwaits⟩

/-- When nothing is due any more, all keys which are to be lifted are. -/
theorem Midway.mem_iff (h : g.Midway priority keys lifted visited []) (k : Key) :
  k ∈ lifted ↔ g.Lifted priority keys k
  := by
  constructor
  · exact h.sound k
  · intro hk
    induction hk with
    | given hk hbelow => exact h.settled _ (h.given _ hk) List.not_mem_nil hbelow
    | waits _ hwaits hbelow ih =>
      exact h.settled _ (h.closed _ ih _ hwaits) List.not_mem_nil hbelow

/-- Who is due was not lifted before. -/
theorem Midway.card_union (h : g.Midway priority keys lifted visited pending)
    (hnewly : ∀ k, k ∈ newly ↔ k ∈ pending ∧ g.Below priority k) :
  (lifted ∪ newly).card = lifted.card + newly.card
  := by
  apply Finset.card_union_of_disjoint
  apply Finset.disjoint_left.mpr
  intro k hk hnew
  exact (h.due k ((hnewly k).mp hnew).1).2.1 hk

/-- No more keys are lifted than there are trackers. -/
theorem Midway.card_le_size (h : g.Midway priority keys lifted visited pending)
    (hg : g.WellFiled) :
  lifted.card ≤ g.size
  := by
  apply Grid.card_le_size hg
  intro k hk
  obtain ⟨t, ht, -⟩ := below_of_lifted (h.sound k hk)
  exact ⟨t, ht⟩

end Grid

/-! ### Adjustments which change nothing -/

variable {σ : Type} [Store σ]

namespace Board

variable {α : Type} {b : Board p σ} {q : Tracker → Bool} {f : Tracker → α × Tracker}

theorem adjustIn_idle (hb : b.grid.WellFiled) (now : Instant)
    (hidle : ∀ k t, b.grid.find? k = some t → q t = true → (f t).2 = t) (i : Fin p.count) :
  (adjustIn now q f i).Yields b (fun _ b' => b' = b)
  := by
  have hnone : changedIn now q f b.grid i = [] := by
    apply List.eq_nil_iff_forall_not_mem.mpr
    intro u hu
    obtain ⟨t, ht, -, hq, hc⟩ := (mem_changedIn hb now q f i u).mp hu
    rw [changed?, if_pos (hidle _ t ht hq)] at hc
    cases hc
  rw [adjustIn, Yields, ends_bind, ends_get]
  simp only []
  rw [← selectedIn, ← changedIn, hnone]
  rfl

/-- What changes none of the trackers it is for does nothing, and asks nothing of the store. -/
theorem adjustWhere_idle (hb : b.grid.WellFiled) (now : Instant)
    (hidle : ∀ k t, b.grid.find? k = some t → q t = true → (f t).2 = t) :
  (adjustWhere now q f).Yields b (fun _ b' => b' = b)
  := by
  have hmap : ∀ ℓ : List (Fin p.count),
      (ℓ.mapM (adjustIn now q f)).Yields b (fun _ b' => b' = b) := by
    intro ℓ
    induction ℓ with
    | nil => rfl
    | cons i rest ih =>
      rw [List.mapM_cons, Yields, ends_bind]
      apply (adjustIn_idle hb now hidle i).ends
      rintro _ _ rfl
      rw [ends_bind]
      apply ih.ends
      exact fun _ _ h => h
  rw [adjustWhere, Yields, ends_bind]
  apply (hmap (Grid.indices p)).ends
  exact fun _ _ h => h

end Board

/-! ### Rounds -/

namespace SortedMap

variable {κ α : Type} [LT κ] [LE κ] [Std.LawfulOrderLT κ] [DecidableEq κ]
variable {m : SortedMap κ (Option α)}

/-- The keys under which there is a value. -/
def present (m : SortedMap κ (Option α)) : Finset κ :=
  (m.filter (fun _ o => o.isSome)).keys.toFinset

theorem mem_present {k : κ} :
  k ∈ m.present ↔ ∃ a, m.find? k = some (some a)
  := by
  simp only [present, List.mem_toFinset, mem_keys_iff, find?_filter, Option.filter_eq_some_iff,
    Option.isSome_iff_exists]
  constructor
  · rintro ⟨_, hk, a, rfl⟩
    exact ⟨a, hk⟩
  · rintro ⟨a, hk⟩
    exact ⟨some a, hk, a, rfl⟩

theorem mem_filterMap_values {a : α} :
  a ∈ m.values.filterMap id ↔ ∃ k, m.find? k = some (some a)
  := by
  simp only [List.mem_filterMap, id, exists_eq_right, mem_values_iff]

/-- There are as many values as keys under which there is one. -/
theorem length_filterMap_values [Std.IsLinearOrder κ] (m : SortedMap κ (Option α)) :
  (m.values.filterMap id).length = m.present.card
  := by
  have hnodup : (m.filter (fun _ o => o.isSome)).keys.Nodup := (m.filter _).keySet.nodup_toList
  rw [present, List.toFinset_card_of_nodup hnodup, List.length_filterMap_eq_countP, values,
    List.countP_map, keys, filter, List.length_map, List.countP_eq_length_filter]
  rfl

end SortedMap

/-- A round raises those of the keys due which are below the priority. -/
theorem Grid.Raises.round {g g₁ g₂ : Grid p} {priority : Int32} {lifted newly : Finset Key}
    {pending : List Key} {now : Instant} (h : Raises now priority lifted g g₁)
    (hdue : ∀ k ∈ pending, k ∉ lifted)
    (hnewly : ∀ k, k ∈ newly ↔ k ∈ pending ∧ g.Below priority k) (hfiled : g₂.WellFiled)
    (hfind : ∀ k, g₂.find? k = (g₁.find? k).map (fun t => if t.key ∈ pending
      then Board.amend now (Change.Raise.apply ⟨priority⟩) t else t)) :
  Raises now priority ↑(lifted ∪ newly) g g₂
  := by
  have hkept : ∀ k, k ∉ pending → g₂.find? k = g₁.find? k := by
    intro k hk
    rw [hfind]
    cases ht : g₁.find? k with
    | none => rfl
    | some t => rw [Option.map_some, if_neg (by rwa [h.filed.key ht])]
  have hround : ∀ k ∈ pending, g₂.find? k
      = (g.find? k).map (Board.amend now (Change.Raise.apply ⟨priority⟩)) := by
    intro k hk
    rw [hfind, ← h.others k (hdue k hk)]
    cases ht : g₁.find? k with
    | none => rfl
    | some t => rw [Option.map_some, Option.map_some, if_pos (by rwa [h.filed.key ht])]
  constructor
  case filed => exact hfiled
  case raised =>
    intro k hk
    obtain hk | hk := Finset.mem_union.mp hk
    · rw [hkept k (fun hpending => hdue k hpending hk), h.raised k hk]
    · obtain ⟨hpending, t, ht, hlt⟩ := (hnewly k).mp hk
      rw [hround k hpending, ht, Option.map_some, Option.map_some, Change.amend_raise, if_pos hlt]
  case others =>
    intro k hk
    obtain ⟨hnot, hother⟩ := not_or.mp (fun hor => hk (Finset.mem_union.mpr hor))
    by_cases hpending : k ∈ pending
    · rw [hround k hpending]
      cases ht : g.find? k with
      | none => rfl
      | some t =>
        rw [Option.map_some, Change.amend_raise, if_neg]
        exact fun hlt => hother ((hnewly k).mpr ⟨hpending, t, ht, hlt⟩)
    · rw [hkept k hpending, h.others k hnot]

/-- Who is raised in a round tells whom it waits for; it is as at the start, as it was not
lifted. -/
theorem Grid.Raises.outcome_iff {g g₁ : Grid p} {priority : Int32} {lifted : Finset Key}
    {pending : List Key} {now : Instant} (h : Raises now priority lifted g g₁)
    (hdue : ∀ k ∈ pending, k ∉ lifted) {outcomes : SortedMap Key (Option (SortedSet Key))}
    (houtcomes : ∀ k, outcomes.find? k = ((g₁.find? k).filter (fun t => t.key ∈ pending)).map
      (fun t => (Change.Raise.apply ⟨priority⟩ t).1)) (k : Key) (ws : SortedSet Key) :
  outcomes.find? k = some (some ws)
    ↔ k ∈ pending ∧ ∃ t, g.find? k = some t ∧ t.priority < priority ∧ t.waitingOn = ws
  := by
  simp only [houtcomes, Option.map_eq_some_iff, Option.filter_eq_some_iff, decide_eq_true_eq]
  constructor
  · rintro ⟨t, ⟨ht, hk⟩, hresult⟩
    rw [h.filed.key ht] at hk
    use hk, t, (h.others k (hdue k hk)).symm.trans ht
    by_cases hlt : t.priority < priority
    · rw [Change.Raise.apply_of_lt hlt] at hresult
      exact ⟨hlt, Option.some.inj hresult⟩
    · rw [Change.Raise.apply_of_not_lt hlt] at hresult
      cases hresult
  · rintro ⟨hk, t, ht, hlt, rfl⟩
    have ht' : g₁.find? k = some t := (h.others k (hdue k hk)).trans ht
    refine ⟨t, ⟨ht', by rwa [h.filed.key ht']⟩, ?_⟩
    rw [Change.Raise.apply_of_lt hlt]

namespace Scheduler

variable {s s' : Scheduler p σ} {g : Grid p} {priority : Int32} {keys : List Key}
variable {lifted : Finset Key} {visited : SortedSet Key} {pending : List Key}

/-- A round of a boost; how many trackers it raised, and the keys of the next round. -/
def boostRound (now : Instant) (change : Change.Raise) (visited : SortedSet Key)
    (pending : List Key) : Attempt (Scheduler p σ) (Nat × SortedSet Key) := do
  let outcomes ← onBoard (Board.adjustKeys now pending change.apply)
  let waitSets := outcomes.values.filterMap id
  return (waitSets.length,
    (SortedSet.ofList (waitSets.flatMap SortedSet.toList)).filter (· ∉ visited))

theorem boostFrom_nil (now : Instant) (change : Change.Raise) (rounds : Nat)
    (visited : SortedSet Key) (raised : Nat) :
  (boostFrom now change rounds visited [] raised : Attempt (Scheduler p σ) Nat) = pure raised
  := by
  cases rounds <;> rfl

theorem boostFrom_succ (now : Instant) (change : Change.Raise) (rounds : Nat)
    (visited : SortedSet Key) (pending : List Key) (raised : Nat) :
  (boostFrom now change (rounds + 1) visited pending raised : Attempt (Scheduler p σ) Nat)
    = if pending.isEmpty then pure raised else
        boostRound now change visited pending >>= fun r =>
          boostFrom now change rounds (visited.union r.2) r.2.toList (raised + r.1)
  := by
  rw [boostFrom]
  simp only [boostRound, bind_assoc, pure_bind]

/--
Rounds are made, as many as it takes until nothing is due any more.  They lead from `s` to `s'`, and
the number of raised trackers from `raised` to `total`.
-/
inductive Boosting (now : Instant) (change : Change.Raise) :
    SortedSet Key → List Key → Nat → Scheduler p σ → Nat → Scheduler p σ → Prop where
  | done {visited : SortedSet Key} {raised : Nat} {s : Scheduler p σ} :
    Boosting now change visited [] raised s raised s
  | round {visited next : SortedSet Key} {pending : List Key} {raised n total : Nat}
    {s s₁ s' : Scheduler p σ} (hpending : pending ≠ [])
    (hround : boostRound now change visited pending s = .ok (n, next) s₁)
    (hrest : Boosting now change (visited.union next) next.toList (raised + n) s₁ total s') :
    Boosting now change visited pending raised s total s'

variable [LawfulStore σ]

/-- A round raises those of the keys due which are below the priority, and asks for whom they
wait. -/
theorem boostRound_ends (now : Instant) (hs : Grid.Raises now priority lifted g s.grid)
    (visited : SortedSet Key) (hdue : ∀ k ∈ pending, k ∉ lifted) :
  (boostRound now ⟨priority⟩ visited pending).Ends s
    (fun r s' => ∃ newly : Finset Key, (∀ k, k ∈ newly ↔ k ∈ pending ∧ g.Below priority k) ∧
      r.1 = newly.card ∧ (∀ k, k ∈ r.2 ↔ k ∉ visited ∧ ∃ j ∈ newly, g.Waits j k) ∧
      Grid.Raises now priority ↑(lifted ∪ newly) g s'.grid)
    (fun _ _ => True)
  := by
  have hcommits : Board.CommitsOnly (fun _ _ => True)
      (Board.adjustWhere now (fun t => t.key ∈ pending) (Change.Raise.apply ⟨priority⟩) :
        Attempt (Board p σ) (SortedMap Key (Option (SortedSet Key)))) :=
    Board.commitsOnly_adjustWhere now (Change.Raise.apply_key _) (fun _ _ => trivial)
  rw [boostRound, ends_bind, ends_onBoard, Board.adjustKeys]
  apply ((Board.adjustWhere_ends hs.filed now _ (Change.Raise.apply_key _)).and
    (hcommits s.board)).mono
  · rintro outcomes b ⟨⟨houtcomes, hfind⟩, hcommits⟩
    have hraised := hs.outcome_iff hdue houtcomes
    have hnewly : ∀ k, k ∈ outcomes.present ↔ k ∈ pending ∧ g.Below priority k := by
      intro k
      simp only [SortedMap.mem_present, hraised, Grid.Below]
      constructor
      · rintro ⟨_, hk, t, ht, hlt, -⟩
        exact ⟨hk, t, ht, hlt⟩
      · rintro ⟨hk, t, ht, hlt⟩
        exact ⟨t.waitingOn, hk, t, ht, hlt, rfl⟩
    refine ⟨outcomes.present, hnewly, outcomes.length_filterMap_values, ?_, ?_⟩
    · intro k
      simp only [SortedSet.mem_filter, SortedSet.mem_ofList, List.mem_flatMap,
        SortedMap.mem_filterMap_values, decide_eq_true_eq, hraised, and_comm (b := k ∉ visited)]
      apply and_congr_right
      intro _
      constructor
      · rintro ⟨_, ⟨j, hj, t, ht, hlt, rfl⟩, hk⟩
        exact ⟨j, (hnewly j).mpr ⟨hj, t, ht, hlt⟩, t, ht, hk⟩
      · rintro ⟨j, hj, u, hu, hk⟩
        obtain ⟨hdue, t, ht, hlt⟩ := (hnewly j).mp hj
        obtain rfl := Option.some.inj (ht.symm.trans hu)
        exact ⟨t.waitingOn, ⟨j, hdue, t, ht, hlt, rfl⟩, hk⟩
    · apply hs.round hdue hnewly ((hcommits hs.filed).filed hs.filed)
      simp only [decide_eq_true_eq] at hfind
      exact hfind
  · exact fun _ _ _ => trivial

/-- If none of the keys due is below the priority, a round does nothing. -/
theorem boostRound_idle (now : Instant) (hs : s.grid.WellFiled) (visited : SortedSet Key)
    (hidle : ∀ k ∈ pending, ¬ s.grid.Below priority k) :
  (boostRound now ⟨priority⟩ visited pending).Yields s (fun r s' => r = (0, ∅) ∧ s' = s)
  := by
  have hstays : (boostRound now ⟨priority⟩ visited pending).Yields s (fun _ s' => s' = s) := by
    rw [boostRound, Yields, ends_bind, ends_onBoard, Board.adjustKeys]
    apply (Board.adjustWhere_idle hs now _).ends
    · rintro _ _ rfl
      rfl
    · intro k t ht hk
      have hdue : t.key ∈ pending := of_decide_eq_true hk
      rw [hs.key ht] at hdue
      rw [Change.Raise.apply_of_not_lt (fun hlt => hidle k hdue ⟨t, ht, hlt⟩)]
  apply (Ends.and hstays (boostRound_ends now (Grid.raises_empty now priority hs) visited
    (fun k _ => Finset.notMem_empty k))).mono
  · rintro ⟨n, next⟩ s' ⟨rfl, newly, hnewly, hn, hnext, -⟩
    have hnobody : newly = ∅ := by
      apply Finset.eq_empty_of_forall_notMem
      intro k hk
      obtain ⟨hdue, hbelow⟩ := (hnewly k).mp hk
      exact hidle k hdue hbelow
    have hnothing : next = ∅ := by
      apply SortedSet.ext
      intro k
      rw [hnext, hnobody]
      constructor
      · rintro ⟨-, j, hj, -⟩
        exact absurd hj (Finset.notMem_empty j)
      · exact fun hk => absurd hk List.not_mem_nil
    rw [hnobody, Finset.card_empty] at hn
    exact ⟨Prod.ext hn hnothing, rfl⟩
  · exact fun _ _ h => h.1

/-! ### Boosts -/

/-- As every round but the last lifts a key, there are enough rounds to come to the end. -/
theorem boostFrom_ends (now : Instant) {rounds : Nat} (hg : g.WellFiled)
    (hs : Grid.Raises now priority lifted g s.grid)
    (hmidway : g.Midway priority keys lifted visited pending)
    (hrounds : pending = [] ∨ g.size < lifted.card + rounds) :
  (boostFrom now ⟨priority⟩ rounds visited pending lifted.card).Ends s
    (fun n s' => Boosting now ⟨priority⟩ visited pending lifted.card s n s' ∧
      ∃ (all : Finset Key) (met : SortedSet Key), g.Midway priority keys all met [] ∧
        Grid.Raises now priority all g s'.grid ∧ n = all.card)
    (fun _ _ => True)
  := by
  induction rounds generalizing s lifted visited pending with
  | zero =>
    obtain rfl : pending = [] := by
      apply hrounds.resolve_right
      have hle := hmidway.card_le_size hg
      omega
    exact ⟨Boosting.done, lifted, visited, hmidway, hs, rfl⟩
  | succ rounds ih =>
    cases pending with
    | nil =>
      rw [boostFrom_nil, ends_pure]
      exact ⟨Boosting.done, lifted, visited, hmidway, hs, rfl⟩
    | cons k rest =>
      rw [boostFrom_succ, if_neg (by simp), ends_bind]
      apply ((ends_self _ s).and (boostRound_ends now hs visited
        (fun j hj => (hmidway.due j hj).2.1))).mono
      · rintro ⟨n, next⟩ s₁ ⟨hround, newly, hnewly, rfl, hnext, hs₁⟩
        have hrounds₁ : next.toList = [] ∨ g.size < (lifted ∪ newly).card + rounds := by
          rw [hmidway.card_union hnewly]
          obtain rfl | hsome := newly.eq_empty_or_nonempty
          · left
            apply List.eq_nil_iff_forall_not_mem.mpr
            intro j hj
            obtain ⟨-, i, hi, -⟩ := (hnext j).mp hj
            exact absurd hi (Finset.notMem_empty i)
          · right
            have hpos := Finset.card_pos.mpr hsome
            have hlt := hrounds.resolve_left (List.cons_ne_nil k rest)
            omega
        have hrest := ih hs₁ (hmidway.round hnewly hnext) hrounds₁
        rw [hmidway.card_union hnewly] at hrest
        apply hrest.mono
        · rintro total s' ⟨hboosting, hall⟩
          exact ⟨Boosting.round (List.cons_ne_nil k rest) hround hboosting, hall⟩
        · exact fun _ _ => id
      · exact fun _ _ _ => trivial

/-- A boost which succeeds raises just the trackers of the lifted keys. -/
theorem boost_ends (hs : s.grid.WellFiled) (now : Instant) (keys : List Key) (priority : Int32) :
  (boost now keys priority).Ends s
    (fun n s' => Boosting now ⟨priority⟩ (.ofList keys) keys 0 s n s' ∧
      Grid.Raises now priority { k | s.grid.Lifted priority keys k } s.grid s'.grid ∧
      n = { k | s.grid.Lifted priority keys k }.ncard)
    (fun _ _ => True)
  := by
  rw [boost, ends_bind, ends_get]
  apply (boostFrom_ends now hs (Grid.raises_empty now priority hs)
    (Grid.midway_start s.grid priority keys) (Or.inr (by simp))).mono
  · rintro n s' ⟨hboosting, all, met, hmidway, hall, rfl⟩
    have hlifted : { k | s.grid.Lifted priority keys k } = ↑all := by
      ext k
      exact (hmidway.mem_iff k).symm
    rw [hlifted, Set.ncard_coe_finset]
    exact ⟨hboosting, hall, rfl⟩
  · exact fun _ _ => id

/-- If none of the keys is below the priority, a boost does nothing. -/
theorem boost_idle (hs : s.grid.WellFiled) (now : Instant)
    (hidle : ∀ k ∈ keys, ¬ s.grid.Below priority k) :
  (boost now keys priority).Yields s (fun n s' => n = 0 ∧ s' = s)
  := by
  rw [boost, Yields, ends_bind, ends_get]
  simp only []
  rw [boostFrom_succ]
  split
  · exact ⟨rfl, rfl⟩
  · rw [ends_bind]
    apply (boostRound_idle now hs _ hidle).ends
    rintro _ _ ⟨rfl, rfl⟩
    change (boostFrom now _ _ _ [] 0).Ends _ _ _
    rw [boostFrom_nil, ends_pure]
    exact ⟨rfl, rfl⟩

/--
On a store which works a boost succeeds, and its rounds come to an end however many are allowed.  It
raises to the priority just the trackers of the keys to which a path along wait sets leads from a
given key, all of it below the priority, and returns how many they are; nothing else of them and
nobody else is changed.  Made again it does nothing, and asks nothing of the store.
-/
theorem boost_lifts_exactly (hs : s.grid.WellFiled) (hworks : LawfulStore.works s.board.store)
    (now : Instant) (keys : List Key) (priority : Int32) :
  (boost now keys priority).Yields s (fun n s' =>
    Boosting now ⟨priority⟩ (.ofList keys) keys 0 s n s' ∧
    Grid.Raises now priority { k | s.grid.Lifted priority keys k } s.grid s'.grid ∧
    n = { k | s.grid.Lifted priority keys k }.ncard ∧
    ∀ now', (boost now' keys priority).Yields s' (fun n' s'' => n' = 0 ∧ s'' = s'))
  := by
  have hcommits : CommitsOnly (fun _ _ => True) False
      (boost now keys priority : Attempt (Scheduler p σ) Nat) :=
    commitsOnly_boost now keys (fun _ => trivial)
  apply ((boost_ends hs now keys priority).and (hcommits s)).mono
  · rintro n s' ⟨⟨hboosting, hraises, hcount⟩, -⟩
    refine ⟨hboosting, hraises, hcount, ?_⟩
    intro now'
    apply boost_idle hraises.filed now'
    rintro k hk ⟨t', ht', hlt⟩
    by_cases hlifted : s.grid.Lifted priority keys k
    · rw [hraises.raised k hlifted] at ht'
      obtain ⟨t, -, rfl⟩ := Option.map_eq_some_iff.mp ht'
      exact Std.lt_irrefl hlt
    · rw [hraises.others k hlifted] at ht'
      exact hlifted (Grid.Lifted.given hk ⟨t', ht', hlt⟩)
  · rintro _ _ ⟨-, hrefused⟩
    exact (hrefused hs).2 hworks

/-- A blocked tracker of the job 1 with a priority, which waits for other chunks of the job. -/
def waiting (chunk priority : Int32) (waitsFor : List Int32) : Tracker :=
  { (Chunk.track default ⟨⟨1, chunk⟩, 1, 1, ∅, priority⟩) with
    status := .blocked
    waitingOn := .ofList (waitsFor.map (Key.mk 1)) }

/-- Chunks 0 and 1 wait for each other, and chunk 0 for 2, which waits for 3, and for 9. -/
def tangled : Scheduler (.ofCount Settings.standard.partitions) Memory :=
  { start .standard true (.ofList []) with
    board.grid := .ofTrackers _
      [waiting 0 0 [1, 2, 9], waiting 1 3 [0], waiting 2 7 [3], waiting 3 0 [1]] }

/-- Chunks 0 and 1 are raised; chunk 2 is not below the priority, and keeps chunk 3 from it. -/
theorem boost_lifts_exactly_of_tangled :
  let keys : List Key := [⟨1, 0⟩, ⟨1, 0⟩, ⟨1, 8⟩]
  { k | tangled.grid.Lifted 5 keys k }.ncard = 2 ∧
    (boost default keys 5).Yields tangled (fun n s' => n = 2 ∧
      s'.grid.trackers.map Tracker.priority = [5, 5, 7, 0] ∧
      ∀ now', (boost now' keys 5).Yields s' (fun n' s'' => n' = 0 ∧ s'' = s'))
  := by
  intro keys
  have hfiled : tangled.grid.WellFiled := Grid.wellFiled_ofTrackers _
  have hworks : LawfulStore.works tangled.board.store := trivial
  have houtcome : (boost default keys 5).outcome tangled = .ok 2 := by decide +kernel
  have hpriorities : ((boost default keys 5).stateAfter tangled).grid.trackers.map Tracker.priority
      = [5, 5, 7, 0] := by decide +kernel
  generalize tangled = s at hfiled hworks houtcome hpriorities ⊢
  obtain ⟨n, s', hended, -, -, hcount, hagain⟩ :=
    yields_iff.mp (boost_lifts_exactly hfiled hworks default keys 5)
  rw [outcome, hended] at houtcome
  rw [stateAfter, hended] at hpriorities
  obtain rfl := Except.ok.inj houtcome
  exact ⟨hcount.symm, yields_iff.mpr ⟨2, s', hended, rfl, hpriorities, hagain⟩⟩

end Scheduler

end ChunkDispatch
