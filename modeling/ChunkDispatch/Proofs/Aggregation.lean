import ChunkDispatch.Proofs.Grid

/-!
# Tallies over parts

A tally *adds up* if it is the same whether a tracker is counted before two parts are merged or
after it, and in whichever order trackers are counted.  What such a tally comes to depends on the
trackers alone, and neither on their order nor on how they are split into parts.  All tallies add
up.
-/

namespace ChunkDispatch

/-! ### Alterations of maps -/

namespace SortedMap

variable {κ α : Type} [LT κ] [LE κ] [Std.IsLinearOrder κ] [Std.LawfulOrderLT κ]
variable [DecidableEq κ] [DecidableLT κ]

/-- Alterations at two keys, or at one key where they commute, may be made in either order. -/
theorem alter_comm (m : SortedMap κ α) (k k' : κ) {f f' : Option α → α}
    (h : ∀ a, f' (some (f a)) = f (some (f' a))) :
  (m.alter k f).alter k' f' = (m.alter k' f').alter k f
  := by
  apply ext
  intro j
  simp only [find?_alter]
  by_cases hk : k = k'
  · subst hk
    by_cases hj : j = k
    · simp [hj, h]
    · simp [hj]
  · by_cases hj : j = k
    · simp [hj, hk]
    · simp [hj, Ne.symm hk]

/-- An alteration of the second map may be made after the maps are put together. -/
theorem foldl_alter_alter {f : α → Option α → α} {g : Option α → α}
    (hnone : ∀ o, f (g none) o = g o) (hsome : ∀ a o, f (g (some a)) o = g (some (f a o)))
    (m m' : SortedMap κ α) (k : κ) :
  (m'.alter k g).toList.foldl (fun m e => m.alter e.1 (f e.2)) m
    = (m'.toList.foldl (fun m e => m.alter e.1 (f e.2)) m).alter k g
  := by
  apply ext
  intro j
  simp only [find?_foldl_alter, find?_alter]
  by_cases hj : j = k
  · rw [if_pos hj, if_pos hj, Option.elim_some, hj]
    cases m'.find? k with
    | none => rw [hnone, Option.elim_none]
    | some a => rw [hsome, Option.elim_some]
  · rw [if_neg hj, if_neg hj]

end SortedMap

/-! ### Tallies which add up -/

namespace Tally

variable {σ β : Type} {t : Tally σ β}

/-- Merging and counting may change places. -/
structure AddsUp (t : Tally σ β) : Prop where
  merge_empty : ∀ c, t.merge c t.empty = c
  merge_add : ∀ c d x, t.merge c (t.add d x) = t.add (t.merge c d) x
  add_comm : ∀ c x y, t.add (t.add c x) y = t.add (t.add c y) x

namespace AddsUp

variable (h : t.AddsUp)

include h

/-- Merging a part is counting its trackers one after another. -/
theorem merge_part (c : σ) (xs : List Tracker) :
  t.merge c (t.part xs) = xs.foldl t.add c
  := by
  have hadd : ∀ d, t.merge c (xs.foldl t.add d) = xs.foldl t.add (t.merge c d) := by
    induction xs with
    | nil => exact fun _ => rfl
    | cons x rest ih =>
      intro d
      rw [List.foldl_cons, ih, h.merge_add, List.foldl_cons]
  rw [part, hadd, h.merge_empty]

/-- The result for several parts is that for their trackers together. -/
theorem ofParts_eq (parts : List (List Tracker)) :
  t.ofParts parts = t.result (t.part parts.flatten)
  := by
  have hmerge : (fun c xs => t.merge c (t.part xs)) = fun c xs => xs.foldl t.add c := by
    funext c xs
    apply h.merge_part
  rw [ofParts, part, List.foldl_flatten, hmerge]

/-- The order of the trackers does not matter. -/
theorem part_perm {xs ys : List Tracker} (hperm : xs.Perm ys) :
  t.part xs = t.part ys
  := by
  apply hperm.foldl_eq'
  intro x _ y _ c
  apply h.add_comm

/-- How trackers are split into parts does not matter. -/
theorem ofParts_perm {parts : List (List Tracker)} {xs : List Tracker}
    (hperm : parts.flatten.Perm xs) :
  t.ofParts parts = t.result (t.part xs)
  := by
  rw [h.ofParts_eq, h.part_perm hperm]

end AddsUp

/-! ### The tallies of a scheduler -/

theorem addsUp_activeSinks (status : Option Status) :
  (activeSinks status).AddsUp
  := by
  constructor
  · intro c
    rfl
  · intro c d x
    apply SortedSet.ext
    intro sink
    simp only [activeSinks]
    split
    · simp only [SortedSet.mem_union, SortedSet.mem_insert]
      apply or_left_comm
    · rfl
  · intro c x y
    apply SortedSet.ext
    intro sink
    simp only [activeSinks]
    split <;> split
    · simp only [SortedSet.mem_insert]
      apply or_left_comm
    all_goals rfl

theorem addsUp_jobCount (sink : Int32) :
  (jobCount sink).AddsUp
  := by
  constructor
  · intro c
    rfl
  · intro c d x
    simp only [jobCount]
    split
    · apply Prod.ext
      · apply SortedSet.ext
        intro job
        simp only [SortedSet.mem_union, SortedSet.mem_insert]
        apply or_left_comm
      · rfl
    · rfl
  · intro c x y
    simp only [jobCount]
    split <;> split
    · apply Prod.ext
      · apply SortedSet.ext
        intro job
        simp only [SortedSet.mem_insert]
        apply or_left_comm
      · rfl
    all_goals rfl

/-- The later one of `k` and of the key which is there, if there is one. -/
def laterKey (k : Key) : Option Key → Key
  | none => k
  | some k' => if k' < k then k else k'

theorem laterKey_laterKey (k k' : Key) (o : Option Key) :
  laterKey (laterKey k (some k')) o = laterKey k (some (laterKey k' o))
  := by
  cases o with
  | none => rfl
  | some k'' =>
    simp only [laterKey]
    grind

theorem laterKey_comm (k k' : Key) (o : Option Key) :
  laterKey k' (some (laterKey k o)) = laterKey k (some (laterKey k' o))
  := by
  cases o with
  | none =>
    simp only [laterKey]
    grind
  | some k'' =>
    simp only [laterKey]
    grind

/-- The channels of a tracker, if it is live. -/
def channels (t : Tracker) : List Channel :=
  if t.isLive then t.hashes.map (Channel.mk t.lane) else []

theorem mem_channels {t : Tracker} {c : Channel} :
  c ∈ channels t ↔ t.isLive = true ∧ t.lane = c.lane ∧ c.hash ∈ t.hashes
  := by
  rw [channels]
  split
  · rename_i hlive
    rw [List.mem_map]
    constructor
    · rintro ⟨h, hh, rfl⟩
      exact ⟨hlive, rfl, hh⟩
    · rintro ⟨-, hlane, hh⟩
      exact ⟨c.hash, hh, Channel.eq_of_lane_of_hash hlane rfl⟩
  · rename_i hlive
    constructor
    · exact fun hc => absurd hc List.not_mem_nil
    · exact fun hc => absurd hc.1 hlive

/-- What a live tracker offers to the channels. -/
def offers (t : Tracker) : List (Channel × Key) :=
  (channels t).map (fun c => (c, t.key))

theorem add_latest (m : SortedMap Channel Key) (t : Tracker) :
  latest.add m t = (offers t).foldl (fun m e => m.alter e.1 (laterKey e.2)) m
  := by
  simp only [latest, offers, channels]
  split
  · rw [List.map_map, List.foldl_map]
    rfl
  · rfl

theorem addsUp_latest :
  latest.AddsUp
  := by
  constructor
  · intro c
    rfl
  · intro c d x
    rw [add_latest, add_latest]
    induction offers x generalizing d with
    | nil => rfl
    | cons e rest ih =>
      rw [List.foldl_cons, ih, List.foldl_cons]
      congr 1
      apply SortedMap.foldl_alter_alter (f := laterKey) (g := laterKey e.2)
      · exact fun _ => rfl
      · exact laterKey_laterKey e.2
  · intro c x y
    simp only [add_latest]
    rw [← List.foldl_append, ← List.foldl_append]
    apply List.perm_append_comm.foldl_eq'
    intro e _ e' _ m
    apply SortedMap.alter_comm
    apply laterKey_comm

theorem addsUp_statusCounts (now : Instant) (sinks : SortedSet Int32) :
  (statusCounts now sinks).AddsUp
  := by
  constructor
  · intro c
    rfl
  · intro c d x
    simp only [statusCounts]
    split
    · apply SortedMap.foldl_alter_alter
        (f := fun (s : SinkStatus) o => (o.getD (.fresh now)).addCounts s)
      · intro o
        cases x.status <;> rfl
      · intro s o
        cases x.status <;> rfl
    · rfl
  · intro c x y
    simp only [statusCounts]
    split <;> split
    · apply SortedMap.alter_comm
      intro s
      cases x.status <;> cases y.status <;> rfl
    all_goals rfl

theorem addsUp_statusCount (sink : Int32) (status : Status) :
  (statusCount sink status).AddsUp
  := by
  constructor
  · intro c
    rfl
  · intro c d x
    simp only [statusCount]
    split <;> rfl
  · intro c x y
    simp only [statusCount]
    split <;> split <;> rfl

theorem addsUp_sinkCounts (status : Status) :
  (sinkCounts status).AddsUp
  := by
  constructor
  · intro c
    rfl
  · intro c d x
    simp only [sinkCounts]
    split
    · apply SortedMap.foldl_alter_alter (f := fun (n : Nat) o => o.getD 0 + n)
      · exact fun _ => rfl
      · intro n o
        simp only [Option.getD_some]
        omega
    · rfl
  · intro c x y
    simp only [sinkCounts]
    split <;> split
    · apply SortedMap.alter_comm
      intro n
      rfl
    all_goals rfl

end Tally

end ChunkDispatch
