import ChunkDispatch.Proofs.Registration
import ChunkDispatch.Proofs.Relief

/-!
# Releases one after another

A tracker is released from keys which are gone one after another: a registration does so before it
comes to its tracker, and a repair, which sends the chunk as soon as that frees it.  `t.freed now
ks` is the tracker `t` after releases from the keys `ks`; that is `t` relieved of the keys, but for
the instant of its last change.  A board *frees* a key if its tracker is freed and nothing else
changes in the grid.
-/

namespace ChunkDispatch

open Attempt

/-! ### Trackers freed of keys -/

namespace Tracker

/-- The tracker after releases from some keys, one after another. -/
def freed (now : Instant) (ks : List Key) (t : Tracker) : Tracker :=
  ks.foldl (fun t k => Board.amend now (Change.Release.apply ⟨k⟩) t) t

variable {now : Instant} {ks : List Key} {t : Tracker}

/-- A tracker which is freed is relieved of the keys, but for the instant of the last change. -/
theorem exists_freed_eq (now : Instant) (ks : List Key) (t : Tracker) :
  ∃ m, t.freed now ks = { t.relieved ks with lastModified := m }
  := by
  induction ks generalizing t with
  | nil =>
    use t.lastModified
    rw [relieved_nil]
    rfl
  | cons k rest ih =>
    obtain ⟨m, hm⟩ := Board.exists_amend_eq now (Change.Release.apply ⟨k⟩) t
    obtain ⟨m', hm'⟩ := ih { t.relieved [k] with lastModified := m }
    have happend : t.relieved ([k] ++ rest) = (t.relieved [k]).relieved rest := relieved_append
    rw [List.singleton_append] at happend
    use m'
    rw [freed, List.foldl_cons, hm, Change.Release.apply_eq_relieved, happend]
    exact hm'

theorem freed_waitingOn :
  (t.freed now ks).waitingOn = t.waitingOn.filter (fun k => k ∉ ks)
  := by
  obtain ⟨m, hm⟩ := exists_freed_eq now ks t
  rw [hm]
  rfl

theorem mem_waitingOn_freed {j : Key} :
  j ∈ (t.freed now ks).waitingOn ↔ j ∈ t.waitingOn ∧ j ∉ ks
  := by
  rw [freed_waitingOn, SortedSet.mem_filter, decide_eq_true_iff]

theorem freed_status_eq :
  (t.freed now ks).status = if t.isFreedBy ks then .queuedForProcessing else t.status
  := by
  obtain ⟨m, hm⟩ := exists_freed_eq now ks t
  rw [hm]
  rfl

/-- The status stays, or a release has put the tracker into the queue. -/
theorem freed_status (t : Tracker) (now : Instant) (ks : List Key) :
  (t.freed now ks).status = t.status ∨ (t.freed now ks).status = .queuedForProcessing
  := by
  rw [freed_status_eq]
  split
  · exact Or.inr rfl
  · exact Or.inl rfl

theorem freed_isLive :
  (t.freed now ks).isLive = t.isLive
  := by
  obtain ⟨m, hm⟩ := exists_freed_eq now ks t
  rw [hm]
  exact relieved_isLive

theorem isConsistent_freed (ht : t.isConsistent = true) :
  (t.freed now ks).isConsistent = true
  := by
  induction ks generalizing t with
  | nil => exact ht
  | cons k rest ih =>
    rw [freed, List.foldl_cons]
    apply ih
    apply (Board.trims_amend now (Change.Release.eases ⟨k⟩ t).toTrims).consistent ht

/-- What the first release frees is not freed again by the others. -/
theorem freed_once (now : Instant) (k j : Key) (ks : List Key) (o : Option Tracker) :
  (if o.any (isFreedBy [j]) then [k] else [])
      ++ (if (o.map (freed now [j])).any (isFreedBy ks) then [k] else [])
    = if o.any (isFreedBy (j :: ks)) then [k] else []
  := by
  cases o with
  | none => rfl
  | some t =>
    have hrest : (t.freed now [j]).isFreedBy ks = (t.relieved [j]).isFreedBy ks := by
      obtain ⟨m, hm⟩ := exists_freed_eq now [j] t
      rw [hm]
      rfl
    have happend : t.isFreedBy ([j] ++ ks) = (t.isFreedBy [j] ^^ (t.relieved [j]).isFreedBy ks) :=
      isFreedBy_append
    rw [List.singleton_append] at happend
    rw [Option.map_some, Option.any_some, Option.any_some, Option.any_some, hrest, happend]
    cases hfirst : t.isFreedBy [j] with
    | true => simp [isFreedBy_relieved hfirst]
    | false => simp

end Tracker

/-! ### Boards which free a key -/

namespace Board

variable {p : Partitioner} {σ : Type} [Store σ] [LawfulStore σ] {b b' b'' : Board p σ}
variable {now : Instant} {k : Key} {ks : List Key}

/-- The tracker of the key is freed of some keys, and nothing else changes in the grid. -/
structure Frees (now : Instant) (k : Key) (ks : List Key) (b b' : Board p σ) : Prop where
  filed : b'.grid.WellFiled
  works : LawfulStore.works b.store → LawfulStore.works b'.store
  itself : b'.grid.find? k = (b.grid.find? k).map (Tracker.freed now ks)
  others : ∀ j, j ≠ k → b'.grid.find? j = b.grid.find? j

theorem frees_nil (hb : b.grid.WellFiled) (now : Instant) (k : Key) :
  b.Frees now k [] b
  := by
  use hb, id
  · change _ = (b.grid.find? k).map id
    rw [Option.map_id_fun, id]
  · exact fun _ _ => rfl

theorem Frees.cons {j : Key} (h : b.Frees now k [j] b') (h' : b'.Frees now k ks b'') :
  b.Frees now k (j :: ks) b''
  := by
  use h'.filed, fun hb => h'.works (h.works hb)
  · rw [h'.itself, h.itself, Option.map_map]
    rfl
  · intro i hi
    rw [h'.others i hi, h.others i hi]

/-- Who is live stays live, and nobody comes to be. -/
theorem Frees.isLive (h : b.Frees now k ks b') (j : Key) :
  b'.grid.isLive j = b.grid.isLive j
  := by
  rw [Grid.isLive, Grid.isLive]
  by_cases hj : j = k
  · rw [hj, h.itself, Option.any_map]
    simp only [Tracker.freed_isLive]
  · rw [h.others j hj]

/-- A release frees the tracker of one key, and says whether it is free then. -/
theorem release_frees (hb : b.grid.WellFiled) (now : Instant) (k j : Key) :
  (adjust now k (Change.Release.apply ⟨j⟩)).Ends b
    (fun a b' => a = (b.grid.find? k).map (Tracker.isFreedBy [j]) ∧ b.Frees now k [j] b')
    (fun _ _ => ¬ LawfulStore.works b.store)
  := by
  have hkey := Change.Release.apply_key ⟨j⟩
  apply (adjust_ends b now k _).mono
  · rintro _ b' ⟨rfl, h⟩
    have hfind := find?_changedAt hkey hb h
    constructor
    · simp only [Change.Release.apply_eq_relieved]
    · constructor
      · rw [h.grid]
        apply hb.insertAll
      · exact h.works
      · rw [hfind, if_pos rfl]
        rfl
      · intro i hi
        rw [hfind, if_neg hi]
  · exact fun _ _ h => h.1

end Board

/-! ### Keys which are sent -/

/-- The stream after some more keys were sent, if somebody listens. -/
def ReadyStream.append (ks : List Key) (r : ReadyStream) : ReadyStream :=
  { r with sent := r.sent ++ if r.listening then ks else [] }

theorem ReadyStream.append_nil (r : ReadyStream) :
  r.append [] = r
  := by
  rw [append, ite_self, List.append_nil]

theorem ReadyStream.append_append (ks ks' : List Key) (r : ReadyStream) :
  (r.append ks).append ks' = r.append (ks ++ ks')
  := by
  cases hlistening : r.listening <;> simp [append, hlistening]

namespace Scheduler

variable {p : Partitioner} {σ : Type} {s : Scheduler p σ}

theorem send_ready (k : Key) (s : Scheduler p σ) :
  (send k s).ready = s.ready.append [k]
  := by
  rw [send, ReadyStream.append]
  split
  · rfl
  · rw [List.append_nil]

/-! ### Prerequisites which are gone -/

section Gone

variable {t : Tracker}

theorem goneFrom_ne_nil_iff :
  s.goneFrom t ≠ [] ↔ ∃ j ∈ t.waitingOn, s.grid.isLive j = false
  := by
  rw [ne_eq, List.eq_nil_iff_forall_not_mem]
  simp only [not_forall, not_not, mem_goneFrom]

/-- A tracker is freed of what is gone if it is blocked and none of its prerequisites is live. -/
theorem isFreedBy_goneFrom (ht : t.isConsistent = true) :
  t.isFreedBy (s.goneFrom t) = true
    ↔ t.status = .blocked ∧ ∀ j ∈ t.waitingOn, s.grid.isLive j = false
  := by
  rw [Tracker.isFreedBy_iff]
  constructor
  · rintro ⟨hblocked, -, hall⟩
    use hblocked
    exact fun j hj => (mem_goneFrom.mp (hall j hj)).2
  · rintro ⟨hblocked, hdead⟩
    refine ⟨hblocked, (Tracker.isConsistent_iff.mp ht).mp hblocked, ?_⟩
    exact fun j hj => mem_goneFrom.mpr ⟨hj, hdead j hj⟩

/-- What is left of a tracker freed of what is gone waits for what is live. -/
theorem freed_goneFrom_waitingOn (now : Instant) :
  (t.freed now (s.goneFrom t)).waitingOn = t.waitingOn.filter s.grid.isLive
  := by
  apply SortedSet.ext
  intro j
  rw [Tracker.mem_waitingOn_freed, mem_goneFrom, SortedSet.mem_filter]
  apply and_congr_right
  intro hj
  simp [hj]

/-- Of a tracker freed of what is gone, but for the status and the instant of the last change, only
the wait set is another. -/
theorem exists_freed_goneFrom_eq (now : Instant) :
  ∃ m, t.freed now (s.goneFrom t) = { t with
    waitingOn := t.waitingOn.filter s.grid.isLive
    status := (t.freed now (s.goneFrom t)).status
    lastModified := m }
  := by
  obtain ⟨m, hm⟩ := Tracker.exists_freed_eq now (s.goneFrom t) t
  use m
  rw [← freed_goneFrom_waitingOn now]
  rw [hm]
  rfl

/-- While the same chunks are live, a tracker freed of what is gone waits for nothing which is. -/
theorem goneFrom_freed {s' : Scheduler p σ} (hlive : ∀ j, s'.grid.isLive j = s.grid.isLive j)
    {now : Instant} :
  s'.goneFrom (t.freed now (s.goneFrom t)) = []
  := by
  apply goneFrom_eq_nil
  intro j hj
  rw [freed_goneFrom_waitingOn, SortedSet.mem_filter] at hj
  rw [hlive, hj.2]

end Gone

/-! ### Sequences of releases -/

variable [Store σ] [LawfulStore σ]

/-- Releases of one key, one after another, free its tracker and send nothing. -/
theorem forM_release_ends (hs : s.grid.WellFiled) (now : Instant) (k : Key) (gone : List Key) :
  (gone.forM (fun j => do
    let _ ← onBoard (Board.adjust now k (Change.Release.apply ⟨j⟩)))
      : Attempt (Scheduler p σ) PUnit).Ends s
    (fun _ s' => s'.ready = s.ready ∧ s.board.Frees now k gone s'.board)
    (fun _ _ => ¬ LawfulStore.works s.board.store)
  := by
  induction gone generalizing s with
  | nil => exact ⟨rfl, Board.frees_nil hs now k⟩
  | cons j rest ih =>
    apply (ends_bind _ _).mpr
    rw [ends_bind, ends_onBoard]
    apply (Board.release_frees hs now k j).mono
    · rintro _ b ⟨-, h⟩
      rw [ends_pure]
      apply (ih (s := { s with board := b }) h.filed).mono
      · rintro _ s' ⟨hready, h'⟩
        exact ⟨hready, h.cons h'⟩
      · exact fun _ _ hnot hworks => hnot (h.works hworks)
    · exact fun _ _ => id

theorem dropFrom_frees {t : Tracker} (hs : s.grid.WellFiled) (ht : s.grid.find? t.key = some t)
    (now : Instant) (gone : List Key) :
  (dropFrom now t gone).Ends s
    (fun t' s' => t' = t.freed now gone ∧ s'.ready = s.ready ∧
      s.board.Frees now t.key gone s'.board)
    (fun _ _ => ¬ LawfulStore.works s.board.store)
  := by
  rw [dropFrom]
  split
  · rename_i hempty
    obtain rfl := List.isEmpty_iff.mp hempty
    exact ⟨rfl, rfl, Board.frees_nil hs now t.key⟩
  · rw [ends_bind]
    apply (forM_release_ends hs now t.key gone).mono
    · rintro _ s' ⟨hready, h⟩
      have hfind : s'.grid.find? t.key = some (t.freed now gone) :=
        h.itself.trans (congrArg (Option.map _) ht)
      rw [ends_bind, ends_get, ends_pure, find?, hfind]
      exact ⟨rfl, hready, h⟩
    · exact fun _ _ => id

/-- A repair frees the tracker of a key, and sends the key once if it is free then. -/
theorem repair_frees (hs : s.grid.WellFiled) (now : Instant) (k : Key) (gone : List Key) :
  (repair now k gone).Ends s
    (fun _ s' => s.board.Frees now k gone s'.board ∧ s'.ready = s.ready.append
      (if (s.grid.find? k).any (Tracker.isFreedBy gone) then [k] else []))
    (fun _ _ => ¬ LawfulStore.works s.board.store)
  := by
  induction gone generalizing s with
  | nil =>
    have hnone : (s.grid.find? k).any (Tracker.isFreedBy []) = false := by
      cases s.grid.find? k with
      | none => rfl
      | some t =>
        apply Tracker.isFreedBy_of_forall_not_mem
        exact fun _ hj => absurd hj List.not_mem_nil
    use Board.frees_nil hs now k
    rw [hnone, if_neg Bool.false_ne_true, ReadyStream.append_nil]
  | cons j rest ih =>
    rw [repair_cons, ends_bind, ends_bind, ends_onBoard]
    apply (Board.release_frees hs now k j).mono
    · rintro _ b ⟨rfl, h⟩
      have hrest : ∀ s' : Scheduler p σ, s'.board = b →
          s'.ready = s.ready.append
            (if (s.grid.find? k).any (Tracker.isFreedBy [j]) then [k] else []) →
          (repair now k rest).Ends s'
            (fun _ s'' => s.board.Frees now k (j :: rest) s''.board ∧ s''.ready = s.ready.append
              (if (s.grid.find? k).any (Tracker.isFreedBy (j :: rest)) then [k] else []))
            (fun _ _ => ¬ LawfulStore.works s.board.store) := by
        rintro s' rfl hready
        apply (ih (s := s') h.filed).mono
        · rintro _ s'' ⟨h', hready'⟩
          have hitself : s'.grid.find? k = (s.grid.find? k).map (Tracker.freed now [j]) := h.itself
          use h.cons h'
          rw [hready', hready, ReadyStream.append_append, hitself, Tracker.freed_once]
        · exact fun _ _ hnot hworks => hnot (h.works hworks)
      have hreleased : (s.board.grid.find? k).map (Tracker.isFreedBy [j]) = some true
          ↔ (s.grid.find? k).any (Tracker.isFreedBy [j]) = true := by
        rw [Option.map_eq_some_iff, Option.any_eq_true]
        rfl
      simp only [hreleased]
      split
      · rename_i hany
        rw [ends_modify]
        apply hrest _ (send_board k _)
        rw [send_ready, if_pos hany]
      · rename_i hany
        apply hrest { s with board := b } rfl
        rw [if_neg hany, ReadyStream.append_nil]
    · exact fun _ _ => id

end Scheduler

end ChunkDispatch
