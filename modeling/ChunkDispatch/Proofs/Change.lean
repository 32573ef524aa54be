import ChunkDispatch.Change
import Mathlib.Order.Defs.Unbundled
import Mathlib.Tactic.Use

/-!
# What changes keep

A change *trims* a tracker if it keeps the lane and the hashes, adds nothing to the wait set and
leaves a consistent tracker consistent.  It *eases* the tracker if a live one stays live as well,
and is *steady* if the wait set stays the same and the tracker is live exactly if it was before.
-/

namespace ChunkDispatch

theorem SortedSet.isEmpty_eq_false_iff {α : Type} [LT α] {s : SortedSet α} :
  s.isEmpty = false ↔ ∃ a, a ∈ s
  := List.isEmpty_eq_false_iff_exists_mem

namespace Tracker

theorem isConsistent_iff {t : Tracker} :
  t.isConsistent = true ↔ (t.status = .blocked ↔ ∃ j, j ∈ t.waitingOn)
  := by
  rw [← SortedSet.isEmpty_eq_false_iff]
  rw [isConsistent]
  cases t.waitingOn.isEmpty <;> simp

/-- A blocked tracker is live. -/
theorem isLive_of_blocked {t : Tracker} (h : t.status = .blocked) :
  t.isLive = true
  := by
  rw [isLive, h]
  rfl

/-- The tracker `t'` is `t`, but may wait for fewer keys. -/
structure Trims (t t' : Tracker) : Prop where
  lane : t'.lane = t.lane
  hashes : t'.hashes = t.hashes
  within : ∀ j ∈ t'.waitingOn, j ∈ t.waitingOn
  consistent : t.isConsistent = true → t'.isConsistent = true

/-- The tracker `t'` is `t`, but may wait for fewer keys, and is live if `t` is. -/
structure Eases (t t' : Tracker) : Prop extends Trims t t' where
  live : t.isLive = true → t'.isLive = true

/-- The tracker `t'` waits for what `t` waits for and is live exactly if `t` is. -/
structure Steady (t t' : Tracker) : Prop where
  lane : t'.lane = t.lane
  hashes : t'.hashes = t.hashes
  waitingOn : t'.waitingOn = t.waitingOn
  consistent : t.isConsistent = true → t'.isConsistent = true
  isLive : t'.isLive = t.isLive

instance : Std.Refl Trims where
  refl _ := ⟨rfl, rfl, fun _ => id, id⟩

instance : IsTrans Tracker Trims where
  trans t u v h h' := by
    constructor
    · rw [h'.lane, h.lane]
    · rw [h'.hashes, h.hashes]
    · intro j hj
      apply h.within j (h'.within j hj)
    · intro ht
      apply h'.consistent (h.consistent ht)

instance : Std.Refl Eases where
  refl t := ⟨Std.Refl.refl t, id⟩

instance : IsTrans Tracker Eases where
  trans _ _ _ h h' :=
    ⟨IsTrans.trans _ _ _ h.toTrims h'.toTrims, fun ht => h'.live (h.live ht)⟩

instance : Std.Refl Steady where
  refl _ := ⟨rfl, rfl, rfl, id, rfl⟩

instance : IsTrans Tracker Steady where
  trans t u v h h' := by
    constructor
    · rw [h'.lane, h.lane]
    · rw [h'.hashes, h.hashes]
    · rw [h'.waitingOn, h.waitingOn]
    · intro ht
      apply h'.consistent (h.consistent ht)
    · rw [h'.isLive, h.isLive]

theorem Steady.eases {t t' : Tracker} (h : t.Steady t') :
  t.Eases t'
  := by
  constructor
  · constructor
    · apply h.lane
    · apply h.hashes
    · rw [h.waitingOn]
      exact fun _ => id
    · apply h.consistent
  · rw [h.isLive]
    apply id

end Tracker

namespace Change

open Tracker

/-! ### Release -/

@[simp]
theorem Release.apply_key (c : Release) (t : Tracker) :
  (c.apply t).2.key = t.key
  := by
  rw [Release.apply]
  simp only []
  repeat' split
  all_goals rfl

/-- The key alone is taken out of the wait set. -/
theorem Release.mem_waitingOn (c : Release) (t : Tracker) (j : Key) :
  j ∈ (c.apply t).2.waitingOn ↔ j ∈ t.waitingOn ∧ j ≠ c.key
  := by
  rw [Release.apply]
  simp only []
  split
  · split <;> apply SortedSet.mem_erase
  · rename_i hc
    constructor
    · intro hj
      use hj
      rintro rfl
      apply hc hj
    · apply And.left

/-- A tracker which does not wait for the key stays as it is. -/
theorem Release.apply_of_not_mem {c : Release} {t : Tracker} (h : c.key ∉ t.waitingOn) :
  (c.apply t).2 = t
  := by
  rw [Release.apply, if_neg h]

/-- A tracker is released into the queue from being blocked, and has its status otherwise. -/
theorem Release.apply_status (c : Release) (t : Tracker) :
  (c.apply t).1 = true ∧ t.status = .blocked ∧ (c.apply t).2.status = .queuedForProcessing ∨
    (c.apply t).1 = false ∧ (c.apply t).2.status = t.status
  := by
  rw [Release.apply]
  simp only []
  repeat' split
  · rename_i hlast
    exact Or.inl ⟨rfl, hlast.2, rfl⟩
  · exact Or.inr ⟨rfl, rfl⟩
  · exact Or.inr ⟨rfl, rfl⟩

/-- A tracker which stays as it is is not released. -/
theorem Release.not_released_of_eq {c : Release} {t : Tracker} (h : (c.apply t).2 = t) :
  (c.apply t).1 = false
  := by
  obtain ⟨-, hblocked, hqueued⟩ | ⟨hfalse, -⟩ := c.apply_status t
  · rw [h, hblocked] at hqueued
    cases hqueued
  · exact hfalse

theorem Release.apply_isLive (c : Release) (t : Tracker) :
  (c.apply t).2.isLive = t.isLive
  := by
  rw [Release.apply]
  simp only []
  repeat' split
  · rename_i hlast
    rw [isLive_of_blocked hlast.2]
    rfl
  · rfl
  · rfl

theorem Release.eases (c : Release) (t : Tracker) :
  t.Eases (c.apply t).2
  := by
  by_cases hc : c.key ∈ t.waitingOn
  · have hwithin : ∀ j ∈ (c.apply t).2.waitingOn, j ∈ t.waitingOn :=
      fun j hj => ((c.mem_waitingOn t j).mp hj).1
    rw [Release.apply] at hwithin ⊢
    rw [if_pos hc] at hwithin ⊢
    simp only [] at hwithin ⊢
    split at hwithin
    · rename_i hlast
      rw [if_pos hlast]
      refine ⟨⟨rfl, rfl, hwithin, ?_⟩, fun _ => rfl⟩
      intro _
      simp [isConsistent, hlast.1]
    · rename_i hlast
      rw [if_neg hlast]
      refine ⟨⟨rfl, rfl, hwithin, ?_⟩, id⟩
      intro ht
      have hblocked : t.status = .blocked := (isConsistent_iff.mp ht).mpr ⟨c.key, hc⟩
      have hrest : (t.waitingOn.erase c.key).isEmpty = false := by
        simpa [hblocked] using hlast
      simp [isConsistent, hblocked, hrest]
  · rw [Release.apply_of_not_mem hc]
    apply Std.Refl.refl

/-! ### Force -/

@[simp]
theorem Force.apply_key (c : Force) (t : Tracker) :
  (c.apply t).2.key = t.key
  := by
  rw [Force.apply]
  repeat' split
  all_goals rfl

/-- The tracker has the status, unless it is to be blocked and waits for nothing. -/
theorem Force.apply_status (c : Force) (t : Tracker) :
  c.apply t = (false, t) ∧ c.status = .blocked ∨
    (c.apply t).1 = decide (t.status ≠ c.status) ∧ (c.apply t).2.status = c.status
  := by
  rw [Force.apply]
  repeat' split
  · rename_i hc _
    exact Or.inl ⟨rfl, hc⟩
  · exact Or.inr ⟨rfl, rfl⟩
  · exact Or.inr ⟨rfl, rfl⟩

theorem Force.not_forced_of_eq {c : Force} {t : Tracker} (h : (c.apply t).2 = t) :
  (c.apply t).1 = false
  := by
  obtain ⟨hidle, -⟩ | ⟨hflag, hstatus⟩ := c.apply_status t
  · rw [hidle]
  · rw [h] at hstatus
    rw [hflag, hstatus]
    simp

theorem Force.trims (c : Force) (t : Tracker) :
  t.Trims (c.apply t).2
  := by
  rw [Force.apply]
  split
  · rename_i hc
    split
    · apply Std.Refl.refl
    · rename_i hempty
      refine ⟨rfl, rfl, fun _ => id, ?_⟩
      intro _
      simp [isConsistent, hc, hempty]
  · rename_i hc
    refine ⟨rfl, rfl, fun _ hj => absurd hj List.not_mem_nil, ?_⟩
    intro _
    simp [isConsistent, hc, SortedSet.isEmpty_iff]

theorem Force.eases {c : Force} (hc : c.status ≠ .completed) (t : Tracker) :
  t.Eases (c.apply t).2
  := by
  use c.trims t
  intro ht
  have hlive : c.status.isLive = true := by simpa [Status.isLive] using hc
  rw [Force.apply]
  repeat' split
  · apply ht
  · apply hlive
  · apply hlive

/-! ### Move -/

@[simp]
theorem Move.apply_key (c : Move) (t : Tracker) :
  (c.apply t).2.key = t.key
  := by
  rw [Move.apply]
  split <;> rfl

/-- The tracker goes from the one status to the other, or stays as it is. -/
theorem Move.apply_status (c : Move) (t : Tracker) :
  c.apply t = (false, t) ∧ (t.status = c.source → c.source = c.target) ∨
    (c.apply t).1 = true ∧ t.status = c.source ∧ c.source ≠ c.target ∧
      (c.apply t).2.status = c.target
  := by
  rw [Move.apply]
  split
  · rename_i ht
    refine Or.inl ⟨rfl, ?_⟩
    intro hstatus
    apply ht.resolve_left (not_not_intro hstatus)
  · rename_i ht
    obtain ⟨hstatus, hne⟩ : t.status = c.source ∧ c.source ≠ c.target := by simpa using ht
    exact Or.inr ⟨rfl, hstatus, hne, rfl⟩

theorem Move.not_moved_of_eq {c : Move} {t : Tracker} (h : (c.apply t).2 = t) :
  (c.apply t).1 = false
  := by
  obtain ⟨hidle, -⟩ | ⟨-, hsource, hne, htarget⟩ := c.apply_status t
  · rw [hidle]
  · rw [h, hsource] at htarget
    exact absurd htarget hne

/-- A move between two statuses which are not blocked. -/
theorem Move.trims {c : Move} (hc : c.source ≠ .blocked) (hc' : c.target ≠ .blocked)
    (t : Tracker) :
  t.Trims (c.apply t).2
  := by
  rw [Move.apply]
  split
  · apply Std.Refl.refl
  · rename_i ht
    obtain ⟨hsource, -⟩ : t.status = c.source ∧ c.source ≠ c.target := by simpa using ht
    refine ⟨rfl, rfl, fun _ => id, ?_⟩
    simp [isConsistent, hsource, hc, hc']

theorem Move.eases {c : Move} (hc : c.source ≠ .blocked) (hc' : c.target ≠ .blocked)
    (hlive : c.target ≠ .completed) (t : Tracker) :
  t.Eases (c.apply t).2
  := by
  use Move.trims hc hc' t
  intro ht
  have hlive : c.target.isLive = true := by simpa [Status.isLive] using hlive
  rw [Move.apply]
  split
  · apply ht
  · apply hlive

/-- A move between two live statuses which are not blocked. -/
theorem Move.steady {c : Move} (hc : c.source ≠ .blocked) (hc' : c.target ≠ .blocked)
    (hlive : c.source ≠ .completed) (hlive' : c.target ≠ .completed) (t : Tracker) :
  t.Steady (c.apply t).2
  := by
  have htrims := Move.trims hc hc' t
  have hsource : c.source.isLive = true := by simpa [Status.isLive] using hlive
  have htarget : c.target.isLive = true := by simpa [Status.isLive] using hlive'
  rw [Move.apply] at htrims ⊢
  split at htrims
  · rename_i ht
    rw [if_pos ht]
    apply Std.Refl.refl
  · rename_i ht
    rw [if_neg ht]
    refine ⟨rfl, rfl, rfl, htrims.consistent, ?_⟩
    obtain ⟨hstatus, -⟩ : t.status = c.source ∧ c.source ≠ c.target := by simpa using ht
    rw [Tracker.isLive, Tracker.isLive, hstatus, hsource, htarget]

/-! ### Raise and resend -/

@[simp]
theorem Raise.apply_key (c : Raise) (t : Tracker) :
  (c.apply t).2.key = t.key
  := by
  rw [Raise.apply]
  split <;> rfl

theorem Raise.apply_status (c : Raise) (t : Tracker) :
  (c.apply t).2.status = t.status
  := by
  rw [Raise.apply]
  split <;> rfl

theorem Raise.steady (c : Raise) (t : Tracker) :
  t.Steady (c.apply t).2
  := by
  rw [Raise.apply]
  split
  · apply Std.Refl.refl
  · exact ⟨rfl, rfl, rfl, id, rfl⟩

@[simp]
theorem Resend.apply_key (c : Resend) (t : Tracker) :
  (c.apply t).2.key = t.key
  := by
  rw [Resend.apply]
  split <;> rfl

/-- A tracker sent again is ready, and any other stays as it is. -/
theorem Resend.apply_status (c : Resend) (t : Tracker) :
  (c.apply t).2 = t ∨ t.status.resendTarget? = some (c.apply t).2.status
  := by
  rw [Resend.apply]
  split
  · rename_i h
    apply Or.inr h
  · apply Or.inl rfl

theorem Resend.steady (c : Resend) (t : Tracker) :
  t.Steady (c.apply t).2
  := by
  obtain ⟨key, sink, submitter, status, rest⟩ := t
  cases status <;> exact ⟨rfl, rfl, rfl, id, rfl⟩

@[simp]
theorem apply_key (c : Change) (t : Tracker) :
  (c.apply t).2.key = t.key
  := by
  cases c with
  | release c => apply c.apply_key
  | force c => apply c.apply_key
  | move c => apply c.apply_key
  | raise c => apply c.apply_key
  | resend c => apply c.apply_key

end Change

end ChunkDispatch
