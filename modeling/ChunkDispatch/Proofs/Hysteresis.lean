import ChunkDispatch.Proofs.Admission

/-!
# The submit mode over time

Each time the mode of a queue is updated there is a *reading*: how many chunks are ready for the
queue and in it, and what time it is.  The counts are whatever they have become meanwhile; the mode
changes only by readings.  Such a change is a *turn*.  The mark at which bulk is left lies below
the limit at which it is entered, and the way back takes a transition of some time, so a queue
whose length stays the same turns twice at most.
-/

namespace ChunkDispatch

namespace Queue

/-- What an update of the mode finds. -/
structure Reading where
  ready : Nat
  enqueued : Nat
  now : Instant

/-- The queue after a reading. -/
def read (max mark : Nat) (q : Queue) (r : Reading) : Queue :=
  ({ q with ready := r.ready, enqueued := r.enqueued }.updateMode max mark r.now).2

/-- The queue after readings. -/
def after (max mark : Nat) (q : Queue) (rs : List Reading) : Queue :=
  rs.foldl (read max mark) q

/-- The number of turns among readings. -/
def turns (max mark : Nat) (q : Queue) : List Reading → Nat
  | [] => 0
  | r :: rs =>
    (if (q.read max mark r).mode = q.mode then 0 else 1) + (q.read max mark r).turns max mark rs

/-- The queue keeps its mode at the readings, and is not full at any of them. -/
def Keeps (max mark : Nat) (q : Queue) (rs : List Reading) : Prop :=
  q.turns max mark rs = 0 ∧ ∀ r ∈ rs, r.enqueued < max

/--
The transition the queue is in after the readings has begun at `t`: one of them has turned the mode
to it then, or the queue was in it before them; and since then the mode was kept, and the queue was
not full.
-/
def TransitionSince (max mark : Nat) (q : Queue) (rs : List Reading) (t : Instant) : Prop :=
  (∃ first r between, rs = first ++ r :: between ∧ r.now = t ∧
    (q.after max mark first).mode ≠ .transitionToDirect ∧
    (q.after max mark (first ++ [r])).mode = .transitionToDirect ∧
    (q.after max mark (first ++ [r])).Keeps max mark between)
  ∨ (q.mode = .transitionToDirect ∧ q.modeChangedAt = t ∧ q.Keeps max mark rs)

variable {max mark : Nat} {q : Queue} {r : Reading}

/-! ### One reading -/

theorem after_append (rs rs' : List Reading) :
  q.after max mark (rs ++ rs') = (q.after max mark rs).after max mark rs'
  := by
  rw [after, List.foldl_append]
  rfl

theorem after_append_singleton (rs : List Reading) (r : Reading) :
  q.after max mark (rs ++ [r]) = (q.after max mark rs).read max mark r
  := by
  rw [after_append]
  rfl

theorem turns_append_singleton (q : Queue) (rs : List Reading) (r : Reading) :
  q.turns max mark (rs ++ [r]) = q.turns max mark rs
    + if ((q.after max mark rs).read max mark r).mode = (q.after max mark rs).mode then 0 else 1
  := by
  induction rs generalizing q with
  | nil =>
    rw [List.nil_append, turns, turns, Nat.add_comm]
    rfl
  | cons r' rest ih =>
    rw [List.cons_append, turns, turns, ih, Nat.add_assoc]
    rfl

@[simp]
theorem read_enqueued (q : Queue) (r : Reading) :
  (q.read max mark r).enqueued = r.enqueued
  := by
  rw [read, updateMode, setMode_enqueued]

/-- A queue which admits chunks at once after a reading was not full at it. -/
theorem enqueued_lt_of_read (hmark : mark < max)
    (hdirect : (q.read max mark r).admitsDirectly = true) :
  r.enqueued < max
  := by
  apply enqueued_lt hmark r.now hdirect

/-- The mode goes to direct only from a transition which is over. -/
theorem read_direct (hother : q.mode ≠ .direct) (hdirect : (q.read max mark r).mode = .direct) :
  q.mode = .transitionToDirect ∧ grace ≤ q.modeChangedAt.nanosUntil r.now
  := by
  rw [read, updateMode, setMode_mode, dueMode] at hdirect
  cases hmode : q.mode with
  | direct => exact absurd hmode hother
  | bulk =>
    simp only [hmode] at hdirect
    split at hdirect <;> cases hdirect
  | transitionToDirect =>
    use rfl
    simp only [hmode] at hdirect
    split at hdirect
    · cases hdirect
    · split at hdirect
      · assumption
      · cases hdirect

/-- The mode leaves bulk only when no more chunks are left than the mark says. -/
theorem read_of_bulk (hbulk : q.mode = .bulk) (hleft : (q.read max mark r).mode ≠ .bulk) :
  r.enqueued ≤ mark
  := by
  rw [read, updateMode, setMode_mode, dueMode] at hleft
  simp only [hbulk] at hleft
  split at hleft
  · assumption
  · exact absurd rfl hleft

/-- A mode which is kept is kept since the same time, and one which is new begins now. -/
theorem read_modeChangedAt (q : Queue) (r : Reading) :
  (q.read max mark r).modeChangedAt
    = if (q.read max mark r).mode = q.mode then q.modeChangedAt else r.now
  := by
  rw [read, updateMode, setMode_mode, setMode]
  simp only [eq_comm (b := q.mode)]
  split <;> rfl

/-! ### The transition -/

theorem keeps_nil (max mark : Nat) (q : Queue) :
  q.Keeps max mark []
  := ⟨rfl, fun _ hr => absurd hr List.not_mem_nil⟩

/-- The mode is kept at one reading more. -/
theorem Keeps.snoc {rs : List Reading} (h : q.Keeps max mark rs)
    (hmode : ((q.after max mark rs).read max mark r).mode = (q.after max mark rs).mode)
    (hlt : r.enqueued < max) :
  q.Keeps max mark (rs ++ [r])
  := by
  obtain ⟨hturns, hall⟩ := h
  constructor
  · rw [turns_append_singleton, hturns, if_pos hmode]
  · intro r' hr'
    obtain hr' | hr' := List.mem_append.mp hr'
    · apply hall r' hr'
    · rwa [List.mem_singleton.mp hr']

/-- Whenever a queue is in the transition, the transition has begun when the mode changed last. -/
theorem transitionSince (hmark : mark < max) (q : Queue) (rs : List Reading)
    (hmode : (q.after max mark rs).mode = .transitionToDirect) :
  q.TransitionSince max mark rs (q.after max mark rs).modeChangedAt
  := by
  induction rs using List.reverseRecOn with
  | nil => exact .inr ⟨hmode, rfl, keeps_nil max mark q⟩
  | append_singleton rs r ih =>
    rw [after_append_singleton] at hmode ⊢
    have hlt : r.enqueued < max := by
      apply enqueued_lt_of_read hmark
      rw [admitsDirectly, hmode]
      decide
    rw [read_modeChangedAt]
    split
    · rename_i hkept
      obtain ⟨first, r₀, between, rfl, hnow, hbefore, hturned, hbetween⟩ |
        ⟨hstart, hsince, hall⟩ := ih (hkept.symm.trans hmode)
      · refine .inl ⟨first, r₀, between ++ [r], ?_, hnow, hbefore, hturned, ?_⟩
        · rw [List.append_assoc, List.cons_append]
        · rw [List.append_cons, after_append] at hkept
          apply hbetween.snoc hkept hlt
      · exact .inr ⟨hstart, hsince, hall.snoc hkept hlt⟩
    · rename_i hturned
      rw [hmode] at hturned
      refine .inl ⟨rs, r, [], rfl, rfl, Ne.symm hturned, ?_, keeps_nil max mark _⟩
      rw [after_append_singleton, hmode]

/-! ### Turns -/

/-- How often the mode can turn while there are `n` chunks in the queue. -/
def turnsLeft (max mark n : Nat) : SubmitMode → Nat
  | .direct => if max ≤ n then 1 else 0
  | .bulk => if n ≤ mark then 2 else 0
  | .transitionToDirect => 1

/-- A turn takes one off the turns that are left. -/
theorem turn_le_turnsLeft (hmark : mark < max) (q : Queue) (r : Reading) :
  (if (q.read max mark r).mode = q.mode then 0 else 1)
      + turnsLeft max mark r.enqueued (q.read max mark r).mode
    ≤ turnsLeft max mark r.enqueued q.mode
  := by
  rw [read, updateMode, setMode_mode, dueMode]
  cases hmode : q.mode with
  | direct =>
    simp only []
    by_cases hfull : max ≤ r.enqueued
    · have hmany : ¬ r.enqueued ≤ mark := by omega
      simp [turnsLeft, hfull, hmany]
    · simp [turnsLeft, hfull]
  | bulk =>
    simp only []
    by_cases hfew : r.enqueued ≤ mark <;> simp [turnsLeft, hfew]
  | transitionToDirect =>
    simp only []
    by_cases hfull : max ≤ r.enqueued
    · have hmany : ¬ r.enqueued ≤ mark := by omega
      simp [turnsLeft, hfull, hmany]
    · rw [if_neg hfull]
      split <;> simp [turnsLeft, hfull]

theorem turns_le_turnsLeft (hmark : mark < max) {n : Nat} (q : Queue) {rs : List Reading}
    (hn : ∀ r ∈ rs, r.enqueued = n) :
  q.turns max mark rs ≤ turnsLeft max mark n q.mode
  := by
  induction rs generalizing q with
  | nil => apply Nat.zero_le
  | cons r rs ih =>
    have hturn := turn_le_turnsLeft hmark q r
    have hrest := ih (q.read max mark r) (fun r' hr' => hn r' (List.mem_cons_of_mem r hr'))
    rw [hn r List.mem_cons_self] at hturn
    rw [turns]
    omega

theorem turnsLeft_le_two (max mark n : Nat) (m : SubmitMode) :
  turnsLeft max mark n m ≤ 2
  := by
  cases m <;> rw [turnsLeft]
  · split <;> decide
  · split <;> decide
  · decide

/--
If the mark lies below the limit, then after any readings the mode goes to direct only when it has
been in the transition for the grace, and the queue was not full since; it leaves bulk only when no
more chunks are left than the mark says; a queue which admits chunks at once is not full; and as
long as the length of the queue stays the same its mode turns twice at most.
-/
theorem mode_has_hysteresis (hmark : mark < max) (q : Queue) (rs : List Reading) :
  (∀ r, (q.after max mark rs).mode ≠ .direct → (q.after max mark (rs ++ [r])).mode = .direct →
    ∃ t, q.TransitionSince max mark rs t ∧ grace ≤ t.nanosUntil r.now ∧ r.enqueued < max) ∧
  (∀ r, (q.after max mark rs).mode = .bulk → (q.after max mark (rs ++ [r])).mode ≠ .bulk →
    r.enqueued ≤ mark) ∧
  (∀ r, (q.after max mark (rs ++ [r])).admitsDirectly = true →
    (q.after max mark (rs ++ [r])).enqueued < max) ∧
  (∀ n same, (∀ r ∈ same, r.enqueued = n) → (q.after max mark rs).turns max mark same ≤ 2)
  := by
  refine ⟨?_, ?_, ?_, ?_⟩
  · intro r hother hdirect
    rw [after_append_singleton] at hdirect
    obtain ⟨hmode, hgrace⟩ := read_direct hother hdirect
    refine ⟨_, transitionSince hmark q rs hmode, hgrace, ?_⟩
    apply enqueued_lt_of_read hmark
    rw [admitsDirectly, hdirect]
    decide
  · intro r hbulk hleft
    rw [after_append_singleton] at hleft
    apply read_of_bulk hbulk hleft
  · intro r hdirect
    rw [after_append_singleton] at hdirect ⊢
    rw [read_enqueued]
    apply enqueued_lt_of_read hmark hdirect
  · intro n same hsame
    apply (turns_le_turnsLeft hmark _ hsame).trans
    apply turnsLeft_le_two

/-- A queue that was full gets emptied down to the mark, and three seconds later it is direct. -/
theorem mode_has_hysteresis_of_emptied :
  let q := Queue.fresh (.ofMicros 0)
  let full : Reading := ⟨3, 10, .ofMicros 0⟩
  let emptied : Reading := ⟨3, 2, .ofMicros 1000000⟩
  let later : Reading := ⟨0, 5, .ofMicros 4000000⟩
  let s := q.after 10 2 [full, emptied]
  let s' := q.after 10 2 [full, emptied, later]
  s.mode = .transitionToDirect ∧ s'.mode = .direct ∧ s'.admitsDirectly = true ∧
    (∃ t, q.TransitionSince 10 2 [full, emptied] t ∧ grace ≤ t.nanosUntil later.now ∧
      later.enqueued < 10) ∧
    emptied.enqueued ≤ 2 ∧ s'.enqueued < 10 ∧ s.turns 10 2 [later, later, later] ≤ 2
  := by
  intro q full emptied later s s'
  have hmark : 2 < 10 := by decide
  obtain ⟨-, hbulk, -, -⟩ := mode_has_hysteresis hmark q [full]
  obtain ⟨hdirect, -, hroom, hturns⟩ := mode_has_hysteresis hmark q [full, emptied]
  refine ⟨rfl, rfl, rfl, ?_, ?_, ?_, ?_⟩
  · apply hdirect later (by decide) (by decide)
  · apply hbulk emptied (by decide) (by decide)
  · apply hroom later (by decide)
  · apply hturns 5
    intro r hr
    rw [List.eq_of_mem_replicate (n := 3) hr]

end Queue

end ChunkDispatch
