import ChunkDispatch.Proofs.Adjustment
import ChunkDispatch.Scheduler.Override
import ChunkDispatch.Scheduler.Submission

/-!
# Operations which change trackers in place

An operation of the scheduler *commits only* what `P` permits if it changes the board by commits
alone, however it ends.  It fails where the store refuses an action, and otherwise only if `F`.
Operations put together from such operations commit only as well.  From a sound board commits which
relate the trackers of each key come to a sound board with the same keys, each with a tracker which
the one before is related to.
-/

namespace ChunkDispatch.Scheduler

open Attempt

variable {p : Partitioner} {σ : Type} {α β : Type}
variable {R : Tracker → Tracker → Prop} {P : Option Tracker → Option Tracker → Prop} {F : Prop}
variable {s s' : Scheduler p σ}

@[simp]
theorem send_board (k : Key) (s : Scheduler p σ) :
  (send k s).board = s.board
  := by
  rw [send]
  split <;> rfl

theorem send_grid (k : Key) (s : Scheduler p σ) :
  (send k s).grid = s.grid
  := congrArg Board.grid (send_board k s)

/-- Sending keys one after another sends all of them in their order, if somebody listens. -/
theorem foldl_send (ks : List Key) (s : Scheduler p σ) :
  ks.foldl (fun s k => s.send k) s
    = { s with ready.sent := s.ready.sent ++ if s.ready.listening then ks else [] }
  := by
  induction ks generalizing s with
  | nil => simp
  | cons k rest ih =>
    rw [List.foldl_cons, ih, send]
    cases hlistening : s.ready.listening <;> simp [hlistening]

theorem withBoard_grid (s : Scheduler p σ) (b : Board p σ) :
  { s with board := b }.grid = b.grid
  := rfl

theorem ends_onBoard (x : Attempt (Board p σ) α) {Q : α → Scheduler p σ → Prop}
    {E : Error → Scheduler p σ → Prop} :
  (onBoard x).Ends s Q E
    ↔ x.Ends s.board (fun a b => Q a { s with board := b }) (fun e b => E e { s with board := b })
  := ends_within _ _ _

variable [Store σ]

/-! ### Programs and their parts -/

/-- What comes after the move of a processed chunk: its sink is filled up if it moved. -/
def refill (now : Instant) (k : Key) (moved : Bool) : Attempt (Scheduler p σ) Bool := do
  if moved then
    match (← get).find? k with
    | none => return true
    | some t =>
      let _ ← modifyGet (updateMode now t.sink .processing)
      if 0 < ((← get).book.get now t.sink).processing.ready then
        let _ ← bulkSchedule now t.sink .processing
      return true
  else
    return false

theorem processingDone_eq (now : Instant) (k : Key) :
  (processingDone now k : Attempt (Scheduler p σ) Bool)
    = transition now k .queuedForProcessing .readyForDelivery >>= refill now k
  := rfl

theorem repair_cons (now : Instant) (k j : Key) (rest : List Key) :
  (repair now k (j :: rest) : Attempt (Scheduler p σ) Unit) = (do
    let released ← onBoard (Board.adjust now k (Change.Release.apply ⟨j⟩))
    if released = some true then
      modify (send k)) >>= fun _ => repair now k rest
  := rfl

section Parts

variable {T E : Scheduler p σ → Scheduler p σ → Prop} [Composes T E] (now : Instant)

theorem walks_transitionAll {source target : Status}
    (h : ∀ k, (transition now k source target).Walks T E) (ks : List Key) :
  (transitionAll now source target ks).Walks T E
  := by
  induction ks with
  | nil => apply walks_pure
  | cons k rest ih =>
    apply walks_bind (h k)
    intro _
    apply walks_bind ih
    exact fun _ => walks_pure _

theorem walks_bulkSchedule (sink : Int32) {phase : Phase}
    (h : ∀ k, (transition now k phase.ready phase.queued).Walks T E) :
  (bulkSchedule now sink phase).Walks T E
  := by
  apply walks_bind walks_get
  intro s
  apply walks_ite
  · exact fun _ => walks_pure _
  · exact fun _ => walks_transitionAll now h _

theorem walks_refill (k : Key) (moved : Bool)
    (hmode : ∀ sink, Walks T E
      (modifyGet (updateMode now sink .processing) : Attempt (Scheduler p σ) Bool))
    (h : ∀ k, (transition now k .readyForProcessing .queuedForProcessing).Walks T E) :
  (refill now k moved).Walks T E
  := by
  apply walks_ite
  · intro _
    apply walks_bind walks_get
    intro s
    split
    · apply walks_pure
    · apply walks_bind (hmode _)
      intro _
      apply walks_bind walks_get
      intro s'
      apply walks_ite
      · intro _
        apply walks_bind_pure (walks_bulkSchedule now _ h)
      · exact fun _ => walks_pure _
  · exact fun _ => walks_pure _

theorem walks_resetStatus {source target : Status} (jobs : List Int32)
    (hthrow : source = .blocked ∨ target = .blocked → ∀ s, E s s)
    (h : ∀ k, (setStatus now k target).Walks T E) :
  (resetStatus now source target jobs).Walks T E
  := by
  rw [resetStatus]
  apply walks_ite
  · intro hstatus
    apply walks_throw (hthrow hstatus)
  · intro _
    apply walks_bind walks_get
    intro s
    apply walks_bind_pure
    apply walks_forM
    intro k _
    apply walks_bind (h k)
    exact fun _ => walks_pure _

theorem walks_boostFrom {change : Change.Raise}
    (h : ∀ ks, (onBoard (Board.adjustKeys now ks change.apply)).Walks T E) (rounds : Nat)
    (visited : SortedSet Key) (pending : List Key) (raised : Nat) :
  (boostFrom now change rounds visited pending raised).Walks T E
  := by
  induction rounds generalizing visited pending raised with
  | zero => apply walks_pure
  | succ rounds ih =>
    rw [boostFrom]
    apply walks_ite
    · exact fun _ => walks_pure _
    · intro _
      apply walks_bind (h pending)
      exact fun outcomes => ih _ _ _

theorem walks_boost (ks : List Key) {priority : Int32}
    (h : ∀ ks, (onBoard (Board.adjustKeys now ks (Change.Raise.apply ⟨priority⟩))).Walks T E) :
  (boost now ks priority).Walks T E
  := by
  apply walks_bind walks_get
  exact fun s => walks_boostFrom now h _ _ _ _

theorem walks_recheck (h : ∀ k gone, (repair now k gone).Walks T E) :
  (recheck now).Walks T E
  := by
  apply walks_bind walks_get
  intro s
  apply walks_bind_pure
  apply walks_forM
  exact fun found _ => h found.1 found.2

end Parts

variable [LawfulStore σ]

/-- The board of `s'` is sound, and its trackers are those of `s` changed in place. -/
def Becomes (R : Tracker → Tracker → Prop) (s s' : Scheduler p σ) : Prop :=
  s'.board.Sound ∧ s.grid.Each R s'.grid

/-- Soundness is a matter of the store and the grid alone. -/
theorem sound_of_eq (hs : s.board.Sound) (hstore : s'.board.store = s.board.store)
    (hgrid : s'.board.grid = s.board.grid) :
  s'.board.Sound
  := by
  constructor
  · rw [hstore]
    apply hs.works
  · rw [hgrid]
    apply hs.filed
  · rw [hstore, hgrid]
    apply hs.coherent

/-! ### Operations which commit only -/

/--
The attempt changes the board by commits alone, however it ends; unless the store refuses an action
it fails only if `F`.
-/
def CommitsOnly (P : Option Tracker → Option Tracker → Prop) (F : Prop)
    (x : Attempt (Scheduler p σ) α) : Prop :=
  x.Walks (fun s s' => s.grid.WellFiled → s.board.Commits P s'.board)
    (fun s s' => s.grid.WellFiled → s.board.Commits P s'.board ∧
      (LawfulStore.works s.board.store → F))

instance : Composes (fun s s' : Scheduler p σ => s.grid.WellFiled → s.board.Commits P s'.board)
    (fun s s' => s.grid.WellFiled → s.board.Commits P s'.board ∧
      (LawfulStore.works s.board.store → F)) where
  refl _ _ := Relation.ReflTransGen.refl
  trans h h' hs := (h hs).trans (h' ((h hs).filed hs))
  last h h' hs := by
    obtain ⟨hcommits, hF⟩ := h' ((h hs).filed hs)
    use (h hs).trans hcommits
    intro hworks
    apply hF ((h hs).works hworks)

theorem CommitsOnly.mono {P P' : Option Tracker → Option Tracker → Prop}
    {x : Attempt (Scheduler p σ) α} (hx : CommitsOnly P F x)
    (hP : ∀ old new, P old new → P' old new) :
  CommitsOnly P' F x
  := by
  intro s
  apply (hx s).mono
  · exact fun _ _ h hs => (h hs).mono hP
  · exact fun _ _ h hs => ⟨(h hs).1.mono hP, (h hs).2⟩

/-- A sound board stays sound, and its trackers are changed in place as the commits permit. -/
theorem CommitsOnly.becomes [Std.Refl R] [IsTrans Tracker R] {x : Attempt (Scheduler p σ) α}
    (hx : CommitsOnly (Option.Rel R) F x) (hs : s.board.Sound) :
  x.Ends s (fun _ => s.Becomes R) (fun _ s' => F ∧ s.Becomes R s')
  := by
  have hbecomes : ∀ {s' : Scheduler p σ}, s.board.Commits (Option.Rel R) s'.board →
      s.Becomes R s' :=
    fun h => ⟨hs.commits h, h.rel⟩
  apply (hx s).mono
  · intro _ s' h
    apply hbecomes (h hs.filed)
  · intro _ s' h
    obtain ⟨hcommits, hF⟩ := h hs.filed
    exact ⟨hF hs.works, hbecomes hcommits⟩

theorem commitsOnly_onBoard {x : Attempt (Board p σ) α} (hx : Board.CommitsOnly P x) :
  CommitsOnly P F (onBoard x : Attempt (Scheduler p σ) α)
  := by
  apply walks_within hx
  · exact fun _ _ => id
  · intro s b h hs
    obtain ⟨hcommits, hnot⟩ := h hs
    exact ⟨hcommits, fun hworks => absurd hworks hnot⟩

/-- Nothing comes after an error. -/
theorem commitsOnly_throw (hF : F) (e : Error) (f : α → Attempt (Scheduler p σ) β) :
  CommitsOnly P F (throw e >>= f)
  := walks_throw (fun _ _ => ⟨Relation.ReflTransGen.refl, fun _ => hF⟩) e f

theorem commitsOnly_send (k : Key) :
  CommitsOnly P F (modify (send k) : Attempt (Scheduler p σ) PUnit)
  := by
  apply walks_modify
  intro s _
  rw [send_board]
  apply Relation.ReflTransGen.refl

theorem commitsOnly_updateMode (now : Instant) (sink : Int32) (phase : Phase) :
  CommitsOnly P F (modifyGet (updateMode now sink phase) : Attempt (Scheduler p σ) Bool)
  := walks_modifyGet (fun _ _ => Relation.ReflTransGen.single (.book ⟨_, rfl⟩))

theorem commitsOnly_recount (now : Instant) (sinks : SortedSet Int32) :
  CommitsOnly P F (modify (recount now sinks) : Attempt (Scheduler p σ) PUnit)
  := walks_modify (fun _ _ => Relation.ReflTransGen.single (.book ⟨_, rfl⟩))

variable (now : Instant)

theorem commitsOnly_adjust (k : Key) {f : Tracker → α × Tracker}
    (hf : ∀ t, (f t).2.key = t.key)
    (hP : ∀ t, t.key = k → P (some t) (some (Board.amend now f t))) :
  CommitsOnly P F (onBoard (Board.adjust now k f) : Attempt (Scheduler p σ) (Option α))
  := commitsOnly_onBoard (Board.commitsOnly_adjust now k hf hP)

/-! ### Submission -/

/-- A move between statuses; it is refused if one of them is blocked. -/
theorem commitsOnly_transition {source target : Status} (k : Key)
    (hF : source = .blocked ∨ target = .blocked → F) (hP : source ≠ .blocked → target ≠ .blocked →
      ∀ t, P (some t) (some (Board.amend now (Change.Move.apply ⟨source, target⟩) t))) :
  CommitsOnly P F (transition now k source target : Attempt (Scheduler p σ) Bool)
  := by
  rw [transition]
  apply walks_ite
  · intro hstatus
    apply commitsOnly_throw (hF hstatus)
  · intro hstatus
    rw [not_or] at hstatus
    apply walks_bind
    · apply commitsOnly_adjust now k (Change.Move.apply_key _)
      exact fun t _ => hP hstatus.1 hstatus.2 t
    · intro moved
      apply walks_ite
      · intro _
        apply walks_ite
        · intro _
          apply walks_bind_pure (commitsOnly_send k)
        · exact fun _ => walks_pure _
      · exact fun _ => walks_pure _

/-- Ready chunks get into the queue of their phase. -/
theorem commitsOnly_bulkSchedule (sink : Int32) {phase : Phase}
    (hP : ∀ t, P (some t)
      (some (Board.amend now (Change.Move.apply ⟨phase.ready, phase.queued⟩) t))) :
  CommitsOnly P F (bulkSchedule now sink phase : Attempt (Scheduler p σ) (List Key))
  := by
  apply walks_bulkSchedule
  intro k
  apply commitsOnly_transition
  · intro hstatus
    cases phase <;> simp [Phase.ready, Phase.queued] at hstatus
  · exact fun _ _ => hP

theorem commitsOnly_refill (k : Key) (moved : Bool)
    (hP : ∀ t, P (some t)
      (some (Board.amend now (Change.Move.apply ⟨.readyForProcessing, .queuedForProcessing⟩) t))) :
  CommitsOnly P F (refill now k moved : Attempt (Scheduler p σ) Bool)
  := by
  apply walks_refill
  · exact fun sink => commitsOnly_updateMode now sink .processing
  · intro k'
    apply commitsOnly_transition
    · intro hstatus
      cases hstatus <;> contradiction
    · exact fun _ _ => hP

theorem commitsOnly_processingDone (k : Key)
    (hdone : ∀ t, P (some t)
      (some (Board.amend now (Change.Move.apply ⟨.queuedForProcessing, .readyForDelivery⟩) t)))
    (hnext : ∀ t, P (some t)
      (some (Board.amend now (Change.Move.apply ⟨.readyForProcessing, .queuedForProcessing⟩) t))) :
  CommitsOnly P F (processingDone now k : Attempt (Scheduler p σ) Bool)
  := by
  rw [processingDone_eq]
  apply walks_bind
  · apply commitsOnly_transition
    · intro hstatus
      cases hstatus <;> contradiction
    · exact fun _ _ => hdone
  · exact fun moved => commitsOnly_refill now k moved hnext

/-! ### Overrides -/

theorem commitsOnly_setStatus (k : Key) {status : Status}
    (hP : ∀ t, P (some t) (some (Board.amend now (Change.Force.apply ⟨status⟩) t))) :
  CommitsOnly P F (setStatus now k status : Attempt (Scheduler p σ) Bool)
  := by
  apply walks_bind
  · apply commitsOnly_adjust now k (Change.Force.apply_key _)
    exact fun t _ => hP t
  · intro changed
    apply walks_ite
    · intro _
      apply walks_ite
      · intro _
        apply walks_bind_pure (commitsOnly_send k)
      · exact fun _ => walks_pure _
    · exact fun _ => walks_pure _

theorem commitsOnly_resetStatus {source target : Status} (jobs : List Int32)
    (hF : source = .blocked ∨ target = .blocked → F)
    (hP : ∀ t, P (some t) (some (Board.amend now (Change.Force.apply ⟨target⟩) t))) :
  CommitsOnly P F (resetStatus now source target jobs : Attempt (Scheduler p σ) Nat)
  := by
  apply walks_resetStatus
  · intro hstatus s _
    exact ⟨Relation.ReflTransGen.refl, fun _ => hF hstatus⟩
  · exact fun k => commitsOnly_setStatus now k hP

theorem commitsOnly_resend (k : Key)
    (hP : ∀ t, P (some t) (some (Board.amend now (Change.Resend.apply ⟨⟩) t))) :
  CommitsOnly P F (resend now k : Attempt (Scheduler p σ) (Option Int32))
  := commitsOnly_adjust now k (Change.Resend.apply_key _) (fun t _ => hP t)

theorem commitsOnly_boost (ks : List Key) {priority : Int32}
    (hP : ∀ t, P (some t) (some (Board.amend now (Change.Raise.apply ⟨priority⟩) t))) :
  CommitsOnly P F (boost now ks priority : Attempt (Scheduler p σ) Nat)
  := by
  apply walks_boost
  intro ks'
  apply commitsOnly_onBoard
  apply Board.commitsOnly_adjustWhere now (Change.Raise.apply_key _)
  exact fun t _ => hP t

theorem commitsOnly_repair (k : Key) (gone : List Key)
    (hP : ∀ j t, P (some t) (some (Board.amend now (Change.Release.apply ⟨j⟩) t))) :
  CommitsOnly P F (repair now k gone : Attempt (Scheduler p σ) Unit)
  := by
  apply walks_forM
  intro prerequisite _
  apply walks_bind
  · apply commitsOnly_adjust now k (Change.Release.apply_key _)
    exact fun t _ => hP prerequisite t
  intro released
  apply walks_ite
  · exact fun _ => commitsOnly_send k
  · exact fun _ => walks_pure _

theorem commitsOnly_recheck
    (hP : ∀ j t, P (some t) (some (Board.amend now (Change.Release.apply ⟨j⟩) t))) :
  CommitsOnly P F (recheck now : Attempt (Scheduler p σ) (SortedSet Key))
  := by
  apply walks_recheck
  exact fun k gone => commitsOnly_repair now k gone hP

/-! ### Loading -/

/-- A sound board shows the same trackers once they are loaded. -/
theorem load_yields [Std.Refl R] (hs : s.board.Sound) :
  (load now).Yields s (fun _ => s.Becomes R)
  := by
  rw [load, Yields, ends_bind, ends_onBoard]
  apply (Board.loadAll_yields hs).ends
  rintro n b ⟨hb, hfind⟩
  rw [ends_bind, ends_modify, ends_pure]
  constructor
  · apply sound_of_eq (s := { s with board := b }) hb
    · rfl
    · rfl
  · apply Grid.Each.of_eq hfind

end ChunkDispatch.Scheduler
