import ChunkDispatch.Proofs.Completion
import ChunkDispatch.Proofs.Entry
import ChunkDispatch.Proofs.Registration

/-!
# Sending what enters the queue

A scheduler is *attended* while somebody listens to its ready stream.  An attempt *tells* what it
does if the keys it sends are those of which its events say that they enter the queue for
processing.  Each step which may bring a chunk into the queue is followed by the sending of the
chunk if it did; so all operations tell what they do which are put together from such steps and from
others by which nobody enters.
-/

namespace ChunkDispatch

open Attempt

variable {p : Partitioner} {σ : Type} {α β : Type}

namespace Scheduler

variable {s s' s'' : Scheduler p σ} {ks : List Key}

/-- The grid is well filed, and somebody listens to the ready stream. -/
structure Attended (s : Scheduler p σ) : Prop where
  filed : s.grid.WellFiled
  listening : s.ready.listening = true

variable [Store σ] [LawfulStore σ]

/-- Commits lead to `s'`, and the keys sent are those of which events say that they entered. -/
structure Tells (s s' : Scheduler p σ) : Prop where
  commits : s.board.Commits (fun _ _ => True) s'.board
  listening : s'.ready.listening = s.ready.listening
  told : ∃ ks es, s'.ready.sent = s.ready.sent ++ ks ∧ s'.board.log = s.board.log ++ es ∧
    ks.Perm (Event.entered es)

theorem Tells.refl (s : Scheduler p σ) :
  s.Tells s
  := ⟨.refl, rfl, [], [], (List.append_nil _).symm, (List.append_nil _).symm, .refl _⟩

theorem Tells.trans (h : s.Tells s') (h' : s'.Tells s'') :
  s.Tells s''
  := by
  obtain ⟨ks, es, hsent, hlog, hperm⟩ := h.told
  obtain ⟨ks', es', hsent', hlog', hperm'⟩ := h'.told
  constructor
  · apply h.commits.trans h'.commits
  · rw [h'.listening, h.listening]
  · refine ⟨ks ++ ks', es ++ es', ?_, ?_, ?_⟩
    · rw [hsent', hsent, List.append_assoc]
    · rw [hlog', hlog, List.append_assoc]
    · rw [Event.entered_append]
      apply hperm.append hperm'

theorem Tells.attended (h : s.Tells s') (hs : s.Attended) :
  s'.Attended
  := by
  constructor
  · apply h.commits.filed hs.filed
  · rw [h.listening, hs.listening]

/-- Who enters is sent after commits which the log records. -/
theorem tells_send (s₁ : Scheduler p σ) (hs : s.Attended) (hready : s₁.ready = s.ready)
    (hcommits : s.board.Commits (fun _ _ => True) s₁.board) (hrecords : s.board.Records s₁.board)
    (hks : s.grid.Entered s₁.grid ks) :
  s.Tells (ks.foldl (fun s k => s.send k) s₁)
  := by
  obtain ⟨es, hlog, hentered⟩ := hrecords
  rw [foldl_send]
  use hcommits
  · rw [hready]
  · use ks, es
    rw [hready, if_pos hs.listening]
    exact ⟨rfl, hlog, hks.perm hentered⟩

/-- The one chunk which may enter is sent if it does. -/
theorem tells_send_if (s₁ : Scheduler p σ) (hs : s.Attended) (hready : s₁.ready = s.ready)
    (hcommits : s.board.Commits (fun _ _ => True) s₁.board) (hrecords : s.board.Records s₁.board)
    {k : Key} {c : Prop} [Decidable c]
    (hother : ∀ j, j ≠ k → enters (s.grid.find? j) (s₁.grid.find? j) = false)
    (hk : enters (s.grid.find? k) (s₁.grid.find? k) = true ↔ c) :
  s.Tells (if c then send k s₁ else s₁)
  := by
  have h := tells_send s₁ hs hready hcommits hrecords (Grid.entered_at hother hk)
  split at h
  · rename_i hc
    rw [if_pos hc]
    exact h
  · rename_i hc
    rw [if_neg hc]
    exact h

/-! ### Operations which tell what they do -/

/-- The attempt tells what it does when somebody listens, unless the store refuses an action. -/
def Telling (x : Attempt (Scheduler p σ) α) : Prop :=
  x.Walks (fun s s' => s.Attended → s.Tells s')
    (fun s s' => s.Attended → LawfulStore.works s.board.store → s.Tells s')

instance : Composes (fun s s' : Scheduler p σ => s.Attended → s.Tells s')
    (fun s s' => s.Attended → LawfulStore.works s.board.store → s.Tells s') where
  refl s _ := .refl s
  trans h h' hs := (h hs).trans (h' ((h hs).attended hs))
  last h h' hs hworks :=
    (h hs).trans (h' ((h hs).attended hs) ((h hs).commits.works hworks))

/-- Nothing is to be told where nobody enters. -/
theorem telling_onBoard {x : Attempt (Board p σ) α} (hx : Board.CommitsOnly Avoids x) :
  Telling (onBoard x : Attempt (Scheduler p σ) α)
  := by
  apply walks_within hx
  · intro s b h hs
    obtain ⟨es, hlog, hnone⟩ := (h hs.filed).entered_of_avoids
    use (h hs.filed).mono (fun _ _ _ => trivial), rfl, [], es
    rw [hnone]
    exact ⟨(List.append_nil _).symm, hlog, .refl _⟩
  · intro s b h hs hworks
    exact absurd hworks (h hs.filed).2

/-- The book is not told of. -/
theorem tells_book (hboard : ∃ book, s'.board = { s.board with book := book })
    (hready : s'.ready = s.ready) :
  s.Tells s'
  := by
  obtain ⟨book, hboard⟩ := hboard
  use .single (.book ⟨book, hboard⟩)
  · rw [hready]
  · use [], []
    rw [hready, hboard]
    exact ⟨(List.append_nil _).symm, (List.append_nil _).symm, .refl _⟩

variable (now : Instant)

theorem telling_updateMode (sink : Int32) (phase : Phase) :
  Telling (modifyGet (updateMode now sink phase) : Attempt (Scheduler p σ) Bool)
  := walks_modifyGet (fun _ _ => tells_book ⟨_, rfl⟩ rfl)

/--
A chunk is adjusted, and sent if the result is as `sends` says, which is when the chunk enters the
queue.
-/
theorem telling_adjust (k : Key) {f : Tracker → α × Tracker} (sends : Option α → Prop)
    [DecidablePred sends] {rest : Option α → Attempt (Scheduler p σ) β}
    (hf : ∀ t, (f t).2.key = t.key) (hnone : ¬ sends none)
    (hsends : ∀ t, enters (some t) (some (Board.amend now f t)) = true ↔ sends (some (f t).1))
    (hrest : ∀ a s, (rest a).Yields s (fun _ s' => s' = if sends a then send k s else s)) :
  Telling (onBoard (Board.adjust now k f) >>= rest)
  := by
  intro s
  rw [ends_bind, ends_onBoard]
  apply (Board.adjust_ends s.board now k f).mono
  · rintro a b ⟨rfl, h⟩
    apply (hrest _ { s with board := b }).ends
    rintro _ s' rfl hs
    have hcommit : s.board.Commit (fun _ _ => True) b :=
      .put h (Board.nodup_changedAt now f s.grid k) (fun _ _ => trivial)
    have hfind := Board.find?_changedAt hf hs.filed h
    apply tells_send_if { s with board := b } hs rfl (.single hcommit) hcommit.records
    · intro j hj
      rw [withBoard_grid s b, hfind, if_neg hj]
      apply enters_self
    · rw [withBoard_grid s b, hfind, if_pos rfl]
      change enters (s.board.grid.find? k) _ = true ↔ _
      cases s.board.grid.find? k with
      | none => exact iff_of_false (Bool.eq_false_iff.mp (enters_self none)) hnone
      | some t => apply hsends
  · intro _ b h _ hworks
    exact absurd hworks h.1

/-! ### Submission -/

theorem telling_transition (k : Key) (source target : Status) :
  Telling (transition now k source target : Attempt (Scheduler p σ) Bool)
  := by
  rw [transition]
  apply walks_ite
  · intro _
    apply walks_throw
    exact fun s _ _ => .refl s
  · intro _
    apply telling_adjust now k (fun moved => moved = some true ∧ target = .queuedForProcessing)
      (Change.Move.apply_key _)
    · simp
    · intro t
      simpa using enters_move now source target t
    · intro moved s
      by_cases hmoved : moved = some true <;> by_cases htarget : target = .queuedForProcessing <;>
        simp [Yields, hmoved, htarget, -bind_pure_comp]

theorem telling_bulkSchedule (sink : Int32) (phase : Phase) :
  Telling (bulkSchedule now sink phase : Attempt (Scheduler p σ) (List Key))
  := walks_bulkSchedule now sink (fun k => telling_transition now k phase.ready phase.queued)

theorem telling_processingDone (k : Key) :
  Telling (processingDone now k : Attempt (Scheduler p σ) Bool)
  := by
  rw [processingDone_eq]
  apply walks_bind (telling_transition now k _ _)
  intro moved
  apply walks_refill
  · exact fun sink => telling_updateMode now sink .processing
  · exact fun k => telling_transition now k _ _

/-! ### Overrides -/

theorem telling_setStatus (k : Key) (status : Status) :
  Telling (setStatus now k status : Attempt (Scheduler p σ) Bool)
  := by
  apply telling_adjust now k (fun changed => changed = some true ∧ status = .queuedForProcessing)
    (Change.Force.apply_key _)
  · simp
  · intro t
    simpa using enters_force now status t
  · intro changed s
    by_cases hchanged : changed = some true <;>
      by_cases hstatus : status = .queuedForProcessing <;>
        simp [Yields, hchanged, hstatus, -bind_pure_comp]

theorem telling_resetStatus (source target : Status) (jobs : List Int32) :
  Telling (resetStatus now source target jobs : Attempt (Scheduler p σ) Nat)
  := by
  apply walks_resetStatus
  · exact fun _ s _ _ => .refl s
  · exact fun k => telling_setStatus now k target

theorem telling_boost (ks : List Key) (priority : Int32) :
  Telling (boost now ks priority : Attempt (Scheduler p σ) Nat)
  := by
  apply walks_boost
  intro ks'
  apply telling_onBoard
  apply Board.commitsOnly_adjustWhere now (Change.Raise.apply_key _)
  intro t _
  rw [Avoids, isQueued_raise]
  exact id

theorem telling_repair (k : Key) (gone : List Key) :
  Telling (repair now k gone : Attempt (Scheduler p σ) Unit)
  := by
  apply walks_forM
  intro j _
  apply telling_adjust now k (fun released => released = some true) (Change.Release.apply_key _)
  · simp
  · intro t
    simpa using enters_release now j t
  · intro released s
    by_cases hreleased : released = some true <;> simp [Yields, hreleased]

/-! ### Completion -/

theorem telling_retire (k : Key) :
  Telling (retire now k : Attempt (Scheduler p σ) (Option Int32))
  := by
  apply walks_bind walks_get
  intro s
  split
  · apply walks_bind_pure
    apply telling_onBoard
    apply Board.commitsOnly_remove
    exact avoids_none
  · apply walks_bind_pure
    apply telling_onBoard
    apply Board.commitsOnly_adjust now k (Change.Force.apply_key _)
    intro t _
    apply Leaves.avoids (fun _ => id)
    apply leaves_force
    apply isQueued_of_status
    decide

/-- Whom the release from a key lets enter the queue. -/
theorem enters_releaseFrom (k : Key) (sink : Option Int32) (found : Option Tracker) :
  enters found (found.map (releaseFrom now k sink)) = true
    ↔ ∃ t, found = some t ∧ Query.WaitingFor.holds ⟨sink, k⟩ t = true ∧
      (Change.Release.apply ⟨k⟩ t).1 = true
  := by
  cases found with
  | none => simp [enters_none]
  | some t =>
    rw [Option.map_some, releaseFrom]
    split
    · rename_i hq
      simp [enters_release, hq]
    · rename_i hq
      simp [enters_self, hq]

theorem telling_releaseDependents (k : Key) (sink : Option Int32) :
  Telling (releaseDependents now k sink : Attempt (Scheduler p σ) (SortedSet Key))
  := by
  intro s
  apply ends_imp
  intro hs
  have hcommits := commitsOnly_removeFromWaitingOn (p := p) (σ := σ) (F := True) now k sink
    (stays_release now k) s
  rw [releaseDependents, ends_bind]
  apply ((removeFromWaitingOn_ends hs.filed now k sink).and hcommits).mono
  · rintro released s₁ ⟨⟨hready, -, hreleased, hfind⟩, hcommits⟩
    have hstays := hcommits hs.filed
    rw [ends_bind, ends_modify, ends_pure]
    apply tells_send s₁ hs hready (hstays.mono (fun _ _ _ => trivial)) hstays.records
    constructor
    · apply released.nodup_toList
    · intro j
      rw [← SortedSet.mem_iff, hreleased, hfind, enters_releaseFrom]
  · intro _ _ h hworks
    exact absurd hworks h.1

theorem telling_complete (k : Key) :
  Telling (complete now k : Attempt (Scheduler p σ) (SortedSet Key))
  := by
  rw [complete_eq]
  apply walks_bind (telling_retire now k)
  exact fun sink => telling_releaseDependents now k sink

/-! ### Registration -/

/-- At most the tracker of `k` is another, with the same status or queued after being blocked. -/
def Unblocks (k : Key) (old new : Option Tracker) : Prop :=
  new = old ∨ ∃ t t', old = some t ∧ new = some t' ∧ t'.key = k ∧
    (t'.status = t.status ∨ t.status = .blocked ∧ t'.status = .queuedForProcessing)

instance (k : Key) : Std.Refl (Unblocks k) where
  refl _ := Or.inl rfl

instance (k : Key) : IsTrans (Option Tracker) (Unblocks k) where
  trans := by
    rintro _ _ _ (rfl | ⟨t, u, rfl, rfl, hkey, hstatus⟩) (rfl | ⟨u', v, heq, rfl, hkey', hstatus'⟩)
    · exact Or.inl rfl
    · exact Or.inr ⟨u', v, heq, rfl, hkey', hstatus'⟩
    · exact Or.inr ⟨t, u, rfl, rfl, hkey, hstatus⟩
    · obtain rfl := Option.some.inj heq
      refine Or.inr ⟨t, v, rfl, rfl, hkey', ?_⟩
      obtain hsame' | ⟨hblocked', hqueued'⟩ := hstatus'
      · rw [hsame']
        exact hstatus
      · obtain hsame | ⟨-, hqueued⟩ := hstatus
        · exact Or.inr ⟨hsame ▸ hblocked', hqueued'⟩
        · cases hqueued.symm.trans hblocked'

/-- Under another key nothing changes. -/
theorem Unblocks.eq {g g' : Grid p} {k j : Key} (hg' : g'.WellFiled) (hj : j ≠ k)
    (h : Unblocks k (g.find? j) (g'.find? j)) :
  g'.find? j = g.find? j
  := by
  obtain hsame | ⟨t, t', -, ht', hkey, -⟩ := h
  · exact hsame
  · exact absurd ((hg'.key ht').symm.trans hkey) hj

theorem unblocks_release {k : Key} (j : Key) (t : Tracker) (hk : t.key = k) :
  Unblocks k (some t) (some (Board.amend now (Change.Release.apply ⟨j⟩) t))
  := by
  refine Or.inr ⟨t, _, rfl, rfl, ?_, ?_⟩
  · rw [Board.amend_key (Change.Release.apply_key _), hk]
  · rw [Board.amend_status]
    obtain ⟨-, hblocked, hqueued⟩ | ⟨-, hsame⟩ := Change.Release.apply_status ⟨j⟩ t
    · exact Or.inr ⟨hblocked, hqueued⟩
    · exact Or.inl hsame

theorem Unblocks.stays {k : Key} {old new : Option Tracker} (h : Unblocks k old new) :
  Stays old new
  := by
  obtain rfl | ⟨t, t', rfl, rfl, -, hstatus⟩ := h
  · exact id
  · obtain hsame | ⟨-, hqueued⟩ := hstatus
    · simp [Stays, isQueued, hsame]
    · simp [Stays, isQueued, hqueued]

theorem Unblocks.status {k : Key} {t t' : Tracker} (h : Unblocks k (some t) (some t')) :
  t'.status = t.status ∨ t.status = .blocked ∧ t'.status = .queuedForProcessing
  := by
  obtain heq | ⟨u, u', hu, hu', -, hstatus⟩ := h
  · left
    rw [Option.some.inj heq]
  · rw [Option.some.inj hu, Option.some.inj hu']
    exact hstatus

theorem Unblocks.enters_iff {k : Key} {t t' : Tracker} (h : Unblocks k (some t) (some t')) :
  enters (some t) (some t') = true ↔ t.status = .blocked ∧ t'.status = .queuedForProcessing
  := by
  obtain hsame | ⟨hblocked, hqueued⟩ := h.status
  · have hnot : enters (some t) (some t') = false := by simp [enters, isQueued, hsame]
    rw [hnot]
    apply iff_of_false Bool.false_ne_true
    rintro ⟨hblocked, hqueued⟩
    cases hblocked.symm.trans (hsame.symm.trans hqueued)
  · simp [enters, isQueued, hblocked, hqueued]

instance : Composes (fun s s' : Scheduler p σ => s'.ready = s.ready)
    (fun s s' => s'.ready = s.ready) where
  refl _ := rfl
  trans h h' := h'.trans h
  last h h' := h'.trans h

/-- Prerequisites are dropped from the tracker of a key silently; it is the result. -/
theorem dropFrom_ends {t : Tracker} (hs : s.grid.WellFiled) (ht : s.grid.find? t.key = some t)
    (gone : List Key) :
  (dropFrom now t gone).Ends s
    (fun t' s' => s'.ready = s.ready ∧ s.board.Commits (Unblocks t.key) s'.board ∧
      s'.grid.find? t.key = some t')
    (fun _ _ => ¬ LawfulStore.works s.board.store)
  := by
  have hcommits : CommitsOnly (Unblocks t.key) False
      (dropFrom now t gone : Attempt (Scheduler p σ) Tracker) :=
    commitsOnly_dropFrom t gone (unblocks_release now)
  have hsilent : (dropFrom now t gone : Attempt (Scheduler p σ) Tracker).Walks
      (fun s s' => s'.ready = s.ready) (fun s s' => s'.ready = s.ready) := by
    apply walks_dropFrom
    intro j s
    rw [ends_onBoard]
    apply ends_of_forall
    · exact fun _ _ => rfl
    · exact fun _ _ => rfl
  apply (((hcommits s).and (hsilent s)).and (dropFrom_result ht gone)).mono
  · rintro t' s' ⟨⟨hcommits, hready⟩, rfl⟩
    refine ⟨hready, hcommits hs, ?_⟩
    obtain ⟨u, hu⟩ : ∃ u, s'.grid.find? t.key = some u := by
      obtain hsame | ⟨-, u, -, hu, -⟩ := (hcommits hs).rel t.key
      · exact ⟨t, hsame.trans ht⟩
      · exact ⟨u, hu⟩
    rw [find?, hu]
    rfl
  · rintro _ s' ⟨⟨h, -⟩, -⟩ hworks
    exact (h hs).2 hworks

/-- A chunk which is not live is sent if it is queued at once. -/
theorem register_tells_of_not_live (hs : s.Attended) (barrier : Option String) {c : Chunk}
    (hnew : s.grid.isLive c.key = false) :
  (register now c barrier).Ends s (fun _ => s.Tells)
    (fun _ s' => LawfulStore.works s.board.store → s.Tells s')
  := by
  apply (register_ends_of_not_live hs.filed now barrier hnew).mono
  · rintro t _ ⟨henrols, book, b, h, rfl⟩
    have hcommit := h.commit (P := fun _ _ => True) trivial
    have hgrid : b.grid = s.grid.insert t := h.grid
    have hnot : isQueued (s.grid.find? t.key) = false := by
      apply isQueued_of_not_live
      rw [henrols.key, newcomer_key]
      exact hnew
    apply tells_send_if { s with board := b } hs rfl
      (.head (.book ⟨book, rfl⟩) (.single hcommit)) hcommit.records
    · intro j hj
      rw [withBoard_grid s b, hgrid, Grid.find?_insert, if_neg hj]
      apply enters_self
    · rw [withBoard_grid s b, hgrid, Grid.find?_insert, if_pos rfl, enters_iff, hnot]
      simp [isQueued]
  · intro _ _ h hworks
    exact absurd hworks h

/-- A live chunk is sent if dropping what is gone unblocks it. -/
theorem register_tells_of_live (hs : s.Attended) (barrier : Option String) {c : Chunk}
    (hlive : s.grid.isLive c.key = true) :
  (register now c barrier).Ends s (fun _ => s.Tells)
    (fun _ s' => LawfulStore.works s.board.store → s.Tells s')
  := by
  obtain ⟨t, ht, hlive⟩ := Grid.isLive_iff.mp hlive
  rw [register, ends_bind, ends_modifyGet, plan_of_live ht hlive, carryOut, ends_bind]
  rw [← hs.filed.key ht] at ht
  apply (dropFrom_ends now hs.filed ht _).mono
  · rintro t' s₁ ⟨hready, hcommits, ht'⟩
    have htells : s.Tells
        (if t.status = .blocked ∧ t'.status = .queuedForProcessing then send t.key s₁ else s₁) := by
      apply tells_send_if s₁ hs hready (hcommits.mono (fun _ _ _ => trivial))
      · apply Board.Commits.records (hcommits.mono (fun _ _ => Unblocks.stays))
      · intro j hj
        have hsame : s₁.grid.find? j = s.grid.find? j :=
          Unblocks.eq (hcommits.filed hs.filed) hj (hcommits.rel j)
        rw [hsame]
        apply enters_self
      · have hrel : Unblocks t.key (s.grid.find? t.key) (s₁.grid.find? t.key) := hcommits.rel t.key
        rw [ht, ht'] at hrel ⊢
        apply hrel.enters_iff
    split at htells
    · rename_i hsent
      rw [if_pos hsent, ends_bind, ends_modify, ends_pure]
      exact htells
    · rename_i hsent
      rw [if_neg hsent, ends_pure]
      exact htells
  · intro _ _ h hworks
    exact absurd hworks h

theorem telling_register (c : Chunk) (barrier : Option String) :
  Telling (register now c barrier : Attempt (Scheduler p σ) Tracker)
  := by
  intro s
  apply ends_imp
  intro hs
  cases hlive : s.grid.isLive c.key with
  | false => apply register_tells_of_not_live now hs barrier hlive
  | true => apply register_tells_of_live now hs barrier hlive

end Scheduler

end ChunkDispatch
