import ChunkDispatch.Proofs.Aim

/-!
# Counts which lean

The count of a status *leans* up if chunks only come to the status, and down if they only leave it.
Then a book, right or not, is changed by as much as the census, and it does not matter how often one
stops on the way.  The count of completed chunks leans under all operations which may be repeated.
-/

namespace ChunkDispatch

open Attempt

/-! ### Numbers which lean -/

/-- The second number is not below the first if they lean up, and not above it otherwise. -/
def LeansTo (up : Bool) (m n : Nat) : Prop :=
  if up then m ≤ n else n ≤ m

/-- What becomes of a count when the number of what is counted goes from `m` to `n`. -/
def shifted (m n count : Nat) : Nat :=
  count - (m - n) + (n - m)

section Numbers

variable {up : Bool} {l m n : Nat}

theorem LeansTo.refl (up : Bool) (n : Nat) :
  LeansTo up n n
  := by
  rw [LeansTo]
  split <;> apply Nat.le_refl

theorem LeansTo.trans (h : LeansTo up l m) (h' : LeansTo up m n) :
  LeansTo up l n
  := by
  cases up with
  | true => exact Nat.le_trans h h'
  | false => exact Nat.le_trans h' h

theorem LeansTo.add_toNat {a b : Bool} (h : if up then a = true → b = true else b = true → a = true)
    (n : Nat) :
  LeansTo up (n + a.toNat) (n + b.toNat)
  := by
  cases up with
  | true => exact Nat.add_le_add_left (Bool.toNat_le_toNat h) n
  | false => exact Nat.add_le_add_left (Bool.toNat_le_toNat h) n

theorem shifted_self (n count : Nat) :
  shifted n n count = count
  := by
  rw [shifted, Nat.sub_self]
  rfl

/-- Along numbers which lean nothing is lost of a count, though it may be too small. -/
theorem LeansTo.shifted_shifted (h : LeansTo up l m) (h' : LeansTo up m n) (count : Nat) :
  shifted m n (shifted l m count) = shifted l n count
  := by
  rw [shifted, shifted, shifted]
  cases up with
  | true =>
    have hle : l ≤ m := h
    have hle' : m ≤ n := h'
    omega
  | false =>
    have hle : m ≤ l := h
    have hle' : n ≤ m := h'
    omega

/-- One more or one less is counted. -/
theorem shifted_of_balance {takes gives : Nat} (h : m + gives = n + takes)
    (hone : takes = 0 ∨ gives = 0) (count : Nat) :
  shifted m n count = count - takes + gives
  := by
  rw [shifted]
  obtain rfl | rfl := hone
  · omega
  · omega

end Numbers

/-! ### Changes which lean -/

namespace EventKind

variable {up : Bool} {status : Status} {old new : Option Tracker}

/-- Nobody leaves the status if it leans up, nobody comes to it otherwise, and nobody in it goes to
another sink. -/
def Leans (up : Bool) (status : Status) (old new : Option Tracker) : Prop :=
  KeepsSink status old new ∧
    ∀ sink, if up then old.any (Tracker.isOf sink status) = true
        → new.any (Tracker.isOf sink status) = true
      else new.any (Tracker.isOf sink status) = true → old.any (Tracker.isOf sink status) = true

theorem leans_remove (status : Status) (old : Option Tracker) :
  Leans false status old none
  := by
  constructor
  · intro _ _ _ hnew
    cases hnew
  · intro sink hnew
    cases hnew

theorem leans_amend {α : Type} (now : Instant) {f : Tracker → α × Tracker} {t : Tracker}
    (htrims : t.Trims (f t).2) (h : if up then t.status = status → (f t).2.status = status
      else (f t).2.status = status → t.status = status) :
  Leans up status (some t) (some (Board.amend now f t))
  := by
  have hsink : (Board.amend now f t).sink = t.sink :=
    congrArg Lane.sink (Board.trims_amend now htrims).lane
  constructor
  · rintro _ _ ⟨⟩ ⟨⟩ -
    exact hsink
  · intro sink
    simp only [Option.any_some, Tracker.isOf_iff, hsink, Board.amend_status]
    cases up with
    | true => exact And.imp_right h
    | false => exact And.imp_right h

/-- No event both takes a chunk out of a status and brings it there. -/
theorem takes_or_gives (kind : EventKind) (sink : Int32) (status : Status) :
  (kind.takes sink status).toNat = 0 ∨ (kind.gives sink status).toNat = 0
  := by
  cases kind with
  | added => exact Or.inl rfl
  | removed => exact Or.inr rfl
  | updated k sink' source target =>
    rw [Bool.toNat_eq_zero, Bool.toNat_eq_zero, takes, gives, decide_eq_false_iff_not,
      decide_eq_false_iff_not, ← not_and_or]
    rintro ⟨⟨-, hsource, hne⟩, -, htarget, -⟩
    exact hne (hsource.trans htarget.symm)

end EventKind

/-! ### Counts along commits -/

namespace Board

variable {p : Partitioner} {σ : Type} {up : Bool} {status : Status} {b b' b'' : Board p σ}

/-- The census leans, and the events from `b` to `b'` change every book by as much. -/
def Leans (up : Bool) (status : Status) (b b' : Board p σ) : Prop :=
  ∃ es, b'.log = b.log ++ es ∧ ∀ sink,
    LeansTo up (b.grid.census sink status) (b'.grid.census sink status) ∧
    ∀ book : Book, (book.observeAll es).count sink status
      = shifted (b.grid.census sink status) (b'.grid.census sink status) (book.count sink status)

theorem leans_of_eq (hgrid : b'.grid = b.grid) (hlog : b'.log = b.log) :
  b.Leans up status b'
  := by
  use []
  rw [hlog, hgrid, List.append_nil]
  use rfl
  intro sink
  use LeansTo.refl up _
  intro book
  rw [shifted_self]
  rfl

theorem Leans.trans (h : b.Leans up status b') (h' : b'.Leans up status b'') :
  b.Leans up status b''
  := by
  obtain ⟨es, hlog, hes⟩ := h
  obtain ⟨es', hlog', hes'⟩ := h'
  use es ++ es'
  constructor
  · rw [hlog', hlog, List.append_assoc]
  · intro sink
    obtain ⟨hcensus, hbook⟩ := hes sink
    obtain ⟨hcensus', hbook'⟩ := hes' sink
    use hcensus.trans hcensus'
    intro book
    rw [Book.observeAll_append, hbook', hbook, hcensus.shifted_shifted hcensus']

/-- One event changes every book by as much as the census. -/
theorem emit_leans (now : Instant) {old new : Option Tracker} {g' : Grid p}
    (hleans : EventKind.Leans up status old new) (hcensus : ∀ sink, ∃ n,
      b.grid.census sink status = n + (old.any (Tracker.isOf sink status)).toNat ∧
      g'.census sink status = n + (new.any (Tracker.isOf sink status)).toNat) :
  b.Leans up status (emit now old new { b with grid := g' })
  := by
  have hle : ∀ sink, LeansTo up (b.grid.census sink status) (g'.census sink status) := by
    intro sink
    obtain ⟨n, hold, hnew⟩ := hcensus sink
    rw [hold, hnew]
    apply LeansTo.add_toNat (hleans.2 sink)
  rw [emit]
  split
  · rename_i hnone
    refine ⟨[], (List.append_nil _).symm, ?_⟩
    intro sink
    use hle sink
    intro book
    obtain ⟨n, hold, hnew⟩ := hcensus sink
    have hsame : g'.census sink status = b.grid.census sink status := by
      rw [hold, hnew]
      cases old <;> cases new <;> first | rfl | cases hnone
    change book.count sink status = shifted _ (g'.census sink status) _
    rw [hsame, shifted_self]
  · rename_i kind hkind
    refine ⟨[_], rfl, ?_⟩
    intro sink
    use hle sink
    intro book
    obtain ⟨n, hold, hnew⟩ := hcensus sink
    obtain ⟨-, hbalance⟩ := EventKind.ofChange?_balance hkind hleans.1 sink
    change (book.observe _).count sink status = shifted _ (g'.census sink status) _
    rw [Book.count_observe]
    apply (shifted_of_balance _ (kind.takes_or_gives sink status) _).symm
    rw [hold, hnew, Nat.add_assoc, Nat.add_assoc, hbalance]

variable [Store σ] [LawfulStore σ]

/-- Along commits which lean the counts lean. -/
theorem Commits.leans (h : b.Commits (EventKind.Leans up status) b') (hb : b.grid.WellFiled) :
  b.Leans up status b'
  := by
  apply h.along leans_of_eq Leans.trans _ _ hb
  · intro b now t hb ht
    apply emit_leans now ht
    intro sink
    exact ⟨_, Grid.census_erase hb t.key, Grid.census_insert hb t⟩
  · intro b now k hb hk
    apply emit_leans now hk
    intro sink
    exact ⟨_, Grid.census_erase hb k, rfl⟩

end Board

/-! ### Operations -/

namespace Scheduler

variable {p : Partitioner} {σ : Type} {up : Bool} {status : Status} {s s₁ s₂ s₃ : Scheduler p σ}

/-- The census leans, and the counts of the book change by as much. -/
def Leans (up : Bool) (status : Status) (s s' : Scheduler p σ) : Prop :=
  ∀ sink, LeansTo up (s.grid.census sink status) (s'.grid.census sink status) ∧
    s'.book.count sink status = shifted (s.grid.census sink status) (s'.grid.census sink status)
      (s.book.count sink status)

theorem Follows.leans (h : s.Follows s₁) (hboard : s.board.Leans up status s₁.board) :
  s.Leans up status s₁
  := by
  obtain ⟨es, hlog, hbook⟩ := h
  obtain ⟨es', hlog', hes⟩ := hboard
  obtain rfl : es = es' := List.append_cancel_left (hlog.symm.trans hlog')
  intro sink
  use (hes sink).1
  rw [hbook]
  apply (hes sink).2

/-- It does not matter for the counts whether one stops on the way. -/
theorem Leans.count_eq (h : s.Leans up status s₁) (h' : s₁.Leans up status s₂)
    (hdirect : s.Leans up status s₃) {sink : Int32}
    (hcensus : s₂.grid.census sink status = s₃.grid.census sink status) :
  s₂.book.count sink status = s₃.book.count sink status
  := by
  obtain ⟨hleans, hcount⟩ := h sink
  obtain ⟨hleans', hcount'⟩ := h' sink
  obtain ⟨-, hcount''⟩ := hdirect sink
  rw [hcount', hcount, hcount'', hleans.shifted_shifted hleans', hcensus]

/-- To release a tracker neither completes it nor the contrary. -/
theorem leans_release (up : Bool) (now : Instant) (j : Key) (t : Tracker) :
  EventKind.Leans up .completed (some t)
    (some (Board.amend now (Change.Release.apply ⟨j⟩) t))
  := by
  apply EventKind.leans_amend now (Change.Release.eases ⟨j⟩ t).toTrims
  have hstatus : (Change.Release.apply ⟨j⟩ t).2.status = .completed ↔ t.status = .completed := by
    rw [Change.Release.apply_eq_relieved, Tracker.relieved_status]
    cases hfreed : t.isFreedBy [j] with
    | true => simp [(Tracker.isFreedBy_iff.mp hfreed).1]
    | false => simp
  split
  · exact hstatus.mpr
  · exact hstatus.mp

/-- To force a status completes the tracker or does not. -/
theorem leans_force (now : Instant) (target : Status) (t : Tracker) :
  EventKind.Leans (decide (target = .completed)) .completed (some t)
    (some (Board.amend now (Change.Force.apply ⟨target⟩) t))
  := by
  apply EventKind.leans_amend now (Change.Force.trims ⟨target⟩ t)
  by_cases htarget : target = .completed
  · subst htarget
    exact fun _ => rfl
  · rw [decide_eq_false htarget, if_neg Bool.false_ne_true, Change.Force.apply]
    split
    · split
      · exact id
      · exact fun h => absurd h htarget
    · exact fun h => absurd h htarget

/-- Nobody is completed by getting into a queue. -/
theorem leans_enqueue (now : Instant) (phase : Phase) (t : Tracker) :
  EventKind.Leans false .completed (some t)
    (some (Board.amend now (Change.Move.apply ⟨phase.ready, phase.queued⟩) t))
  := by
  apply EventKind.leans_amend now
    (Change.Move.trims phase.ready_ne_blocked phase.queued_ne_blocked t)
  obtain ⟨heq, -⟩ | ⟨-, -, -, hstatus⟩ := Change.Move.apply_status ⟨phase.ready, phase.queued⟩ t
  · rw [heq]
    exact id
  · exact fun h => absurd (hstatus.symm.trans h) phase.queued_ne_completed

variable [Store σ] [LawfulStore σ] {P : Option Tracker → Option Tracker → Prop}

theorem retire_commits (hs : s.grid.WellFiled) (now : Instant) (k : Key)
    (hpurge : s.settings.retention = .purge → ∀ o, P o none)
    (hretain : s.settings.retention = .retain → ∀ t, P (some t)
      (some (Board.amend now (Change.Force.apply ⟨.completed⟩) t))) :
  (retire now k).Ends s (fun _ s' => s.board.Commits P s'.board)
    (fun _ s' => s.board.Commits P s'.board ∧ ¬ LawfulStore.works s.board.store)
  := by
  rw [retire, ends_bind, ends_get]
  cases hretention : s.settings.retention with
  | purge =>
    have hcommits := walks_bind_pure (commitsOnly_onBoard (p := p) (σ := σ) (F := False)
      (Board.commitsOnly_remove now k (hpurge hretention))) (Option.map Tracker.sink) s
    apply hcommits.mono
    · exact fun _ _ h => h hs
    · exact fun _ _ h => h hs
  | retain =>
    have hcommits := walks_bind_pure (commitsOnly_adjust (p := p) (σ := σ) (F := False) now k
      (Change.Force.apply_key _) (fun t _ => hretain hretention t))
      (fun _ => (s.find? k).map Tracker.sink) s
    apply hcommits.mono
    · exact fun _ _ h => h hs
    · exact fun _ _ h => h hs

/-- A completion retires its key as the retention says, and releases who waits for it. -/
theorem complete_commits (hs : s.grid.WellFiled) (now : Instant) (k : Key)
    (hpurge : s.settings.retention = .purge → ∀ o, P o none)
    (hretain : s.settings.retention = .retain → ∀ t, P (some t)
      (some (Board.amend now (Change.Force.apply ⟨.completed⟩) t)))
    (hrelease : ∀ t, P (some t) (some (Board.amend now (Change.Release.apply ⟨k⟩) t))) :
  (complete now k).Ends s (fun _ s' => s.board.Commits P s'.board)
    (fun _ s' => s.board.Commits P s'.board ∧ ¬ LawfulStore.works s.board.store)
  := by
  rw [complete_eq, ends_bind]
  apply (retire_commits hs now k hpurge hretain).mono
  · intro sink s₁ h
    apply (commitsOnly_releaseDependents (F := False) now k sink hrelease s₁).mono
    · exact fun _ _ h' => h.trans (h' (h.filed hs))
    · intro _ _ h'
      obtain ⟨hcommits, hnot⟩ := h' (h.filed hs)
      exact ⟨h.trans hcommits, fun hworks => hnot (h.works hworks)⟩
  · exact fun _ _ => id

end Scheduler

namespace Operation

variable {p : Partitioner} {σ : Type} {s : Scheduler p σ} {now : Instant}
variable {P : Option Tracker → Option Tracker → Prop}

/-- The relation grants what an operation which may be repeated, made at `s`, puts in a place. -/
def Grants (s : Scheduler p σ) (now : Instant) (P : Option Tracker → Option Tracker → Prop) :
    Operation → Prop
  | complete k =>
    (s.settings.retention = .purge → ∀ o, P o none) ∧
      (s.settings.retention = .retain → ∀ t, P (some t)
        (some (Board.amend now (Change.Force.apply ⟨.completed⟩) t))) ∧
      ∀ t, P (some t) (some (Board.amend now (Change.Release.apply ⟨k⟩) t))
  | removeFromWaitingOn k _ => ∀ t, P (some t) (some (Board.amend now (Change.Release.apply ⟨k⟩) t))
  | removeJob _ | purge => ∀ t, P (some t) none
  | recheck => ∀ j t, P (some t) (some (Board.amend now (Change.Release.apply ⟨j⟩) t))
  | resetStatus _ target _ => ∀ t, P (some t)
      (some (Board.amend now (Change.Force.apply ⟨target⟩) t))
  | bulkSchedule _ phase => ∀ t, P (some t)
      (some (Board.amend now (Change.Move.apply ⟨phase.ready, phase.queued⟩) t))
  | _ => False

/-- What is allowed to any operation is granted. -/
theorem grants_of_allows (hP : Allows now P) {o : Operation} (ho : o.IsRepeated) :
  o.Grants s now P
  := by
  cases o with
  | complete k => exact ⟨fun _ => hP.remove, fun _ => hP.force _, hP.release _⟩
  | removeFromWaitingOn k sink => exact hP.release _
  | removeJob job => exact fun t => hP.remove (some t)
  | purge => exact fun t => hP.remove (some t)
  | recheck => exact fun j => hP.release ⟨j⟩
  | resetStatus source target jobs => exact hP.force _
  | bulkSchedule sink phase => exact hP.move phase.ready_ne_blocked phase.queued_ne_blocked
  | _ => exact ho.elim

/-- The operation is refused whatever the store does. -/
def IsRefused : Operation → Prop
  | resetStatus source target _ => source = .blocked ∨ target = .blocked
  | _ => False

variable [Store σ] [LawfulStore σ]

/--
An operation which may be repeated puts in a place only what is granted; it fails if the store
refuses a write or the operation is refused itself.
-/
theorem perform_grants (hs : s.grid.WellFiled) {o : Operation} (hP : o.Grants s now P) :
  (o.perform now).Ends s (fun _ s' => s.board.Commits P s'.board)
    (fun _ s' => s.board.Commits P s'.board ∧ (LawfulStore.works s.board.store → o.IsRefused))
  := by
  have hends : ∀ {α : Type} {x : Attempt (Scheduler p σ) α} {F : Prop},
      Scheduler.CommitsOnly P F x → x.Ends s (fun _ s' => s.board.Commits P s'.board)
        (fun _ s' => s.board.Commits P s'.board ∧ (LawfulStore.works s.board.store → F)) := by
    intro α x F hx
    apply (hx s).mono
    · exact fun _ _ h => h hs
    · exact fun _ _ h => h hs
  cases o with
  | complete k =>
    rw [perform, ends_bind]
    apply Scheduler.complete_commits hs now k hP.1 hP.2.1 hP.2.2
  | removeFromWaitingOn k sink =>
    rw [perform, ends_bind]
    apply hends (Scheduler.commitsOnly_removeFromWaitingOn now k sink hP)
  | removeJob job =>
    rw [perform, ends_bind]
    apply hends (Scheduler.commitsOnly_onBoard (Board.commitsOnly_removeWhere now fun t _ => hP t))
  | purge =>
    rw [perform, ends_bind]
    apply hends (Scheduler.commitsOnly_onBoard (Board.commitsOnly_removeWhere now fun t _ => hP t))
  | recheck =>
    rw [perform, ends_bind]
    apply hends (Scheduler.commitsOnly_recheck now hP)
  | resetStatus source target jobs =>
    rw [perform, ends_bind]
    apply hends (Scheduler.commitsOnly_resetStatus now jobs id hP)
  | bulkSchedule sink phase =>
    rw [perform, ends_bind]
    apply hends (Scheduler.commitsOnly_bulkSchedule now sink hP)
  | _ => exact hP.elim

/-- However the operation ends, it puts in a place only what is granted. -/
theorem commits_of_grants (hs : s.grid.WellFiled) {o : Operation} (hP : o.Grants s now P) :
  s.board.Commits P ((o.perform now).stateAfter s).board
  := by
  apply Ends.stateAfter (P := fun s' : Scheduler p σ => s.board.Commits P s'.board)
  apply (perform_grants hs hP).mono
  · exact fun _ _ => id
  · exact fun _ _ => And.left

/-! ### The completed chunks -/

omit [Store σ] [LawfulStore σ] in
/-- Whether the operation may complete chunks. -/
def raises (s : Scheduler p σ) : Operation → Bool
  | complete _ => decide (s.settings.retention = .retain)
  | resetStatus _ target _ => decide (target = .completed)
  | _ => false

omit [Store σ] [LawfulStore σ] in
/-- An operation which may be repeated completes chunks, or it revives or removes such. -/
theorem grants_leans (s : Scheduler p σ) (now : Instant) {o : Operation} (ho : o.IsRepeated) :
  o.Grants s now (EventKind.Leans (o.raises s) .completed)
  := by
  cases o with
  | complete k =>
    refine ⟨?_, ?_, Scheduler.leans_release _ now k⟩
    · intro hpurge
      rw [raises, hpurge]
      apply EventKind.leans_remove
    · intro hretain
      rw [raises, hretain]
      apply Scheduler.leans_force
  | removeFromWaitingOn k sink => apply Scheduler.leans_release
  | removeJob job => exact fun t => EventKind.leans_remove _ (some t)
  | purge => exact fun t => EventKind.leans_remove _ (some t)
  | recheck => apply Scheduler.leans_release
  | resetStatus source target jobs => apply Scheduler.leans_force
  | bulkSchedule sink phase => apply Scheduler.leans_enqueue
  | _ => exact ho.elim

/-- Along an operation which may be repeated the count of completed chunks leans. -/
theorem perform_leans (hs : s.grid.WellFiled) (now : Instant) {o : Operation}
    (ho : o.IsRepeated) :
  s.Leans (o.raises s) .completed ((o.perform now).stateAfter s)
  := by
  apply (perform_follows now _ _ s).leans ((commits_of_grants hs (grants_leans s now ho)).leans hs)
  · rintro rfl
    exact ho
  · rintro sinks rfl
    exact ho

end Operation

end ChunkDispatch
