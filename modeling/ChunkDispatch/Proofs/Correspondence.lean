import ChunkDispatch.Proofs.Lockstep

/-!
# Schedulers which correspond

A scheduler *shows* the same as another if whatever an operation looks at is the same in both.  A
relation between schedulers is a *correspondence* if schedulers related by it show the same, and if
the changes of which operations are made are alike under it: those of the book, of the ready stream
and of the board.  Then every operation is alike under it, and so is every run, as soon as loading
is.  This is shown once, for whatever the two schedulers may differ in.
-/

namespace ChunkDispatch

open Attempt

namespace Scheduler

variable {p p' : Partitioner} {σ τ : Type}

/-! ### Schedulers which show the same -/

/-- Whatever an operation looks at is the same in both. -/
structure ShowsAs (s : Scheduler p σ) (s' : Scheduler p' τ) : Prop where
  find? (k : Key) : s.find? k = s'.find? k
  values (q : Tracker → Bool) : s.grid.values q = s'.grid.values q
  keys (q : Tracker → Bool) : s.grid.keys q = s'.grid.keys q
  size : s.grid.size = s'.grid.size
  tally {α β : Type} {t : Tally α β} : t.AddsUp → s.grid.tally t = s'.grid.tally t
  book : s.book = s'.book
  ready : s.ready = s'.ready
  retention : s.settings.retention = s'.settings.retention
  maxEnqueued : s.settings.maxEnqueued = s'.settings.maxEnqueued
  directMark : s.settings.directMark = s'.settings.directMark

namespace ShowsAs

variable {s : Scheduler p σ} {s' : Scheduler p' τ} (h : s.ShowsAs s')

include h

theorem goneFrom (t : Tracker) :
  s.goneFrom t = s'.goneFrom t
  := by
  have hlive : ∀ k, s.grid.isLive k = s'.grid.isLive k :=
    fun k => congrArg (fun o => Option.any Tracker.isLive o) (h.find? k)
  simp only [Scheduler.goneFrom, hlive]

theorem find (status : Status) (sink : Option Int32) (limit : Option Nat) :
  s.find status sink limit = s'.find status sink limit
  := by
  rw [Scheduler.find, Scheduler.find, h.values]

theorem broken :
  s.broken = s'.broken
  := by
  simp only [Scheduler.broken, h.values, h.goneFrom]

theorem prerequisites (t : Tracker) (barrier : Option String) :
  s.prerequisites t barrier = s'.prerequisites t barrier
  := by
  simp only [Scheduler.prerequisites, h.values]

end ShowsAs

/-! ### Correspondences -/

variable [Store σ] [Store τ]

/-- Schedulers related by `R` show the same, and what operations are made of leaves such
schedulers. -/
structure Corresponds (now : Instant) (R : Scheduler p σ → Scheduler p' τ → Prop) : Prop where
  filed {s : Scheduler p σ} {s' : Scheduler p' τ} : R s s' → s'.grid.WellFiled
  shows {s : Scheduler p σ} {s' : Scheduler p' τ} : R s s' → s.ShowsAs s'
  mapBook {s : Scheduler p σ} {s' : Scheduler p' τ} : R s s' → ∀ {f f' : Book → Book},
    f s.book = f' s'.book → R (s.mapBook f) (s'.mapBook f')
  send {s : Scheduler p σ} {s' : Scheduler p' τ} : R s s' → ∀ k, R (s.send k) (s'.send k)
  set {s : Scheduler p σ} {s' : Scheduler p' τ} : R s s' → ∀ t,
    Alike R (onBoard (Board.set now t)) s (onBoard (Board.set now t)) s'
  remove {s : Scheduler p σ} {s' : Scheduler p' τ} : R s s' → ∀ k,
    Alike R (onBoard (Board.remove now k)) s (onBoard (Board.remove now k)) s'
  removeWhere {s : Scheduler p σ} {s' : Scheduler p' τ} : R s s' → ∀ q,
    Alike R (onBoard (Board.removeWhere now q)) s (onBoard (Board.removeWhere now q)) s'
  adjust {s : Scheduler p σ} {s' : Scheduler p' τ} {α : Type} : R s s' →
    ∀ k (f : Tracker → α × Tracker),
      Alike R (onBoard (Board.adjust now k f)) s (onBoard (Board.adjust now k f)) s'
  adjustWhere {s : Scheduler p σ} {s' : Scheduler p' τ} {α : Type} : R s s' →
    ∀ q {f : Tracker → α × Tracker}, (∀ t, (f t).2.key = t.key) →
      (∀ t, Book.Releases t (f t).2) →
      Alike R (onBoard (Board.adjustWhere now q f)) s (onBoard (Board.adjustWhere now q f)) s'

namespace Corresponds

variable {now : Instant} {R : Scheduler p σ → Scheduler p' τ → Prop} (hR : Corresponds now R)
variable {s : Scheduler p σ} {s' : Scheduler p' τ} (h : R s s')

include hR h

/-! ### Changes of the book and of the ready stream -/

theorem foldl_send (ks : List Key) :
  R (ks.foldl (fun s k => s.send k) s) (ks.foldl (fun s k => s.send k) s')
  := by
  induction ks generalizing s s' with
  | nil => exact h
  | cons k rest ih => apply ih (hR.send h k)

theorem recount (sinks : SortedSet Int32) :
  R (s.recount now sinks) (s'.recount now sinks)
  := by
  apply hR.mapBook h
  rw [statusCounts, (hR.shows h).tally (Tally.addsUp_statusCounts now sinks), (hR.shows h).book]
  rfl

theorem updateMode (sink : Int32) (phase : Phase) :
  (s.updateMode now sink phase).1 = (s'.updateMode now sink phase).1 ∧
    R (s.updateMode now sink phase).2 (s'.updateMode now sink phase).2
  := by
  have hshows := hR.shows h
  simp only [Scheduler.updateMode, hshows.maxEnqueued, hshows.directMark, hshows.book, true_and]
  apply hR.mapBook h rfl

theorem planNew (c : Chunk) (barrier : Option String) :
  (s.planNew now c barrier).1 = (s'.planNew now c barrier).1 ∧
    R (s.planNew now c barrier).2 (s'.planNew now c barrier).2
  := by
  simp only [Scheduler.planNew, (hR.shows h).prerequisites]
  split
  · obtain ⟨-, hmode⟩ := hR.updateMode h
      ((barrier.elim c (fun b => c.withMatchKey b)).track now).sink .processing
    simp only [Scheduler.admitsDirectly, (hR.shows hmode).book]
    exact ⟨rfl, hmode⟩
  · exact ⟨rfl, h⟩

theorem plan (c : Chunk) (barrier : Option String) :
  (s.plan now c barrier).1 = (s'.plan now c barrier).1 ∧
    R (s.plan now c barrier).2 (s'.plan now c barrier).2
  := by
  rw [Scheduler.plan, Scheduler.plan, (hR.shows h).find?]
  cases (s'.find? c.key).filter Tracker.isLive with
  | none =>
    obtain ⟨ht, hs⟩ := hR.planNew h c barrier
    exact ⟨congrArg Registration.enrol ht, hs⟩
  | some t =>
    simp only [(hR.shows h).goneFrom, true_and]
    exact h

/-! ### Operations -/

omit h in
/-- Loading is alike if it is on the boards. -/
theorem load (hload : Alike R (onBoard Board.loadAll) s (onBoard Board.loadAll) s') :
  Alike R (load now) s (load now) s'
  := by
  apply hload.bind
  intro n t t' ht
  apply (alike_modify (hR.recount ht ∅)).bind_pure

theorem transition (k : Key) (source target : Status) :
  Alike R (transition now k source target) s (transition now k source target) s'
  := by
  apply alike_ite
  · exact fun _ => alike_throw _ _ _ h
  · intro _
    apply (hR.adjust h k _).bind
    intro moved t t' ht
    apply alike_ite
    · intro _
      apply alike_ite
      · intro _
        apply (alike_modify (hR.send ht k)).bind_pure
      · exact fun _ => alike_pure true ht
    · exact fun _ => alike_pure false ht

theorem setStatus (k : Key) (status : Status) :
  Alike R (setStatus now k status) s (setStatus now k status) s'
  := by
  apply (hR.adjust h k _).bind
  intro changed t t' ht
  apply alike_ite
  · intro _
    apply alike_ite
    · intro _
      apply (alike_modify (hR.send ht k)).bind_pure
    · exact fun _ => alike_pure true ht
  · exact fun _ => alike_pure false ht

theorem resetStatus (source target : Status) (jobs : List Int32) :
  Alike R (resetStatus now source target jobs) s (resetStatus now source target jobs) s'
  := by
  apply alike_ite
  · exact fun _ => alike_throw _ _ _ h
  · intro _
    apply alike_get
    simp only [(hR.shows h).keys]
    apply (alike_forM _ _ h).bind_pure
    intro k t t' ht
    apply (hR.setStatus ht k target).bind_pure

theorem removeFromWaitingOn (k : Key) (sink : Option Int32) :
  Alike R (removeFromWaitingOn now k sink) s (removeFromWaitingOn now k sink) s'
  := by
  apply (hR.adjustWhere h _ (Change.Release.apply_key ⟨k⟩) _).bind_pure
  apply Book.releases_release

theorem retire (k : Key) :
  Alike R (retire now k) s (retire now k) s'
  := by
  apply alike_get
  rw [(hR.shows h).retention, (hR.shows h).find?]
  cases s'.settings.retention with
  | purge => apply (hR.remove h k).bind_pure
  | retain => apply (hR.adjust h k _).bind_pure

theorem complete (k : Key) :
  Alike R (complete now k) s (complete now k) s'
  := by
  apply (hR.retire h k).bind
  intro sink t t' ht
  apply (hR.removeFromWaitingOn ht k sink).bind
  intro released t₁ t₁' ht₁
  apply (alike_modify (hR.foldl_send ht₁ _)).bind_pure

theorem boostFrom (change : Change.Raise) (rounds : Nat) (visited : SortedSet Key)
    (pending : List Key) (raised : Nat) :
  Alike R (boostFrom now change rounds visited pending raised) s
    (boostFrom now change rounds visited pending raised) s'
  := by
  induction rounds generalizing s s' visited pending raised with
  | zero => apply alike_pure raised h
  | succ rounds ih =>
    rw [Scheduler.boostFrom, Scheduler.boostFrom]
    apply alike_ite
    · exact fun _ => alike_pure raised h
    · intro _
      apply (hR.adjustWhere h _ change.apply_key _).bind
      · exact fun outcomes t t' ht => ih ht _ _ _
      · exact fun t => Or.inl (change.apply_status t)

theorem boost (ks : List Key) (priority : Int32) :
  Alike R (boost now ks priority) s (boost now ks priority) s'
  := by
  apply alike_get
  simp only [(hR.shows h).size]
  apply hR.boostFrom h

theorem repair (k : Key) (gone : List Key) :
  Alike R (repair now k gone) s (repair now k gone) s'
  := by
  apply alike_forM _ _ h
  intro prerequisite t t' ht
  apply (hR.adjust ht k _).bind
  intro released t₁ t₁' ht₁
  apply alike_ite
  · exact fun _ => alike_modify (hR.send ht₁ k)
  · exact fun _ => alike_pure _ ht₁

theorem recheck :
  Alike R (recheck now) s (recheck now) s'
  := by
  apply alike_get
  simp only [(hR.shows h).broken]
  apply (alike_forM _ _ h).bind_pure
  exact fun found t t' ht => hR.repair ht found.1 found.2

theorem dropFrom (t : Tracker) (gone : List Key) :
  Alike R (dropFrom now t gone) s (dropFrom now t gone) s'
  := by
  apply alike_ite
  · exact fun _ => alike_pure t h
  · intro _
    apply (alike_forM gone _ h).bind
    · intro _ t₁ t₁' ht₁
      apply alike_get
      rw [(hR.shows ht₁).find?]
      apply alike_pure _ ht₁
    · intro k t₁ t₁' ht₁
      apply (hR.adjust ht₁ t.key _).bind_pure

theorem carryOut (r : Registration) :
  Alike R (carryOut now r) s (carryOut now r) s'
  := by
  cases r with
  | enrol t =>
    apply (hR.set h t).bind
    intro _ t₁ t₁' ht₁
    apply alike_get
    rw [(hR.shows ht₁).goneFrom]
    apply (hR.dropFrom ht₁ t _).bind
    intro u t₂ t₂' ht₂
    apply alike_ite
    · intro _
      apply (alike_modify (hR.send ht₂ t.key)).bind_pure
    · exact fun _ => alike_pure u ht₂
  | renew t gone =>
    apply (hR.dropFrom h t gone).bind
    intro u t₁ t₁' ht₁
    apply alike_ite
    · intro _
      apply (alike_modify (hR.send ht₁ t.key)).bind_pure
    · exact fun _ => alike_pure u ht₁

theorem register (c : Chunk) (barrier : Option String) :
  Alike R (register now c barrier) s (register now c barrier) s'
  := by
  obtain ⟨hplan, hafter⟩ := hR.plan h c barrier
  apply (alike_modifyGet hplan hafter).bind
  intro r t t' ht
  apply hR.carryOut ht

omit h in
theorem lockstep :
  Lockstep now R
  where
  filed := hR.filed
  maxEnqueued h := (hR.shows h).maxEnqueued
  queue h _ _ := by rw [(hR.shows h).book]
  ready h _ := (hR.shows h).find _
  found h _ _ := (hR.shows h).find? _
  updateMode := hR.updateMode
  transition h k _ _ _ _ := hR.transition h k _ _

/-- Every operation is alike in corresponding schedulers, if loading is. -/
theorem perform [LawfulStore τ] (o : Operation)
    (hload : o = .load → Alike R (onBoard Board.loadAll) s (onBoard Board.loadAll) s') :
  Alike R (o.perform now) s (o.perform now) s'
  := by
  cases o with
  | load => apply (hR.load (hload rfl)).bind_pure
  | register c barrier => apply (hR.register h c barrier).bind_pure
  | complete k => apply (hR.complete h k).bind_pure
  | removeFromWaitingOn k sink => apply (hR.removeFromWaitingOn h k sink).bind_pure
  | processingDone k => apply (hR.lockstep.processingDone h k).bind_pure
  | transition k source target => apply (hR.transition h k source target).bind_pure
  | setStatus k status => apply (hR.setStatus h k status).bind_pure
  | resetStatus source target jobs => apply (hR.resetStatus h source target jobs).bind_pure
  | resend k => apply (hR.adjust h k _).bind_pure
  | boost ks priority => apply (hR.boost h ks priority).bind_pure
  | remove k => apply (hR.remove h k).bind_pure
  | removeJob job => apply (hR.removeWhere h _).bind_pure
  | recheck => apply (hR.recheck h).bind_pure
  | purge => apply (hR.removeWhere h _).bind_pure
  | bulkSchedule sink phase => apply (hR.lockstep.bulkSchedule h sink phase).bind_pure
  | forceMode sink phase mode =>
    apply (alike_modify _).bind_pure
    apply hR.mapBook h
    rw [(hR.shows h).book]
  | updateMode sink phase =>
    obtain ⟨hchanged, hmode⟩ := hR.updateMode h sink phase
    apply (alike_modifyGet hchanged hmode).bind_pure
  | recount sinks => apply (alike_modify (hR.recount h sinks)).bind_pure

end Corresponds

end Scheduler

/-- Operation by operation, both runs come to the same, if every operation does. -/
theorem Operation.run_alike {p p' : Partitioner} {σ τ : Type} [Store σ] [Store τ]
    {R : Scheduler p σ → Scheduler p' τ → Prop}
    (hR : ∀ {s s'}, R s s' → ∀ (now : Instant) (o : Operation),
      Alike R (o.perform now) s (o.perform now) s')
    {s : Scheduler p σ} {s' : Scheduler p' τ} (h : R s s') (os : List (Instant × Operation)) :
  (run s os).1 = (run s' os).1 ∧ R (run s os).2 (run s' os).2
  := by
  induction os generalizing s s' with
  | nil => exact ⟨rfl, h⟩
  | cons o rest ih =>
    obtain ⟨houtcome, hafter⟩ := hR h o.1 o.2
    obtain ⟨hanswers, hlast⟩ := ih hafter
    rw [run, run, houtcome]
    exact ⟨congrArg _ hanswers, hlast⟩

end ChunkDispatch
