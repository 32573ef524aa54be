import ChunkDispatch.Proofs.Forgetting
import ChunkDispatch.Proofs.Run

/-!
# Retained history is not seen

A scheduler which purges *forgets* what one which retains keeps if its board does and both sent the
same keys.  As long as nobody waits for what is gone, every operation which schedules comes to the
same on both and leaves such schedulers.  So two schedulers started over empty stores, of which one
purges and the other retains, answer every sequence of these operations alike, and whatever is asked
about live chunks is answered alike by both.
-/

namespace ChunkDispatch

open Attempt

namespace Scheduler

variable {p p' : Partitioner} {σ : Type} [Store σ] [LawfulStore σ]
variable {s : Scheduler p σ} {s' : Scheduler p' σ}

/-- The first scheduler purges what the second retains, and differs in nothing else but the
partitions. -/
structure Forgets (s : Scheduler p σ) (s' : Scheduler p' σ) : Prop where
  board : s.board.Forgets s'.board
  ready : s.ready = s'.ready
  purges : s.settings.retention = .purge
  retains : s'.settings.retention = .retain
  maxEnqueued : s.settings.maxEnqueued = s'.settings.maxEnqueued
  directMark : s.settings.directMark = s'.settings.directMark

/-! ### Lookups and counts -/

namespace Forgets

variable (h : s.Forgets s')

include h

theorem values {q : Tracker → Bool} (hq : ∀ t, q t = true → t.isLive = true) :
  s.grid.values q = s'.grid.values q
  := congrArg SortedMap.values (h.board.select hq)

theorem keys {q : Tracker → Bool} (hq : ∀ t, q t = true → t.isLive = true) :
  s.grid.keys q = s'.grid.keys q
  := congrArg SortedMap.keys (h.board.select hq)

theorem find {status : Status} (hstatus : status ≠ .completed) (sink : Option Int32)
    (limit : Option Nat) :
  s.find status sink limit = s'.find status sink limit
  := by
  rw [Scheduler.find, Scheduler.find, h.values]
  intro t ht
  obtain ⟨hsame, -⟩ := of_decide_eq_true ht
  simpa [Tracker.isLive, Status.isLive, hsame] using hstatus

theorem prerequisites (t : Tracker) (barrier : Option String) :
  s.prerequisites t barrier = s'.prerequisites t barrier
  := by
  have hlive : ∀ c, (Query.Sharing.of t.sink t.submitter t.hashes barrier).holds c = true →
      c.isLive = true := fun _ hc => (of_decide_eq_true hc).1
  simp only [Scheduler.prerequisites, h.values hlive]

theorem status (now : Instant) (sink : Int32) :
  (s.book.get now sink).forget = (s'.book.get now sink).forget
  := by
  rw [← Book.get_forget, ← Book.get_forget]
  exact congrArg (fun b => Book.get b now sink) h.board.book

theorem queue (now : Instant) (sink : Int32) (phase : Phase) :
  (s.book.get now sink).queue phase = (s'.book.get now sink).queue phase
  := by
  rw [← SinkStatus.queue_forget, h.status, SinkStatus.queue_forget]

/-! ### Changes of the book and of the ready stream -/

theorem withBoard {b : Board p σ} {b' : Board p' σ} (hb : b.Forgets b') :
  Forgets { s with board := b } { s' with board := b' }
  := ⟨hb, h.ready, h.purges, h.retains, h.maxEnqueued, h.directMark⟩

theorem send (k : Key) :
  (s.send k).Forgets (s'.send k)
  := by
  rw [Scheduler.send, Scheduler.send, h.ready]
  split
  · exact ⟨h.board, rfl, h.purges, h.retains, h.maxEnqueued, h.directMark⟩
  · exact h

theorem foldl_send (ks : List Key) :
  (ks.foldl (fun s k => s.send k) s).Forgets (ks.foldl (fun s k => s.send k) s')
  := by
  induction ks generalizing s s' with
  | nil => exact h
  | cons k rest ih => apply ih (h.send k)

theorem updateMode (now : Instant) (sink : Int32) (phase : Phase) :
  (s.updateMode now sink phase).1 = (s'.updateMode now sink phase).1 ∧
    (s.updateMode now sink phase).2.Forgets (s'.updateMode now sink phase).2
  := by
  have hbook := Book.forget_updateMode s.book s.settings.maxEnqueued s.settings.directMark now sink
    phase
  have hbook' := Book.forget_updateMode s'.book s'.settings.maxEnqueued s'.settings.directMark now
    sink phase
  rw [show s.book.forget = s'.book.forget from h.board.book, h.maxEnqueued, h.directMark, hbook']
    at hbook
  obtain ⟨hchanged, hbook⟩ := Prod.mk.inj hbook
  simp only [Scheduler.updateMode, h.maxEnqueued, h.directMark]
  use hchanged.symm
  apply h.withBoard
  exact ⟨⟨h.board.working.works, h.board.working.filed⟩,
    ⟨h.board.working'.works, h.board.working'.filed⟩, h.board.find?, hbook.symm⟩

theorem admitsDirectly (now : Instant) (sink : Int32) :
  (s.admitsDirectly now sink).1 = (s'.admitsDirectly now sink).1 ∧
    (s.admitsDirectly now sink).2.Forgets (s'.admitsDirectly now sink).2
  := by
  obtain ⟨-, hmode⟩ := h.updateMode now sink .processing
  exact ⟨congrArg Queue.admitsDirectly (hmode.queue now sink .processing), hmode⟩

theorem planNew (now : Instant) (c : Chunk) (barrier : Option String) :
  (s.planNew now c barrier).1 = (s'.planNew now c barrier).1 ∧
    (s.planNew now c barrier).2.Forgets (s'.planNew now c barrier).2
  := by
  simp only [Scheduler.planNew, h.prerequisites]
  split
  · obtain ⟨hdirect, hmode⟩ := h.admitsDirectly now (newcomer now c barrier).sink
    rw [newcomer] at hdirect hmode
    rw [hdirect]
    exact ⟨rfl, hmode⟩
  · exact ⟨rfl, h⟩

end Forgets

/-! ### Operations -/

omit [Store σ] [LawfulStore σ] in
/-- What an action on the board yields, the scheduler has with the board after it. -/
theorem onBoard_yields {α : Type} {x : Attempt (Board p σ) α} {Q : α → Board p σ → Prop}
    (hx : x.Yields s.board Q) :
  (onBoard x).Yields s (fun a t => Q a t.board ∧ t = { s with board := t.board })
  := by
  rw [Yields, ends_onBoard]
  apply hx.mono
  exact fun _ _ hq => ⟨hq, rfl⟩

/-- A scheduler which purges deletes the key. -/
theorem retire_yields_of_purge (hs : s.board.Working) (hpurges : s.settings.retention = .purge)
    (now : Instant) (k : Key) :
  (retire now k).Yields s (fun sink t =>
    (sink = (s.grid.find? k).map Tracker.sink ∧ s.board.Deletes now [k] t.board) ∧
      t = { s with board := t.board })
  := by
  rw [retire, Yields, ends_bind, ends_get, hpurges]
  simp only []
  rw [ends_bind]
  apply (onBoard_yields (hs.yields (Board.remove_ends s.board now k))).ends
  rintro _ t ⟨⟨rfl, hdeletes⟩, ht⟩
  exact ⟨⟨rfl, hdeletes⟩, ht⟩

/-- A scheduler which retains puts the tracker as completed. -/
theorem retire_yields_of_retain (hs : s.board.Working) (hretains : s.settings.retention = .retain)
    (now : Instant) (k : Key) :
  (retire now k).Yields s (fun sink t =>
    (sink = (s.grid.find? k).map Tracker.sink ∧
      s.board.Puts now (Board.changedAt now (Change.Force.apply ⟨.completed⟩) s.grid k) t.board) ∧
      t = { s with board := t.board })
  := by
  rw [retire, Yields, ends_bind, ends_get, hretains]
  simp only []
  rw [ends_bind]
  apply (onBoard_yields (hs.yields (Board.adjust_ends s.board now k _))).ends
  rintro _ t ⟨⟨-, hputs⟩, ht⟩
  exact ⟨⟨rfl, hputs⟩, ht⟩

section Operations

variable (h : s.Forgets s') (now : Instant)

include h

theorem transition_forgets (k : Key) {source target : Status} (hsource : source ≠ .completed)
    (htarget : target ≠ .completed) :
  Alike Forgets (transition now k source target) s (transition now k source target) s'
  := by
  apply alike_ite
  · exact fun _ => alike_throw _ _ _ h
  · intro hstatus
    rw [not_or] at hstatus
    apply alike_bind_of_yields
      (onBoard_yields (h.board.working.yields (Board.adjust_ends s.board now k _)))
      (onBoard_yields (h.board.working'.yields (Board.adjust_ends s'.board now k _)))
    rintro _ t _ t' ⟨⟨rfl, hb⟩, ht⟩ ⟨⟨rfl, hb'⟩, ht'⟩
    obtain ⟨hmoved, hchanged⟩ := h.board.changedAt_move hsource target now k
    have hafter : t.Forgets t' := by
      rw [ht, ht']
      rw [← hchanged] at hb'
      apply h.withBoard
      apply h.board.puts_one hb hb'
      · exact fun _ hu _ => Board.eq_of_mem_changedAt hu
      · apply Board.nodup_changedAt
      · intro u hu
        obtain ⟨u₀, hu₀, rfl⟩ := Board.exists_of_mem_changedAt hu
        rw [h.board.find?, Option.filter_eq_some_iff] at hu₀
        rw [Board.amend_isLive,
          (Change.Move.steady hstatus.1 hstatus.2 hsource htarget u₀).isLive, hu₀.2]
    simp only [hmoved]
    apply alike_ite
    · intro _
      apply alike_ite
      · intro _
        apply (alike_modify (hafter.send k)).bind_pure
      · exact fun _ => alike_pure true hafter
    · exact fun _ => alike_pure false hafter

/-- The key is taken out of the wait sets of the same live trackers. -/
theorem releaseDependents_forgets (k : Key) {sink sink' : Option Int32}
    (hsame : ∀ j t, s'.grid.find? j = some t →
      (t.isLive && Query.WaitingFor.holds ⟨sink, k⟩ t) = Query.WaitingFor.holds ⟨sink', k⟩ t) :
  Alike Forgets (releaseDependents now k sink) s (releaseDependents now k sink') s'
  := by
  have hadjust := h.board.adjustWhere now (Change.Release.apply_key ⟨k⟩)
    (Book.releases_release ⟨k⟩) (Change.Release.apply_isLive ⟨k⟩) hsame
  apply Alike.bind
  · apply Alike.bind_pure
    apply alike_within hadjust
    exact fun _ _ => h.withBoard
  · intro released t t' ht
    apply (alike_modify (ht.foldl_send _)).bind_pure

theorem complete_forgets (hg' : s'.grid.Orderly) (k : Key) :
  Alike Forgets (complete now k) s (complete now k) s'
  := by
  rw [complete_eq, complete_eq]
  apply alike_bind_of_yields (retire_yields_of_purge h.board.working h.purges now k)
    (retire_yields_of_retain h.board.working' h.retains now k)
  rintro _ t _ t' ⟨⟨rfl, hb⟩, ht⟩ ⟨⟨rfl, hb'⟩, ht'⟩
  have hafter : t.Forgets t' := by
    rw [ht, ht']
    apply h.withBoard (h.board.retire hb hb')
  apply releaseDependents_forgets hafter
  intro j u hu
  have hfind := Board.find?_changedAt (Change.Force.apply_key _) h.board.working'.filed hb' j
  rw [show t'.board.grid.find? j = some u from hu] at hfind
  split at hfind
  · -- What is completed waits for nothing.
    have hretired : retired .retain now (s'.grid.find? k) = some u := hfind.symm
    obtain ⟨-, -, -, -, hnone⟩ := of_retired_eq_some hretired
    simp [Query.WaitingFor.holds, hnone]
  · by_cases hk : k ∈ u.waitingOn
    · -- Who waits for the key is live, and so is the key, whose sink both schedulers find.
      have hwaits : s'.grid.Waits j k := ⟨u, hfind.symm, hk⟩
      obtain ⟨v, hv, hlive⟩ := Grid.isLive_iff.mp (hg'.isLive_left hwaits)
      obtain rfl := Option.some.inj (hfind.trans hv)
      have hfound : s.grid.find? k = s'.grid.find? k := h.board.found (hg'.isLive_right hwaits)
      rw [hlive, Bool.true_and, hfound]
    · simp [Query.WaitingFor.holds, hk]

theorem register_forgets (hg : s.grid.Orderly) (hg' : s'.grid.Orderly) (c : Chunk)
    (barrier : Option String) :
  Alike Forgets (register now c barrier) s (register now c barrier) s'
  := by
  have hsame : s.grid.isLive c.key = s'.grid.isLive c.key := h.board.isLive c.key
  cases hlive : s'.grid.isLive c.key with
  | true =>
    apply alike_of_yields (register_yields_of_orderly hg now barrier (hsame.trans hlive))
      (register_yields_of_orderly hg' now barrier hlive)
    rintro t _ t' _ ⟨ht, rfl⟩ ⟨ht', rfl⟩
    have hfound := h.board.found hlive
    exact ⟨Option.some.inj (ht.symm.trans (hfound.trans ht')), h⟩
  | false =>
    obtain ⟨hplan, hafter⟩ := h.planNew now c barrier
    apply alike_of_yields
      ((register_ends_planned h.board.working.filed now barrier (hsame.trans hlive)).mono
        (fun _ _ => id) (fun _ _ hnot => hnot h.board.working.works))
      ((register_ends_planned h.board.working'.filed now barrier hlive).mono
        (fun _ _ => id) (fun _ _ hnot => hnot h.board.working'.works))
    rintro _ t _ t' ⟨rfl, b, hb, rfl⟩ ⟨rfl, b', hb', rfl⟩
    use hplan
    rw [← hplan] at hb' ⊢
    have hboard : b.Forgets b' := by
      apply hafter.board.puts_one hb hb'
      · intro u hu v hv
        rw [List.mem_singleton.mp hu, List.mem_singleton.mp hv]
      · apply List.pairwise_singleton
      · intro u hu
        rw [List.mem_singleton.mp hu]
        apply (planNew_enrols s now c barrier).live
    split
    · apply (h.withBoard hboard).send
    · apply h.withBoard hboard

theorem recheck_forgets (hg : s.grid.Orderly) (hg' : s'.grid.Orderly) :
  Alike Forgets (recheck now) s (recheck now) s'
  := by
  apply alike_of_yields (recheck_yields_of_orderly h.board.working.filed hg)
    (recheck_yields_of_orderly h.board.working'.filed hg')
  rintro _ _ _ _ ⟨rfl, rfl⟩ ⟨rfl, rfl⟩
  exact ⟨rfl, h⟩

end Operations

theorem lockstep_forgets (now : Instant) :
  Lockstep now (Forgets : Scheduler p σ → Scheduler p' σ → Prop)
  where
  filed h := h.board.working'.filed
  maxEnqueued h := h.maxEnqueued
  queue h := h.queue now
  ready h phase := h.find (by cases phase <;> decide)
  found h _ hk := h.board.found hk
  updateMode h := h.updateMode now
  transition h k _ _ hsource htarget := transition_forgets h now k hsource htarget

/-! ### What is seen of live chunks -/

/-- The trackers of the first scheduler are the live ones of the second, and nothing that is asked
about live chunks tells the schedulers apart. -/
structure LooksLive (s : Scheduler p σ) (s' : Scheduler p' σ) : Prop where
  ready : s.ready = s'.ready
  trackers : s.grid.trackers = s'.grid.trackers.filter Tracker.isLive
  queue (now : Instant) (sink : Int32) (phase : Phase) :
    (s.book.get now sink).queue phase = (s'.book.get now sink).queue phase
  blocked (now : Instant) (sink : Int32) :
    (s.book.get now sink).blocked = (s'.book.get now sink).blocked
  find (status : Status) (sink : Option Int32) (limit : Option Nat) (hlive : status ≠ .completed) :
    s.find status sink limit = s'.find status sink limit
  jobBarrier (sink job : Int32) (matchKeys : SortedSet String) :
    s.jobBarrier sink job matchKeys = s'.jobBarrier sink job matchKeys
  firstKeyHolders (sink submitter : Int32) (matchKeys : SortedSet String) :
    s.firstKeyHolders sink submitter matchKeys = s'.firstKeyHolders sink submitter matchKeys
  prerequisites (t : Tracker) (barrier : Option String) :
    s.prerequisites t barrier = s'.prerequisites t barrier
  activeSinks : s.activeSinks none = s'.activeSinks none
  jobCount (sink : Int32) : s.jobCount sink = s'.jobCount sink
  latest : s.latest = s'.latest

theorem Forgets.looksLive (h : s.Forgets s') :
  s.LooksLive s'
  where
  ready := h.ready
  trackers := h.board.trackers
  queue := h.queue
  blocked now sink := by
    change (s.book.get now sink).forget.blocked = (s'.book.get now sink).forget.blocked
    rw [h.status]
  find _ sink limit hlive := h.find hlive sink limit
  jobBarrier _ _ _ := h.keys (fun _ ht => (of_decide_eq_true ht).1)
  firstKeyHolders _ _ matchKeys := by
    apply h.keys
    intro t ht
    rw [Query.FirstKey.holds] at ht
    cases hfirst : matchKeys.min? with
    | none => simp [hfirst] at ht
    | some first =>
      simp only [hfirst] at ht
      apply (of_decide_eq_true ht).1
  prerequisites := h.prerequisites
  activeSinks := by
    apply h.board.tally (Tally.addsUp_activeSinks none)
    intro c u hu
    simp [Tally.activeSinks, hu]
  jobCount sink := by
    apply h.board.tally (Tally.addsUp_jobCount sink)
    intro c u hu
    simp [Tally.jobCount, hu]
  latest := by
    apply h.board.tally Tally.addsUp_latest
    intro c u hu
    simp [Tally.latest, hu]

/-- Over empty stores nothing is retained yet. -/
theorem forgets_start (settings : Settings) (listening : Bool) {store store' : σ}
    (hworks : LawfulStore.works store) (hworks' : LawfulStore.works store') :
  (start { settings with retention := .purge } listening store).Forgets
    (start { settings with retention := .retain } listening store')
  := by
  constructor
  · constructor
    · exact ⟨hworks, Grid.wellFiled_empty⟩
    · exact ⟨hworks', Grid.wellFiled_empty⟩
    · intro k
      exact (Grid.find?_empty k).trans
        (congrArg (Option.filter Tracker.isLive) (Grid.find?_empty k)).symm
    · rfl
  all_goals rfl

end Scheduler

namespace Operation

variable {p p' : Partitioner} {σ : Type} [Store σ] [LawfulStore σ]
variable {s : Scheduler p σ} {s' : Scheduler p' σ} {o : Operation}

/-- Chunks are registered, completed, or got on their way, and nothing else is asked for. -/
def Schedules : Operation → Prop
  | register _ _ | complete _ | processingDone _ | bulkSchedule _ _ | recheck => True
  | _ => False

theorem Schedules.isCareful (h : o.Schedules) :
  o.IsCareful
  := by
  cases o <;> trivial

open Scheduler in
/-- An operation which schedules comes to the same whether history is purged or retained. -/
theorem perform_forgets (h : s.Forgets s') (hg : s.grid.Orderly) (hg' : s'.grid.Orderly)
    (ho : o.Schedules) (now : Instant) :
  Alike Forgets (o.perform now) s (o.perform now) s'
  := by
  cases o with
  | register c barrier => apply (register_forgets h now hg hg' c barrier).bind_pure
  | complete k => apply (complete_forgets h now hg' k).bind_pure
  | processingDone k => apply ((lockstep_forgets now).processingDone h k).bind_pure
  | bulkSchedule sink phase => apply ((lockstep_forgets now).bulkSchedule h sink phase).bind_pure
  | recheck => apply (recheck_forgets h now hg hg').bind_pure
  | _ => exact ho.elim

/-- Operation by operation, both runs come to the same. -/
theorem run_forgets (h : s.Forgets s') (hs : s.board.Sound ∧ s.grid.Orderly)
    (hs' : s'.board.Sound ∧ s'.grid.Orderly) {os : List (Instant × Operation)}
    (hos : ∀ o ∈ os, o.2.Schedules) :
  (run s os).1 = (run s' os).1 ∧ (run s os).2.Forgets (run s' os).2
  := by
  induction os generalizing s s' with
  | nil => exact ⟨rfl, h⟩
  | cons o rest ih =>
    have ho : o.2.Schedules := hos o List.mem_cons_self
    obtain ⟨houtcome, hafter⟩ := perform_forgets h hs.2 hs'.2 ho o.1
    obtain ⟨hanswers, hlast⟩ := ih hafter (perform_orderly hs ho.isCareful o.1)
      (perform_orderly hs' ho.isCareful o.1) (fun o' ho' => hos o' (List.mem_cons_of_mem o ho'))
    rw [run, run, houtcome]
    exact ⟨congrArg _ hanswers, hlast⟩

/--
Started over empty stores, and however often chunks are registered and completed, a scheduler which
purges what is completed and one which retains it answer alike, sent the same keys, and look alike
to whoever asks about live chunks.
-/
theorem retention_not_seen (settings : Settings) (listening : Bool) {store store' : σ}
    (hworks : LawfulStore.works store) (hrows : LawfulStore.rows store = ∅)
    (hworks' : LawfulStore.works store') (hrows' : LawfulStore.rows store' = ∅)
    {os : List (Instant × Operation)} (hos : ∀ o ∈ os, o.2.Schedules) :
  let r := run (Scheduler.start { settings with retention := .purge } listening store) os
  let r' := run (Scheduler.start { settings with retention := .retain } listening store') os
  r.1 = r'.1 ∧ r.2.LooksLive r'.2
  := by
  obtain ⟨hanswers, h⟩ := run_forgets (Scheduler.forgets_start settings listening hworks hworks')
    ⟨Board.sound_start hworks hrows, Grid.orderly_empty⟩
    ⟨Board.sound_start hworks' hrows', Grid.orderly_empty⟩ hos
  exact ⟨hanswers, h.looksLive⟩

/-- The second chunk waits for the first, which is completed twice and then comes back for another
sink; the second is processed and completed as well. -/
def comings : List (Instant × Operation) := [
  (default, .register (.sample 1 0 ["a"]) none),
  (default, .register (.sample 1 1 ["a"]) none),
  (default, .complete ⟨1, 0⟩),
  (default, .complete ⟨1, 0⟩),
  (default, .register ((Chunk.sample 1 0 ["a"]).to 2) none),
  (default, .processingDone ⟨1, 1⟩),
  (default, .complete ⟨1, 1⟩),
  (default, .bulkSchedule 1 .processing),
  (default, .recheck)]

/-- The chunk which came back is all that is left, or all that is live. -/
theorem retention_not_seen_of_comings :
  let r := run (Scheduler.start { Settings.standard with retention := .purge } true
    (Memory.ofList [])) comings
  let r' := run (Scheduler.start { Settings.standard with retention := .retain } true
    (Memory.ofList [])) comings
  LawfulStore.works (Memory.ofList []) ∧ LawfulStore.rows (Memory.ofList []) = ∅ ∧
    (∀ o ∈ comings, o.2.Schedules) ∧ r.1 = r'.1 ∧ r.2.LooksLive r'.2 ∧
    r.2.grid.trackers.map Tracker.key = [⟨1, 0⟩] ∧
    r'.2.grid.trackers.map Tracker.key = [⟨1, 0⟩, ⟨1, 1⟩] ∧
    r'.2.ready.sent = [⟨1, 0⟩, ⟨1, 1⟩, ⟨1, 0⟩]
  := by
  intro r r'
  have hworks : LawfulStore.works (Memory.ofList []) := trivial
  have hrows : LawfulStore.rows (Memory.ofList []) = ∅ := rfl
  have hos : ∀ o ∈ comings, o.2.Schedules := by
    simp [comings, Schedules]
  obtain ⟨hanswers, hlooks⟩ := retention_not_seen .standard true hworks hrows hworks hrows hos
  refine ⟨hworks, hrows, hos, hanswers, hlooks, ?_, ?_, ?_⟩
  · decide +kernel
  · decide +kernel
  · decide +kernel

end Operation

end ChunkDispatch
