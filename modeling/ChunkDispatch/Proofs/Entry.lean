import ChunkDispatch.Proofs.Adjustment
import Mathlib.Data.List.Nodup

/-!
# Entries into the queue for processing

A key *enters* the queue if its tracker is queued for processing and was not, or was not there,
before.  A log *records* the entries if it tells exactly the keys which enter, each once.  The log
of one commit does, and so does that of commits under which whoever is in the queue stays in it.  It
may come after commits under which some leave the queue, if they leave it for good.
-/

namespace ChunkDispatch

/-- Whether what is found is queued for processing. -/
def isQueued (found : Option Tracker) : Bool :=
  found.any (fun t => t.status = .queuedForProcessing)

/-- In another status a tracker is not in the queue. -/
theorem isQueued_of_status {status : Status} (h : status ≠ .queuedForProcessing) (t : Tracker)
    (ht : t.status = status) :
  isQueued (some t) = false
  := by
  apply decide_eq_false
  rw [ht]
  exact h

/-- What is in the queue is live. -/
theorem isQueued_of_not_live {found : Option Tracker}
    (h : found.any Tracker.isLive = false) :
  isQueued found = false
  := by
  cases found with
  | none => rfl
  | some t =>
    apply decide_eq_false
    intro hqueued
    simp [Tracker.isLive, Status.isLive, hqueued] at h

/-- Whether a key enters the queue under which `old` was found and is now `new`. -/
def enters (old new : Option Tracker) : Bool :=
  isQueued new && !isQueued old

theorem enters_self (found : Option Tracker) :
  enters found found = false
  := by
  rw [enters, Bool.and_not_self]

theorem enters_none (old : Option Tracker) :
  enters old none = false
  := rfl

theorem enters_iff {old new : Option Tracker} :
  enters old new = true ↔ isQueued new = true ∧ isQueued old = false
  := by
  simp [enters]

/-- Whether the event tells of an entry into the queue. -/
def EventKind.isEntry : EventKind → Bool
  | added _ _ status => status = .queuedForProcessing
  | updated _ _ source target => target = .queuedForProcessing ∧ source ≠ .queuedForProcessing
  | removed _ _ _ => false

/-- The keys which enter the queue as some events tell, in the order of the events. -/
def Event.entered (es : List Event) : List Key :=
  ((es.map kind).filter EventKind.isEntry).map EventKind.key

theorem Event.entered_append (es es' : List Event) :
  entered (es ++ es') = entered es ++ entered es'
  := by
  simp [entered]

/-! ### What may happen to a key -/

/-- Whoever is in the queue stays in it. -/
def Stays (old new : Option Tracker) : Prop :=
  isQueued old = true → isQueued new = true

/-- Nobody enters the queue. -/
def Avoids (old new : Option Tracker) : Prop :=
  isQueued new = true → isQueued old = true

/-- What is found stays, or becomes something else which satisfies `P`. -/
def Leaves (P : Option Tracker → Prop) (old new : Option Tracker) : Prop :=
  new = old ∨ P new

/-- Whoever is in the queue stays in it, and what satisfies `P` goes on doing so. -/
structure Keeps (P : Option Tracker → Prop) (old new : Option Tracker) : Prop where
  stays : Stays old new
  keeps : P old → P new

instance : Std.Refl Stays where
  refl _ := id

instance : IsTrans (Option Tracker) Stays where
  trans _ _ _ h h' := fun hold => h' (h hold)

instance : Std.Refl Avoids where
  refl _ := id

instance : IsTrans (Option Tracker) Avoids where
  trans _ _ _ h h' := fun hnew => h (h' hnew)

section Leaving

variable (P : Option Tracker → Prop)

instance : Std.Refl (Leaves P) where
  refl _ := Or.inl rfl

instance : IsTrans (Option Tracker) (Leaves P) where
  trans := by
    rintro _ _ _ h (rfl | h')
    · exact h
    · exact Or.inr h'

instance : Std.Refl (Keeps P) where
  refl _ := ⟨id, id⟩

instance : IsTrans (Option Tracker) (Keeps P) where
  trans _ _ _ h h' := ⟨fun hold => h'.stays (h.stays hold), fun hold => h'.keeps (h.keeps hold)⟩

end Leaving

theorem avoids_none (old : Option Tracker) :
  Avoids old none
  := by
  intro hqueued
  cases hqueued

/-- Who leaves the queue does not enter it. -/
theorem Leaves.avoids {P : Option Tracker → Prop} (hP : ∀ found, P found → isQueued found = false)
    {old new : Option Tracker} (h : Leaves P old new) :
  Avoids old new
  := by
  intro hqueued
  obtain rfl | h := h
  · exact hqueued
  · cases (hP new h).symm.trans hqueued

/-! ### Those who enter -/

namespace Grid

variable {p : Partitioner} {g g' g'' : Grid p} {ks ks' : List Key}

/-- The list holds exactly the keys which enter the queue as `g` becomes `g'`, each once. -/
structure Entered (g g' : Grid p) (ks : List Key) : Prop where
  nodup : ks.Nodup
  iff : ∀ k, k ∈ ks ↔ enters (g.find? k) (g'.find? k) = true

theorem entered_nil (h : ∀ k, enters (g.find? k) (g'.find? k) = false) :
  g.Entered g' []
  := by
  use List.Pairwise.nil
  intro k
  rw [h]
  simp

/-- If nobody but `k` can enter, the list is that of `k` or empty. -/
theorem entered_at {k : Key} {c : Prop} [Decidable c]
    (hother : ∀ j, j ≠ k → enters (g.find? j) (g'.find? j) = false)
    (hk : enters (g.find? k) (g'.find? k) = true ↔ c) :
  g.Entered g' (if c then [k] else [])
  := by
  split
  · rename_i hc
    use List.pairwise_singleton _ k
    intro j
    rw [List.mem_singleton]
    constructor
    · rintro rfl
      apply hk.mpr hc
    · intro henters
      by_contra hj
      cases (hother j hj).symm.trans henters
  · rename_i hc
    apply entered_nil
    intro j
    by_cases hj : j = k
    · rw [hj, Bool.eq_false_iff]
      exact fun henters => hc (hk.mp henters)
    · apply hother j hj

/-- Two lists of those who enter differ in their order alone. -/
theorem Entered.perm (h : g.Entered g' ks) (h' : g.Entered g' ks') :
  ks.Perm ks'
  := by
  apply (List.perm_ext_iff_of_nodup h.nodup h'.nodup).mpr
  intro k
  rw [h.iff, h'.iff]

/-- As long as whoever is in the queue stays in it, nobody enters twice. -/
theorem Entered.append (h : g.Entered g' ks) (h' : g'.Entered g'' ks')
    (hstays : ∀ k, Stays (g.find? k) (g'.find? k))
    (hstays' : ∀ k, Stays (g'.find? k) (g''.find? k)) :
  g.Entered g'' (ks ++ ks')
  := by
  constructor
  · apply List.nodup_append.mpr
    refine ⟨h.nodup, h'.nodup, ?_⟩
    rintro k hk _ hk' rfl
    obtain ⟨hqueued, -⟩ := enters_iff.mp ((h.iff k).mp hk)
    obtain ⟨-, hnot⟩ := enters_iff.mp ((h'.iff k).mp hk')
    cases hnot.symm.trans hqueued
  · intro k
    have hk : isQueued (g.find? k) = true → isQueued (g'.find? k) = true := hstays k
    have hk' : isQueued (g'.find? k) = true → isQueued (g''.find? k) = true := hstays' k
    rw [List.mem_append, h.iff, h'.iff]
    simp only [enters_iff]
    revert hk hk'
    cases isQueued (g.find? k) <;> cases isQueued (g'.find? k) <;>
      cases isQueued (g''.find? k) <;> decide

end Grid

namespace Board

open Event

variable {p : Partitioner} {σ : Type}

/-! ### The events of a commit -/

theorem emit_log (now : Instant) (old new : Option Tracker) (b : Board p σ) :
  ∃ es, (emit now old new b).log = b.log ++ es ∧
    es.map Event.kind = (EventKind.ofChange? old new).toList
  := by
  rw [emit]
  split
  · rename_i hnone
    use []
    rw [hnone]
    exact ⟨(List.append_nil _).symm, rfl⟩
  · rename_i kind hsome
    use [⟨b.lastSeq + 1, now, kind⟩]
    rw [hsome]
    exact ⟨rfl, rfl⟩

theorem place_log (now : Instant) (t : Tracker) (b : Board p σ) :
  ∃ es, (place now t b).log = b.log ++ es ∧
    entered es = if enters (b.grid.find? t.key) (some t) then [t.key] else []
  := by
  obtain ⟨es, hlog, hkinds⟩ := emit_log now (b.grid.find? t.key) (some t)
    { b with grid := b.grid.insert t }
  use es, hlog
  rw [entered, hkinds]
  cases b.grid.find? t.key with
  | none =>
    by_cases hqueued : t.status = .queuedForProcessing <;>
      simp [EventKind.ofChange?, EventKind.isEntry, EventKind.key, enters, isQueued, hqueued]
  | some u =>
    by_cases hqueued : t.status = .queuedForProcessing <;>
      by_cases hbefore : u.status = .queuedForProcessing <;>
        simp [EventKind.ofChange?, EventKind.isEntry, EventKind.key, enters, isQueued, hqueued,
          hbefore]

theorem drop_log (now : Instant) (k : Key) (b : Board p σ) :
  ∃ es, (drop now k b).log = b.log ++ es ∧ entered es = []
  := by
  obtain ⟨es, hlog, hkinds⟩ := emit_log now (b.grid.find? k) none
    { b with grid := b.grid.erase k }
  use es, hlog
  rw [entered, hkinds]
  cases b.grid.find? k <;> rfl

/-- Of trackers with distinct keys, placed one after another, each event tells what became of what
was there at first. -/
theorem foldl_place_log (now : Instant) {ts : List Tracker} (hts : (ts.map Tracker.key).Nodup)
    (b : Board p σ) :
  ∃ es, (ts.foldl (fun b t => b.place now t) b).log = b.log ++ es ∧
    entered es = (ts.filter (fun t => enters (b.grid.find? t.key) (some t))).map Tracker.key
  := by
  induction ts generalizing b with
  | nil => exact ⟨[], (List.append_nil _).symm, rfl⟩
  | cons t rest ih =>
    obtain ⟨ht, hrest⟩ := List.nodup_cons.mp hts
    obtain ⟨es, hlog, hentered⟩ := place_log now t b
    obtain ⟨es', hlog', hentered'⟩ := ih hrest (place now t b)
    have hfound : ∀ u ∈ rest, enters ((place now t b).grid.find? u.key) (some u)
        = enters (b.grid.find? u.key) (some u) := by
      intro u hu
      rw [place_grid, Grid.find?_insert, if_neg]
      intro hkey
      apply ht
      apply List.mem_map.mpr ⟨u, hu, hkey⟩
    use es ++ es'
    constructor
    · rw [List.foldl_cons, hlog', hlog, List.append_assoc]
    · rw [entered_append, hentered, hentered', List.filter_congr hfound, List.filter_cons]
      split <;> rfl

theorem foldl_drop_log (now : Instant) (ks : List Key) (b : Board p σ) :
  ∃ es, (ks.foldl (fun b k => b.drop now k) b).log = b.log ++ es ∧ entered es = []
  := by
  induction ks generalizing b with
  | nil => exact ⟨[], (List.append_nil _).symm, rfl⟩
  | cons k rest ih =>
    obtain ⟨es, hlog, hentered⟩ := drop_log now k b
    obtain ⟨es', hlog', hentered'⟩ := ih (drop now k b)
    use es ++ es'
    constructor
    · rw [List.foldl_cons, hlog', hlog, List.append_assoc]
    · rw [entered_append, hentered, hentered', List.append_nil]

/-! ### The log -/

/-- The events from `b` to `b'` tell exactly the keys which enter the queue, each once. -/
def Records (b b' : Board p σ) : Prop :=
  ∃ es, b'.log = b.log ++ es ∧ b.grid.Entered b'.grid (entered es)

variable [Store σ] [LawfulStore σ]
variable {b b' b'' : Board p σ} {P : Option Tracker → Option Tracker → Prop}

omit [Store σ] [LawfulStore σ] in
theorem records_of_eq (hgrid : b'.grid = b.grid) (hlog : b'.log = b.log) :
  b.Records b'
  := by
  refine ⟨[], ?_, ?_⟩
  · rw [hlog, List.append_nil]
  · rw [hgrid]
    apply Grid.entered_nil (fun k => enters_self _)

theorem Puts.records {now : Instant} {ts : List Tracker} (h : b.Puts now ts b')
    (hdistinct : (ts.map Tracker.key).Nodup) :
  b.Records b'
  := by
  have hfind := h.find?_grid
  obtain ⟨s, -, -, rfl⟩ := h
  obtain ⟨es, hlog, hentered⟩ := foldl_place_log now hdistinct { b with store := s }
  use es, hlog
  rw [hentered]
  constructor
  · apply List.Nodup.sublist _ hdistinct
    apply List.filter_sublist.map
  · intro k
    rw [hfind, List.mem_map]
    cases hk : ts.reverse.find? (fun t => t.key = k) with
    | none =>
      rw [Option.none_or, enters_self]
      constructor
      · rintro ⟨t, ht, hkey⟩
        have hnot := List.find?_eq_none.mp hk t (List.mem_reverse.mpr (List.mem_filter.mp ht).1)
        exact absurd (decide_eq_true hkey) hnot
      · intro hfalse
        cases hfalse
    | some t =>
      obtain rfl : t.key = k := by simpa using List.find?_some hk
      have ht : t ∈ ts := List.mem_reverse.mp (List.mem_of_find?_eq_some hk)
      rw [Option.some_or]
      constructor
      · rintro ⟨u, hu, hkey⟩
        obtain ⟨hu, henters⟩ := List.mem_filter.mp hu
        obtain rfl := List.inj_on_of_nodup_map hdistinct hu ht hkey
        exact henters
      · intro henters
        exact ⟨t, List.mem_filter.mpr ⟨ht, henters⟩, rfl⟩

theorem Deletes.records {now : Instant} {ks : List Key} (h : b.Deletes now ks b') :
  b.Records b'
  := by
  have hfind := h.find?_grid
  obtain ⟨s, -, -, rfl⟩ := h
  obtain ⟨es, hlog, hentered⟩ := foldl_drop_log now ks { b with store := s }
  use es, hlog
  rw [hentered]
  apply Grid.entered_nil
  intro k
  rw [hfind]
  split
  · apply enters_none
  · apply enters_self

/-- The log of one commit records the entries. -/
theorem Commit.records (h : b.Commit P b') :
  b.Records b'
  := by
  cases h with
  | refused h =>
    obtain ⟨-, s, -, rfl⟩ := h
    apply records_of_eq rfl rfl
  | put h hdistinct _ => apply h.records hdistinct
  | delete h _ => apply h.records
  | book h =>
    obtain ⟨book, rfl⟩ := h
    apply records_of_eq rfl rfl

/-- As long as whoever is in the queue stays in it, the log records the entries. -/
theorem Commits.records (h : b.Commits Stays b') :
  b.Records b'
  := by
  induction h with
  | refl => apply records_of_eq rfl rfl
  | tail hcommits hstep ih =>
    obtain ⟨es, hlog, hentered⟩ := ih
    obtain ⟨es', hlog', hentered'⟩ := hstep.records
    use es ++ es'
    constructor
    · rw [hlog', hlog, List.append_assoc]
    · rw [entered_append]
      apply hentered.append hentered'
      · exact fun k => Commits.rel hcommits k
      · exact fun k => hstep.rel k

/-- Where nobody enters the queue, no event tells of it. -/
theorem Commits.entered_of_avoids (h : b.Commits Avoids b') :
  ∃ es, b'.log = b.log ++ es ∧ entered es = []
  := by
  induction h with
  | refl => exact ⟨[], (List.append_nil _).symm, rfl⟩
  | tail _ hstep ih =>
    obtain ⟨es, hlog, hentered⟩ := ih
    obtain ⟨es', hlog', hentered'⟩ := hstep.records
    use es ++ es'
    constructor
    · rw [hlog', hlog, List.append_assoc]
    · rw [entered_append, hentered, List.nil_append]
      apply List.eq_nil_iff_forall_not_mem.mpr
      intro k hk
      obtain ⟨hqueued, hnot⟩ := enters_iff.mp ((hentered'.iff k).mp hk)
      cases hnot.symm.trans (hstep.rel k hqueued)

/-- After commits by which some left the queue for good the log still records the entries. -/
theorem Commits.records_of_leaves {P : Option Tracker → Prop}
    (hP : ∀ found, P found → isQueued found = false) (h : b.Commits (Leaves P) b')
    (h' : b'.Commits (Keeps P) b'') :
  b.Records b''
  := by
  obtain ⟨es, hlog, hnone⟩ := (h.mono (fun _ _ => Leaves.avoids hP)).entered_of_avoids
  obtain ⟨es', hlog', hentered⟩ := (h'.mono (fun _ _ => Keeps.stays)).records
  use es ++ es'
  constructor
  · rw [hlog', hlog, List.append_assoc]
  · rw [entered_append, hnone, List.nil_append]
    use hentered.nodup
    intro k
    rw [hentered.iff, enters_iff, enters_iff]
    apply and_congr_right
    -- Who is queued at the end has not left before, so nothing had happened to its key by then.
    intro hqueued
    obtain hsame | hleft := h.rel k
    · rw [hsame]
    · have hstill : P (b''.grid.find? k) := (h'.rel k).keeps hleft
      cases (hP _ hstill).symm.trans hqueued

end Board

/-! ### Changes and the queue -/

section Changes

variable (now : Instant)

theorem isQueued_amend {α : Type} (f : Tracker → α × Tracker) (t : Tracker) :
  isQueued (some (Board.amend now f t)) = decide ((f t).2.status = .queuedForProcessing)
  := by
  rw [← Board.amend_status now f t]
  rfl

/-- A change leaves the tracker as it is or makes it satisfy `P`. -/
theorem leaves_amend {α : Type} {P : Option Tracker → Prop} {f : Tracker → α × Tracker}
    {t : Tracker} (h : (f t).2 = t ∨ P (some (Board.amend now f t))) :
  Leaves P (some t) (some (Board.amend now f t))
  := by
  obtain hsame | hP := h
  · left
    rw [Board.amend_eq_of_unchanged]
    rw [Board.changed?, if_pos hsame]
  · exact Or.inr hP

/-- A tracker enters the queue by a release if the release says so. -/
theorem enters_release (j : Key) (t : Tracker) :
  enters (some t) (some (Board.amend now (Change.Release.apply ⟨j⟩) t)) = true
    ↔ (Change.Release.apply ⟨j⟩ t).1 = true
  := by
  rw [enters_iff, isQueued_amend]
  obtain ⟨hflag, hblocked, hqueued⟩ | ⟨hflag, hsame⟩ := Change.Release.apply_status ⟨j⟩ t
  · simp [isQueued, hflag, hblocked, hqueued]
  · simp [isQueued, hflag, hsame]

theorem enters_force (status : Status) (t : Tracker) :
  enters (some t) (some (Board.amend now (Change.Force.apply ⟨status⟩) t)) = true
    ↔ (Change.Force.apply ⟨status⟩ t).1 = true ∧ status = .queuedForProcessing
  := by
  rw [enters_iff, isQueued_amend]
  obtain ⟨heq, -⟩ | ⟨hflag, hstatus⟩ := Change.Force.apply_status ⟨status⟩ t
  · simp [isQueued, heq]
  · simp only [isQueued, hflag, hstatus]
    by_cases hqueued : status = .queuedForProcessing <;> simp [hqueued]

theorem enters_move (source target : Status) (t : Tracker) :
  enters (some t) (some (Board.amend now (Change.Move.apply ⟨source, target⟩) t)) = true
    ↔ (Change.Move.apply ⟨source, target⟩ t).1 = true ∧ target = .queuedForProcessing
  := by
  rw [enters_iff, isQueued_amend]
  obtain ⟨heq, -⟩ | ⟨hflag, hstatus, hne, htarget⟩ := Change.Move.apply_status ⟨source, target⟩ t
  · simp [isQueued, heq]
  · by_cases hqueued : target = .queuedForProcessing
    · subst hqueued
      simpa [isQueued, hflag, hstatus, htarget] using hne
    · simp [hflag, htarget, hqueued]

theorem stays_release (j : Key) (t : Tracker) :
  Stays (some t) (some (Board.amend now (Change.Release.apply ⟨j⟩) t))
  := by
  rw [Stays, isQueued_amend]
  obtain ⟨-, hblocked, -⟩ | ⟨-, hsame⟩ := Change.Release.apply_status ⟨j⟩ t
  · simp [isQueued, hblocked]
  · rw [hsame]
    exact id

theorem stays_force (t : Tracker) :
  Stays (some t) (some (Board.amend now (Change.Force.apply ⟨.queuedForProcessing⟩) t))
  := by
  rw [Stays, isQueued_amend]
  obtain ⟨heq, -⟩ | ⟨-, hstatus⟩ := Change.Force.apply_status ⟨.queuedForProcessing⟩ t
  · rw [heq]
    exact id
  · simp [hstatus]

theorem stays_move {source target : Status}
    (h : source = .queuedForProcessing → target = .queuedForProcessing) (t : Tracker) :
  Stays (some t) (some (Board.amend now (Change.Move.apply ⟨source, target⟩) t))
  := by
  rw [Stays, isQueued_amend]
  obtain ⟨heq, -⟩ | ⟨-, hstatus, -, htarget⟩ := Change.Move.apply_status ⟨source, target⟩ t
  · rw [heq]
    exact id
  · simpa [isQueued, hstatus, htarget] using h

/-- Who waits for the delivery goes on doing so when ready chunks get into the queue. -/
theorem keeps_delivery (t : Tracker) :
  Keeps (fun found => found.any (fun t => t.status = .readyForDelivery) = true) (some t)
    (some (Board.amend now (Change.Move.apply ⟨.readyForProcessing, .queuedForProcessing⟩) t))
  := by
  use stays_move now (by decide) t
  intro hstatus
  apply decide_eq_true
  rw [Board.amend_status]
  obtain ⟨heq, -⟩ | ⟨-, hsource, -⟩ := Change.Move.apply_status
    ⟨.readyForProcessing, .queuedForProcessing⟩ t
  · rw [heq]
    apply of_decide_eq_true hstatus
  · cases hsource.symm.trans (of_decide_eq_true hstatus)

/-- Raising a priority does not touch the queue. -/
theorem isQueued_raise (priority : Int32) (t : Tracker) :
  isQueued (some (Board.amend now (Change.Raise.apply ⟨priority⟩) t)) = isQueued (some t)
  := by
  rw [isQueued_amend, Change.Raise.apply_status]
  rfl

theorem leaves_force {P : Option Tracker → Prop} {status : Status}
    (hP : ∀ u : Tracker, u.status = status → P (some u)) (t : Tracker) :
  Leaves P (some t) (some (Board.amend now (Change.Force.apply ⟨status⟩) t))
  := by
  apply leaves_amend
  obtain ⟨heq, -⟩ | ⟨-, hstatus⟩ := Change.Force.apply_status ⟨status⟩ t
  · rw [heq]
    exact Or.inl rfl
  · right
    apply hP
    rw [Board.amend_status, hstatus]

theorem leaves_move {P : Option Tracker → Prop} {source target : Status}
    (hP : ∀ u : Tracker, u.status = target → P (some u)) (t : Tracker) :
  Leaves P (some t) (some (Board.amend now (Change.Move.apply ⟨source, target⟩) t))
  := by
  apply leaves_amend
  obtain ⟨heq, -⟩ | ⟨-, -, -, htarget⟩ := Change.Move.apply_status ⟨source, target⟩ t
  · rw [heq]
    exact Or.inl rfl
  · right
    apply hP
    rw [Board.amend_status, htarget]

theorem leaves_resend (t : Tracker) :
  Leaves (fun found => isQueued found = false) (some t)
    (some (Board.amend now (Change.Resend.apply ⟨⟩) t))
  := by
  apply leaves_amend
  obtain hsame | htarget := Change.Resend.apply_status ⟨⟩ t
  · exact Or.inl hsame
  · right
    rw [isQueued_amend, decide_eq_false_iff_not]
    intro hqueued
    rw [hqueued] at htarget
    revert htarget
    cases t.status <;> decide

end Changes

end ChunkDispatch
