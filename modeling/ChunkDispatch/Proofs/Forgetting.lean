import ChunkDispatch.Proofs.Completion
import ChunkDispatch.Proofs.Lockstep

/-!
# Boards which forget what is completed

A board *forgets* what another retains if its trackers are the live ones of the other, and its book
says the same but for the completed chunks.  Queries and tallies which pass completed trackers over
come to the same on both.  So do the writes: to put live trackers or to change them in place is
alike, and deleting a tracker in the one goes with completing it in the other.
-/

namespace ChunkDispatch

open Attempt

/-! ### Books without the completed chunks -/

/-- The sink as if no chunk of it were completed. -/
def SinkStatus.forget (s : SinkStatus) : SinkStatus :=
  { s with completed := 0 }

/-- The book as if no chunk were completed. -/
def Book.forget (b : Book) : Book :=
  ⟨b.sinks.map SinkStatus.forget⟩

namespace SinkStatus

@[simp]
theorem queue_forget (s : SinkStatus) (phase : Phase) :
  s.forget.queue phase = s.queue phase
  := by
  cases phase <;> rfl

theorem forget_mapQueue (s : SinkStatus) (phase : Phase) (f : Queue → Queue) :
  (s.mapQueue phase f).forget = s.forget.mapQueue phase f
  := by
  cases phase <;> rfl

theorem forget_mapCount (s : SinkStatus) (status : Status) (f : Nat → Nat) :
  (s.mapCount status f).forget
    = if status = .completed then s.forget else s.forget.mapCount status f
  := by
  cases status <;> rfl

end SinkStatus

namespace Book

variable {now : Instant} {b : Book}

theorem get_forget (b : Book) (now : Instant) (sink : Int32) :
  b.forget.get now sink = (b.get now sink).forget
  := by
  rw [get, get, forget, SortedMap.find?_map]
  cases b.sinks.find? sink <;> rfl

theorem forget_put (sink : Int32) (s : SinkStatus) (b : Book) :
  (b.put sink s).forget = b.forget.put sink s.forget
  := by
  apply congrArg Book.mk
  apply SortedMap.ext
  intro k
  simp only [put, forget, SortedMap.find?_map, SortedMap.find?_insert]
  split <;> rfl

/-- A change which does the same once the completed chunks are forgotten may be made before it. -/
theorem forget_update (sink : Int32) {f g : SinkStatus → SinkStatus}
    (h : ∀ s, (f s).forget = g s.forget) :
  (b.update now sink f).forget = b.forget.update now sink g
  := by
  rw [update, forget_put, h, ← get_forget, update]

theorem forget_updateMode (b : Book) (max mark : Nat) (now : Instant) (sink : Int32)
    (phase : Phase) :
  b.forget.updateMode max mark now sink phase
    = ((b.updateMode max mark now sink phase).1, (b.updateMode max mark now sink phase).2.forget)
  := by
  simp only [updateMode, get_forget, SinkStatus.queue_forget, forget_put,
    SinkStatus.forget_mapQueue]

/-- A live tracker comes in the place of a completed one as in an empty place. -/
theorem forget_afterChange_live (old : Option Tracker) {u : Tracker} (hu : u.isLive = true) :
  (b.afterChange now old (some u)).forget
    = b.forget.afterChange now (old.filter Tracker.isLive) (some u)
  := by
  have hstatus : u.status ≠ .completed := by simpa [Tracker.isLive, Status.isLive] using hu
  have hadd : (b.update now u.sink (·.add u.status)).forget
      = b.forget.update now u.sink (·.add u.status) := by
    apply forget_update
    intro s
    rw [SinkStatus.add, SinkStatus.forget_mapCount, if_neg hstatus]
  cases old with
  | none => apply hadd
  | some t =>
    simp only [afterChange, EventKind.ofChange?, observe]
    cases ht : t.isLive with
    | true =>
      have hsource : t.status ≠ .completed := by simpa [Tracker.isLive, Status.isLive] using ht
      rw [Option.filter_some, if_pos ht]
      simp only []
      split
      · rfl
      · apply forget_update
        intro s
        rw [SinkStatus.add, SinkStatus.remove, SinkStatus.forget_mapCount, if_neg hstatus,
          SinkStatus.forget_mapCount, if_neg hsource]
    | false =>
      have hsource : t.status = .completed := by simpa [Tracker.isLive, Status.isLive] using ht
      rw [Option.filter_some, if_neg (Bool.eq_false_iff.mp ht), hsource, if_neg (Ne.symm hstatus)]
      apply forget_update
      intro s
      rw [SinkStatus.add, SinkStatus.remove, SinkStatus.forget_mapCount, if_neg hstatus,
        SinkStatus.forget_mapCount, if_pos rfl]

/-- What is completed in its sink is forgotten as if it were removed. -/
theorem forget_afterChange_completed {t u : Tracker} (hsink : u.sink = t.sink)
    (hu : u.status = .completed) :
  (b.afterChange now (some t) (some u)).forget
    = b.forget.afterChange now ((some t).filter Tracker.isLive) none
  := by
  simp only [afterChange, EventKind.ofChange?, observe, hu, hsink]
  by_cases hsource : t.status = .completed
  · rw [if_pos hsource, Option.filter_some, if_neg]
    simp [Tracker.isLive, Status.isLive, hsource]
  · have ht : t.isLive = true := by simpa [Tracker.isLive, Status.isLive] using hsource
    rw [if_neg hsource, Option.filter_some, if_pos ht]
    apply forget_update
    intro s
    rw [SinkStatus.add, SinkStatus.remove, SinkStatus.forget_mapCount, if_pos rfl,
      SinkStatus.forget_mapCount, if_neg hsource]

/-- The removal of what is live is not forgotten. -/
theorem forget_afterChange_none (old : Option Tracker) :
  (b.afterChange now (old.filter Tracker.isLive) none).forget
    = b.forget.afterChange now (old.filter Tracker.isLive) none
  := by
  cases ht : old.filter Tracker.isLive with
  | none => rfl
  | some t =>
    obtain ⟨-, hlive⟩ := Option.filter_eq_some_iff.mp ht
    have hstatus : t.status ≠ .completed := by simpa [Tracker.isLive, Status.isLive] using hlive
    apply forget_update
    intro s
    rw [SinkStatus.remove, SinkStatus.forget_mapCount, if_neg hstatus]

theorem forget_foldl_afterChange {ts : List Tracker} (hlive : ∀ t ∈ ts, t.isLive = true)
    (found : Key → Option Tracker) (b : Book) :
  (ts.foldl (fun book t => book.afterChange now (found t.key) (some t)) b).forget
    = ts.foldl (fun book t =>
        book.afterChange now ((found t.key).filter Tracker.isLive) (some t)) b.forget
  := by
  induction ts generalizing b with
  | nil => rfl
  | cons t rest ih =>
    rw [List.foldl_cons, ih (fun u hu => hlive u (List.mem_cons_of_mem t hu)), List.foldl_cons,
      forget_afterChange_live _ (hlive t List.mem_cons_self)]

end Book

/-! ### Boards -/

namespace Board

variable {p p' : Partitioner} {σ : Type} [Store σ] [LawfulStore σ]
variable {b b₁ : Board p σ} {b' b₁' : Board p' σ} {now : Instant}

/-- Both boards work, and the first has the live trackers of the second and its book but for the
completed chunks. -/
structure Forgets (b : Board p σ) (b' : Board p' σ) : Prop where
  working : b.Working
  working' : b'.Working
  find? : ∀ k, b.grid.find? k = (b'.grid.find? k).filter Tracker.isLive
  book : b.book.forget = b'.book.forget

namespace Forgets

variable (h : b.Forgets b')

include h

theorem isLive (k : Key) :
  b.grid.isLive k = b'.grid.isLive k
  := Grid.isLive_of_filter h.find? k

/-- Both boards find the tracker of a live chunk. -/
theorem found {k : Key} (hk : b'.grid.isLive k = true) :
  b.grid.find? k = b'.grid.find? k
  := by
  obtain ⟨t, ht, hlive⟩ := Grid.isLive_iff.mp hk
  rw [h.find?, ht, Option.filter_some, if_pos hlive]

theorem oneMap :
  b.grid.oneMap = b'.grid.oneMap.filter (fun _ t => t.isLive)
  := by
  apply Grid.oneMap_eq h.working.filed
  intro k
  rw [h.find?, SortedMap.find?_filter, Grid.find?_oneMap h.working'.filed]

theorem trackers :
  b.grid.trackers = b'.grid.trackers.filter Tracker.isLive
  := by
  rw [Grid.trackers_eq h.working.filed, Grid.trackers_eq h.working'.filed, h.oneMap,
    SortedMap.values_filter]

/-- A query for live trackers gathers the same. -/
theorem select {q : Tracker → Bool} (hq : ∀ t, q t = true → t.isLive = true) :
  b.grid.select q = b'.grid.select q
  := by
  apply SortedMap.ext
  intro k
  rw [Grid.find?_select h.working.filed, Grid.find?_select h.working'.filed, h.find?,
    Option.filter_filter]
  congr 1
  funext t
  cases ht : q t with
  | true => rw [hq t ht, Bool.and_true]
  | false => rw [Bool.and_false]

/-- A tally which passes completed trackers over comes to the same. -/
theorem tally {τ β : Type} {t : Tally τ β} (ht : t.AddsUp)
    (hskip : ∀ c u, u.isLive = false → t.add c u = c) :
  b.grid.tally t = b'.grid.tally t
  := by
  rw [Grid.tally_eq ht h.working.filed, Grid.tally_eq ht h.working'.filed, h.oneMap,
    SortedMap.values_filter, Tally.part, Tally.part, List.foldl_filter]
  congr 2
  funext c u
  split
  · rfl
  · rename_i hu
    rw [hskip c u (Bool.eq_false_iff.mpr hu)]

/-- The boards put the same live trackers, in whatever order if it does not matter. -/
theorem puts {ts ts' : List Tracker} (hb : b.Puts now ts b₁) (hb' : b'.Puts now ts' b₁')
    (hperm : ts.Perm ts') (hdistinct : (ts.map Tracker.key).Nodup)
    (hlive : ∀ t ∈ ts, t.isLive = true)
    (hcomm : ∀ t ∈ ts, ∀ u ∈ ts, ∀ book : Book,
      (book.afterChange now (b.grid.find? t.key) (some t)).afterChange now
          (b.grid.find? u.key) (some u)
        = (book.afterChange now (b.grid.find? u.key) (some u)).afterChange now
          (b.grid.find? t.key) (some t)) :
  b₁.Forgets b₁'
  := by
  have hfound := Tracker.find?_reverse_perm hperm hdistinct
  use hb.working h.working, hb'.working h.working'
  · intro k
    rw [hb.find?_grid, hb'.find?_grid, hfound, h.find?]
    cases ht : ts'.reverse.find? (fun t => t.key = k) with
    | none => rfl
    | some t =>
      have hmem := List.mem_reverse.mp (List.mem_of_find?_eq_some ht)
      rw [Option.some_or, Option.some_or, Option.filter_some,
        if_pos (hlive t (hperm.mem_iff.mpr hmem))]
  · rw [hb.book hdistinct, hb'.book ((hperm.map _).nodup_iff.mp hdistinct),
      Book.forget_foldl_afterChange hlive,
      Book.forget_foldl_afterChange (fun t ht => hlive t (hperm.mem_iff.mpr ht)), ← h.book]
    have hsame : ∀ k, (b.grid.find? k).filter Tracker.isLive = b.grid.find? k := by
      intro k
      rw [h.find?, Option.filter_filter]
      simp
    simp only [hsame, ← h.find?]
    apply hperm.foldl_eq' hcomm

/-- One live tracker put is put in one order. -/
theorem puts_one {ts : List Tracker} (hb : b.Puts now ts b₁) (hb' : b'.Puts now ts b₁')
    (hone : ∀ t ∈ ts, ∀ u ∈ ts, t = u) (hdistinct : (ts.map Tracker.key).Nodup)
    (hlive : ∀ t ∈ ts, t.isLive = true) :
  b₁.Forgets b₁'
  := by
  apply h.puts hb hb' (List.Perm.refl ts) hdistinct hlive
  rintro t ht u hu book
  rw [hone t ht u hu]

/-- Trackers are amended alike where the second board asks for the live ones the first asks for. -/
theorem adjustWhere {α : Type} (now : Instant) {q q' : Tracker → Bool} {f : Tracker → α × Tracker}
    (hf : ∀ t, (f t).2.key = t.key) (hreleases : ∀ t, Book.Releases t (f t).2)
    (hlive : ∀ t, (f t).2.isLive = t.isLive)
    (hq : ∀ k t, b'.grid.find? k = some t → (t.isLive && q t) = q' t) :
  Alike Forgets (adjustWhere now q f) b (adjustWhere now q' f) b'
  := by
  have hselected : b.grid.oneMap.filter (fun _ t => q t)
      = b'.grid.oneMap.filter (fun _ t => q' t) := by
    apply SortedMap.ext
    intro k
    rw [SortedMap.find?_filter, SortedMap.find?_filter, Grid.find?_oneMap h.working.filed,
      Grid.find?_oneMap h.working'.filed, h.find?, Option.filter_filter]
    cases ht : b'.grid.find? k with
    | none => rfl
    | some t => simp only [Option.filter_some, hq k t ht]
  have hchanged : changedWhere now q f b.grid.trackers
      = changedWhere now q' f b'.grid.trackers := by
    rw [changedWhere, changedWhere, Grid.trackers_eq h.working.filed,
      Grid.trackers_eq h.working'.filed, ← SortedMap.values_filter, hselected,
      SortedMap.values_filter]
  have hfound : ∀ u ∈ changedWhere now q f b.grid.trackers, u.isLive = true ∧
      ∃ t, b.grid.find? u.key = some t ∧ Book.Releases t u := by
    intro u hu
    refine ⟨?_, releases_of_mem_changedWhere hf q hreleases h.working.filed hu⟩
    obtain ⟨t, ht, rfl⟩ := exists_of_mem_changedWhere hf q h.working.filed hu
    rw [h.find?, Option.filter_eq_some_iff] at ht
    rw [amend_isLive, hlive, ht.2]
  apply alike_of_yields
    ((adjustWhere_oneMap h.working now q hf).and (adjustWhere_puts h.working now q hf))
    ((adjustWhere_oneMap h.working' now q' hf).and (adjustWhere_puts h.working' now q' hf))
  rintro _ b₁ _ b₁' ⟨⟨rfl, -⟩, ts, hts, hb⟩ ⟨⟨rfl, -⟩, ts', hts', hb'⟩
  constructor
  · rw [hselected]
  · apply h.puts hb hb'
    · apply hts.trans
      rw [hchanged]
      apply hts'.symm
    · apply (hts.map _).nodup_iff.mpr (nodup_changedWhere hf q h.working.filed)
    · exact fun u hu => (hfound u (hts.mem_iff.mp hu)).1
    · intro u hu v hv book
      obtain ⟨-, t, ht, htu⟩ := hfound u (hts.mem_iff.mp hu)
      obtain ⟨-, t', ht', htv⟩ := hfound v (hts.mem_iff.mp hv)
      rw [ht, ht']
      apply Book.afterChange_comm htu htv

/-- A move out of a live status is made in both boards or in neither. -/
theorem changedAt_move {source : Status} (hsource : source ≠ .completed) (target : Status)
    (now : Instant) (k : Key) :
  ((b.grid.find? k).map (fun t => (Change.Move.apply ⟨source, target⟩ t).1) = some true
      ↔ (b'.grid.find? k).map (fun t => (Change.Move.apply ⟨source, target⟩ t).1) = some true) ∧
    changedAt now (Change.Move.apply ⟨source, target⟩) b.grid k
      = changedAt now (Change.Move.apply ⟨source, target⟩) b'.grid k
  := by
  rw [changedAt, changedAt, h.find?]
  cases b'.grid.find? k with
  | none => exact ⟨Iff.rfl, rfl⟩
  | some t =>
    rw [Option.filter_some]
    cases ht : t.isLive with
    | true => exact ⟨Iff.rfl, rfl⟩
    | false =>
      have hstatus : t.status ≠ source := by
        rintro rfl
        apply hsource
        simpa [Tracker.isLive, Status.isLive] using ht
      simp [Change.Move.apply, hstatus, changed?]

/-- What the one deletes the other completes. -/
theorem retire {k : Key} (hb : b.Deletes now [k] b₁)
    (hb' : b'.Puts now (changedAt now (Change.Force.apply ⟨.completed⟩) b'.grid k) b₁') :
  b₁.Forgets b₁'
  := by
  use hb.working h.working, hb'.working h.working'
  · intro j
    rw [hb.find?_grid, find?_changedAt (Change.Force.apply_key _) h.working'.filed hb', h.find?]
    simp only [List.mem_singleton]
    split
    · cases b'.grid.find? k with
      | none => rfl
      | some t =>
        rw [Option.map_some, Option.filter_some, if_neg]
        rw [amend_isLive]
        exact Bool.false_ne_true
    · rfl
  · rw [hb.book (List.pairwise_singleton _ _), List.foldl_cons, List.foldl_nil,
      hb'.book_changedAt (Change.Force.apply_key _) h.working'.filed, h.find?,
      Book.forget_afterChange_none, h.book]
    cases b'.grid.find? k with
    | none => rfl
    | some t =>
      rw [Option.elim_some, Book.forget_afterChange_completed]
      · apply congrArg Lane.sink (trims_amend now (Change.Force.trims _ t)).lane
      · rw [amend_status]
        rfl

end Forgets

end Board

end ChunkDispatch
