import ChunkDispatch.Proofs.MatchKey
import ChunkDispatch.Proofs.Orderly
import ChunkDispatch.Proofs.Prerequisites
import ChunkDispatch.Proofs.Scheduler
import ChunkDispatch.Scheduler.Registration

/-!
# What a registration does

A live holder of a hash is *eligible* for a new tracker if it has another key and does not wait for
the key of the tracker, and of the eligible holders of a hash the *latest* is the one with the
greatest key.  A new tracker waits for the latest holders of its hashes which no other latest holder
waits for; it is put into the grid, and nothing else changes.  A key which is live already is not
registered anew, and an orderly grid stays as it is.
-/

namespace ChunkDispatch

open Relation

namespace Grid

variable {p : Partitioner} {g : Grid p} {t : Tracker}

/-- The key `k` is that of a live holder of the hash which the new tracker `t` may wait for. -/
def Eligible (g : Grid p) (t : Tracker) (h : Int32) (k : Key) : Prop :=
  g.Holds t.lane h k ∧ k ≠ t.key ∧ ¬ g.Waits k t.key

/-- The key `d` is the greatest of the eligible holders of one of the hashes. -/
def Latest (g : Grid p) (t : Tracker) (d : Key) : Prop :=
  ∃ h ∈ t.hashes, g.Eligible t h d ∧ ∀ k, g.Eligible t h k → k ≤ d

theorem Latest.shares {d : Key} (hd : g.Latest t d) :
  g.Shares t d
  := by
  obtain ⟨h, hh, hd, -⟩ := hd
  use h, hh
  apply hd.1

theorem Latest.ne {d : Key} (hd : g.Latest t d) :
  d ≠ t.key
  := by
  obtain ⟨_, _, ⟨-, hne, -⟩, -⟩ := hd
  apply hne

/-- Who is eligible depends on the key, the lane and the hashes of the new tracker alone. -/
theorem latest_congr {u : Tracker} (hkey : u.key = t.key) (hlane : u.lane = t.lane)
    (hhashes : ∀ h, h ∈ u.hashes ↔ h ∈ t.hashes) (d : Key) :
  g.Latest u d ↔ g.Latest t d
  := by
  unfold Latest Eligible
  simp only [hkey, hlane, hhashes]

/-- If nobody waits for the new tracker, the latest holders are the greatest ones of the hashes. -/
theorem latest_iff (hnew : g.isLive t.key = false) (hawaited : ∀ k, ¬ g.Waits k t.key) {d : Key} :
  g.Latest t d ↔ ∃ h ∈ t.hashes, g.IsGreatestHolder t.lane h d
  := by
  have heligible : ∀ h k, g.Eligible t h k ↔ g.Holds t.lane h k := by
    intro h k
    constructor
    · apply And.left
    · intro hk
      refine ⟨hk, ?_, hawaited k⟩
      rintro rfl
      cases hnew.symm.trans hk.isLive
  simp only [Latest, IsGreatestHolder, heligible]

theorem Orderly.latest_iff (hg : g.Orderly) (hnew : g.isLive t.key = false) {d : Key} :
  g.Latest t d ↔ ∃ h ∈ t.hashes, g.IsGreatestHolder t.lane h d
  := by
  apply Grid.latest_iff hnew
  intro k hwaits
  cases hnew.symm.trans (hg.isLive_right hwaits)

end Grid

/-- Asked for are the given hashes and the one of the barrier. -/
theorem Query.Sharing.mem_of_hashes {sink submitter : Int32} {hashes : List Int32}
    {barrier : Option String} {h : Int32} :
  h ∈ (of sink submitter hashes barrier).hashes
    ↔ h ∈ hashes ∨ ∃ b, barrier = some b ∧ MatchKey.hash b = h
  := by
  rw [of, ← SortedSet.mem_iff, SortedSet.mem_ofList, List.mem_append, Option.mem_toList,
    Option.map_eq_some_iff]

namespace Scheduler

open Attempt

variable {p : Partitioner} {σ : Type} {P : Option Tracker → Option Tracker → Prop} {F : Prop}
variable {s : Scheduler p σ}

/-! ### Prerequisites -/

/-- The hashes asked for when a tracker is registered with a barrier. -/
def wanted (t : Tracker) (barrier : Option String) : List Int32 :=
  (Query.Sharing.of t.sink t.submitter t.hashes barrier).hashes

theorem mem_wanted {t : Tracker} {barrier : Option String}
    (hbarrier : ∀ b, barrier = some b → MatchKey.hash b ∈ t.hashes) {h : Int32} :
  h ∈ wanted t barrier ↔ h ∈ t.hashes
  := by
  rw [wanted, Query.Sharing.mem_of_hashes]
  apply or_iff_left_of_imp
  rintro ⟨b, hb, rfl⟩
  apply hbarrier b hb

/-- The trackers of the lane which a new tracker may have to wait for. -/
def candidates (s : Scheduler p σ) (t : Tracker) (barrier : Option String) : List Tracker :=
  (s.grid.values (Query.Sharing.of t.sink t.submitter t.hashes barrier).holds).filter
    (fun c => c.key ≠ t.key ∧ t.key ∉ c.waitingOn)

theorem mem_candidates (hs : s.grid.WellFiled) {t : Tracker} {barrier : Option String}
    {c : Tracker} :
  c ∈ s.candidates t barrier ↔ s.grid.find? c.key = some c ∧ c.isLive = true ∧ c.lane = t.lane ∧
    (∃ h ∈ wanted t barrier, c.hasHash h = true) ∧ c.key ≠ t.key ∧ t.key ∉ c.waitingOn
  := by
  have hlane : c.lane = t.lane ↔ c.sink = t.sink ∧ c.submitter = t.submitter := by
    simp [Tracker.lane]
  rw [candidates, List.mem_filter, Grid.mem_values hs, hlane]
  simp only [Query.Sharing.holds, wanted, decide_eq_true_eq, List.any_eq_true]
  simp only [Query.Sharing.of, and_assoc]

theorem distinctKeys_candidates (hs : s.grid.WellFiled) (t : Tracker) (barrier : Option String) :
  Prerequisites.DistinctKeys (s.candidates t barrier)
  := by
  intro c hc c' hc' hkey
  obtain ⟨hfind, -⟩ := (mem_candidates hs).mp hc
  obtain ⟨hfind', -⟩ := (mem_candidates hs).mp hc'
  rw [hkey] at hfind
  apply Option.some.inj (hfind.symm.trans hfind')

theorem mem_prerequisites (hs : s.grid.WellFiled) {t : Tracker} {barrier : Option String}
    {j : Key} :
  j ∈ s.prerequisites t barrier ↔
    (∃ c, Prerequisites.IsLatest (wanted t barrier) (s.candidates t barrier) c ∧ c.key = j) ∧
      ∀ c, Prerequisites.IsLatest (wanted t barrier) (s.candidates t barrier) c →
        j ∉ c.waitingOn
  := by
  rw [prerequisites]
  split
  · rename_i hempty
    obtain ⟨hhashes, hbarrier⟩ := hempty
    have hwanted : wanted t barrier = [] := by
      rw [wanted, List.isEmpty_iff.mp hhashes, Option.isNone_iff_eq_none.mp hbarrier]
      rfl
    constructor
    · intro hj
      exact absurd hj List.not_mem_nil
    · rintro ⟨⟨c, ⟨_, h, hh, _⟩, _⟩, -⟩
      rw [hwanted] at hh
      exact absurd hh List.not_mem_nil
  · apply Prerequisites.mem_minimal_iff (distinctKeys_candidates hs t barrier)

/-- A prerequisite is live and has another key. -/
theorem isLive_of_mem_prerequisites (hs : s.grid.WellFiled) {t : Tracker}
    {barrier : Option String} {j : Key} (hj : j ∈ s.prerequisites t barrier) :
  s.grid.isLive j = true ∧ j ≠ t.key
  := by
  obtain ⟨⟨c, ⟨hc, -⟩, rfl⟩, -⟩ := (mem_prerequisites hs).mp hj
  obtain ⟨hfind, hlive, -, -, hne, -⟩ := (mem_candidates hs).mp hc
  use Grid.isLive_iff.mpr ⟨c, hfind, hlive⟩

section Ordered

variable {t : Tracker} {barrier : Option String}

/-- The tracker as one which has the hashes asked for. -/
def asking (t : Tracker) (barrier : Option String) : Tracker :=
  { t with hashes := wanted t barrier }

section Candidates

variable (hs : s.grid.WellFiled)
variable (hordered : ∀ k u, s.grid.find? k = some u → u.hashes.Pairwise (· ≤ ·))

include hs hordered

/-- Of the trackers in the grid the candidates with a hash are those which are eligible. -/
theorem eligible_iff {h : Int32} (hh : h ∈ wanted t barrier) {k : Key} :
  s.grid.Eligible t h k ↔ ∃ c ∈ s.candidates t barrier, c.hasHash h = true ∧ c.key = k
  := by
  constructor
  · rintro ⟨⟨c, hc, hlive, hlane, hch⟩, hne, hnot⟩
    obtain rfl := hs.key hc
    have hhash : c.hasHash h = true := (Tracker.hasHash_iff (hordered _ c hc)).mpr hch
    refine ⟨c, (mem_candidates hs).mpr ⟨hc, hlive, hlane, ⟨h, hh, hhash⟩, hne, ?_⟩, hhash, rfl⟩
    intro hmem
    apply hnot ⟨c, hc, hmem⟩
  · rintro ⟨c, hc, hch, rfl⟩
    obtain ⟨hfind, hlive, hlane, -, hne, hnot⟩ := (mem_candidates hs).mp hc
    refine ⟨⟨c, hfind, hlive, hlane, Tracker.mem_hashes_of_hasHash hch⟩, hne, ?_⟩
    rintro ⟨c', hc', hmem⟩
    obtain rfl : c = c' := Option.some.inj (hfind.symm.trans hc')
    apply hnot hmem

theorem isLatest_iff {c : Tracker} :
  Prerequisites.IsLatest (wanted t barrier) (s.candidates t barrier) c
    ↔ s.grid.find? c.key = some c ∧ s.grid.Latest (asking t barrier) c.key
  := by
  constructor
  · rintro ⟨hc, h, hh, hch, hmax⟩
    use ((mem_candidates hs).mp hc).1, h, hh
    constructor
    · apply (eligible_iff hs hordered hh).mpr ⟨c, hc, hch, rfl⟩
    · intro k hk
      obtain ⟨c', hc', hch', rfl⟩ := (eligible_iff hs hordered hh).mp hk
      apply hmax c' hc' hch'
  · rintro ⟨hfind, h, hh, hc, hmax⟩
    obtain ⟨c', hc', hch', hkey⟩ := (eligible_iff hs hordered hh).mp hc
    obtain ⟨hfind', -⟩ := (mem_candidates hs).mp hc'
    rw [hkey] at hfind'
    obtain rfl : c = c' := Option.some.inj (hfind.symm.trans hfind')
    refine ⟨hc', h, hh, hch', ?_⟩
    intro u hu huh
    apply hmax u.key ((eligible_iff hs hordered hh).mpr ⟨u, hu, huh, rfl⟩)

/-- The prerequisites are the latest holders which no other latest holder waits for. -/
theorem mem_prerequisites_iff_asking {j : Key} :
  j ∈ s.prerequisites t barrier ↔ s.grid.Latest (asking t barrier) j ∧
    ∀ d, s.grid.Latest (asking t barrier) d → ¬ s.grid.Waits d j
  := by
  have htracked : ∀ {d}, s.grid.Latest (asking t barrier) d → ∃ c, s.grid.find? d = some c := by
    rintro d ⟨_, _, ⟨⟨c, hc, -⟩, -⟩, -⟩
    use c
  rw [mem_prerequisites hs]
  simp only [isLatest_iff hs hordered]
  apply and_congr
  · constructor
    · rintro ⟨c, ⟨-, hlatest⟩, rfl⟩
      apply hlatest
    · intro hj
      obtain ⟨c, hc⟩ := htracked hj
      obtain rfl := hs.key hc
      exact ⟨c, ⟨hc, hj⟩, rfl⟩
  · constructor
    · rintro hnot d hd ⟨c, hc, hmem⟩
      obtain rfl := hs.key hc
      apply hnot c ⟨hc, hd⟩ hmem
    · rintro hnot c ⟨hc, hd⟩ hmem
      apply hnot c.key hd ⟨c, hc, hmem⟩

end Candidates

/-- A new tracker waits for the latest holders which no other latest holder waits for. -/
theorem mem_prerequisites_iff (hs : s.grid.WellFiled) (htidy : s.grid.Tidy)
    (hbarrier : ∀ b, barrier = some b → MatchKey.hash b ∈ t.hashes) {j : Key} :
  j ∈ s.prerequisites t barrier
    ↔ s.grid.Latest t j ∧ ∀ d, s.grid.Latest t d → ¬ s.grid.Waits d j
  := by
  have hlatest : ∀ d, s.grid.Latest (asking t barrier) d ↔ s.grid.Latest t d := by
    have hkey : (asking t barrier).key = t.key := rfl
    apply Grid.latest_congr hkey rfl
    exact fun _ => mem_wanted hbarrier
  rw [mem_prerequisites_iff_asking hs (fun k u hu => (htidy.ascending k u hu).imp Std.le_of_lt)]
  simp only [hlatest]

end Ordered

/-! ### New chunks -/

/-- The tracker of a chunk with a barrier, before it is known what it has to wait for. -/
def newcomer (now : Instant) (c : Chunk) (barrier : Option String) : Tracker :=
  (barrier.elim c (fun b => c.withMatchKey b)).track now

/-- The tracker `t` is the one a new chunk gets. -/
structure Enrols (s : Scheduler p σ) (now : Instant) (c : Chunk) (barrier : Option String)
    (t : Tracker) : Prop where
  key : t.key = (newcomer now c barrier).key
  lane : t.lane = (newcomer now c barrier).lane
  hashes : t.hashes = (newcomer now c barrier).hashes
  waitingOn : t.waitingOn = s.prerequisites (newcomer now c barrier) barrier
  consistent : t.isConsistent = true
  live : t.isLive = true

section New

variable {now : Instant} {c : Chunk} {barrier : Option String}

@[simp]
theorem newcomer_key :
  (newcomer now c barrier).key = c.key
  := by
  cases barrier <;> rfl

@[simp]
theorem newcomer_lane :
  (newcomer now c barrier).lane = ⟨c.sink, c.submitter⟩
  := by
  cases barrier <;> rfl

/-- The hashes are those of the match keys and of the barrier. -/
theorem mem_newcomer_hashes {h : Int32} :
  h ∈ (newcomer now c barrier).hashes
    ↔ ∃ key, (key ∈ c.matchKeys ∨ barrier = some key) ∧ MatchKey.hash key = h
  := by
  rw [show (newcomer now c barrier).hashes = MatchKey.hashes _ from rfl, MatchKey.mem_hashes]
  cases barrier with
  | none => simp
  | some b =>
    apply exists_congr
    intro key
    apply and_congr_left
    intro _
    change key ∈ c.matchKeys.insert b ↔ _
    rw [SortedSet.mem_insert, or_comm, Option.some_inj, eq_comm]

theorem pairwise_newcomer_hashes :
  (newcomer now c barrier).hashes.Pairwise (· < ·)
  := MatchKey.pairwise_hashes _

/-- A barrier is one of the match keys. -/
theorem hash_barrier_mem (b : String) (hb : barrier = some b) :
  MatchKey.hash b ∈ (newcomer now c barrier).hashes
  := mem_newcomer_hashes.mpr ⟨b, Or.inr hb, rfl⟩

theorem planNew_enrols (s : Scheduler p σ) (now : Instant) (c : Chunk)
    (barrier : Option String) :
  s.Enrols now c barrier (s.planNew now c barrier).1
  := by
  rw [planNew]
  simp only []
  split
  · rename_i hempty
    have hnone := SortedSet.isEmpty_iff.mp hempty
    constructor
    · rfl
    · rfl
    · rfl
    · apply hnone.symm
    · split <;> rfl
    · split <;> rfl
  · rename_i hsome
    constructor
    · rfl
    · rfl
    · rfl
    · rfl
    · simpa [Tracker.isConsistent] using hsome
    · rfl

/-- A plan changes nothing but the modes of the queues. -/
theorem exists_planNew_eq (s : Scheduler p σ) (now : Instant) (c : Chunk)
    (barrier : Option String) :
  ∃ book, (s.planNew now c barrier).2 = { s with board.book := book }
  := by
  rw [planNew]
  simp only []
  split
  · exact ⟨_, rfl⟩
  · exact ⟨s.board.book, rfl⟩

theorem plan_of_live {t : Tracker} (ht : s.grid.find? c.key = some t) (hlive : t.isLive = true) :
  s.plan now c barrier = (.renew t (s.goneFrom t), s)
  := by
  have hsome : (s.find? c.key).filter Tracker.isLive = some t :=
    Option.filter_eq_some_iff.mpr ⟨ht, hlive⟩
  rw [plan]
  rw [hsome]

theorem plan_of_not_live (hnew : s.grid.isLive c.key = false) :
  s.plan now c barrier = (.enrol (s.planNew now c barrier).1, (s.planNew now c barrier).2)
  := by
  have hnone : (s.find? c.key).filter Tracker.isLive = none := by
    apply Option.filter_eq_none_iff.mpr
    intro t ht hlive
    cases hnew.symm.trans (Grid.isLive_iff.mpr ⟨t, ht, hlive⟩)
  rw [plan]
  rw [hnone]

theorem mem_goneFrom {t : Tracker} {j : Key} :
  j ∈ s.goneFrom t ↔ j ∈ t.waitingOn ∧ s.grid.isLive j = false
  := by
  rw [goneFrom, List.mem_filter, ← SortedSet.mem_iff, Bool.not_eq_true']

/-- What is live is not gone. -/
theorem goneFrom_eq_nil {t : Tracker} (h : ∀ j ∈ t.waitingOn, s.grid.isLive j = true) :
  s.goneFrom t = []
  := by
  apply List.eq_nil_iff_forall_not_mem.mpr
  intro j hj
  obtain ⟨hmem, hdead⟩ := mem_goneFrom.mp hj
  cases hdead.symm.trans (h j hmem)

variable [Store σ] [LawfulStore σ]

/--
A chunk which is not live is registered with the tracker planned for it, which is put and nothing
else; it is sent if it is queued at once.
-/
theorem register_ends_planned (hs : s.grid.WellFiled) (now : Instant)
    (barrier : Option String) (hnew : s.grid.isLive c.key = false) :
  (register now c barrier).Ends s
    (fun t s' => t = (s.planNew now c barrier).1 ∧ ∃ b,
      (s.planNew now c barrier).2.board.Puts now [t] b ∧
      s' = if t.status = .queuedForProcessing then send t.key { s with board := b }
        else { s with board := b })
    (fun _ _ => ¬ LawfulStore.works s.board.store)
  := by
  have henrols := planNew_enrols s now c barrier
  obtain ⟨book, hplan⟩ := exists_planNew_eq s now c barrier
  rw [register, ends_bind, ends_modifyGet, plan_of_not_live hnew, hplan]
  generalize (s.planNew now c barrier).1 = t at henrols ⊢
  rw [carryOut, ends_bind, ends_onBoard]
  apply (Board.set_ends _ now t).mono
  · intro _ b h
    have hinsert : b.grid = s.grid.insert t := h.grid
    have hgone : ({ s with board := b } : Scheduler p σ).goneFrom t = [] := by
      apply goneFrom_eq_nil
      intro j hj
      rw [henrols.waitingOn] at hj
      obtain ⟨hlive, hne⟩ := isLive_of_mem_prerequisites hs hj
      rw [withBoard_grid s b, hinsert, Grid.isLive_insert, henrols.key, if_neg hne, hlive]
    rw [ends_bind, ends_get]
    simp only []
    rw [hgone, ends_bind, dropFrom, if_pos List.isEmpty_nil, ends_pure]
    split
    · rename_i hqueued
      rw [ends_bind, ends_modify, ends_pure]
      exact ⟨rfl, b, h, (if_pos hqueued).symm⟩
    · rename_i hqueued
      rw [ends_pure]
      exact ⟨rfl, b, h, (if_neg hqueued).symm⟩
  · exact fun _ _ h => h.1

theorem register_ends_of_not_live (hs : s.grid.WellFiled) (now : Instant)
    (barrier : Option String) (hnew : s.grid.isLive c.key = false) :
  (register now c barrier).Ends s
    (fun t s' => s.Enrols now c barrier t ∧ ∃ book b,
      ({ s.board with book := book } : Board p σ).Puts now [t] b ∧
      s' = if t.status = .queuedForProcessing then send t.key { s with board := b }
        else { s with board := b })
    (fun _ _ => ¬ LawfulStore.works s.board.store)
  := by
  obtain ⟨book, hplan⟩ := exists_planNew_eq s now c barrier
  apply (register_ends_planned hs now barrier hnew).mono
  · rintro _ s' ⟨rfl, b, h, hs'⟩
    rw [hplan] at h
    exact ⟨planNew_enrols s now c barrier, book, b, h, hs'⟩
  · exact fun _ _ => id

/-- A chunk which is not live is registered with the tracker planned for it. -/
theorem register_yields (hs : s.board.Sound) (now : Instant) (barrier : Option String)
    (hnew : s.grid.isLive c.key = false) :
  (register now c barrier).Yields s (fun t s' => s'.board.Sound ∧ s.Enrols now c barrier t ∧
    s'.grid = s.grid.insert t)
  := by
  apply (register_ends_of_not_live hs.filed now barrier hnew).mono
  · rintro t s' ⟨henrols, book, b, h, rfl⟩
    have hb : b.Sound := by
      apply hs.commits (P := fun _ _ => True)
      apply Relation.ReflTransGen.head (.book ⟨book, rfl⟩)
      apply Relation.ReflTransGen.single (h.commit trivial)
    have hend : ∀ s' : Scheduler p σ, s'.board = b → s'.board.Sound ∧
        s.Enrols now c barrier t ∧ s'.grid = s.grid.insert t := by
      rintro s' rfl
      exact ⟨hb, henrols, h.grid⟩
    split
    · apply hend
      apply send_board
    · apply hend
      rfl
  · exact fun _ _ hnot => hnot hs.works

/-! ### Chunks which are live already -/

omit [LawfulStore σ] in
theorem walks_dropFrom {T E : Scheduler p σ → Scheduler p σ → Prop} [Composes T E] (t : Tracker)
    (gone : List Key)
    (h : ∀ j, (onBoard (Board.adjust now t.key (Change.Release.apply ⟨j⟩))).Walks T E) :
  (dropFrom now t gone).Walks T E
  := by
  apply walks_ite
  · exact fun _ => walks_pure _
  · intro _
    apply walks_bind
    · apply walks_forM
      intro k _
      apply walks_bind_pure (h k)
    · intro _
      apply walks_bind walks_get
      exact fun _ => walks_pure _

omit [LawfulStore σ] in
/-- What comes of dropping keys is the tracker found then, or that of before if there is none. -/
theorem dropFrom_result {t : Tracker} (ht : s.grid.find? t.key = some t) (gone : List Key) :
  (dropFrom now t gone).Ends s (fun t' s' => t' = (s'.find? t.key).getD t) (fun _ _ => True)
  := by
  rw [dropFrom]
  split
  · rw [ends_pure, find?, ht]
    rfl
  · rw [ends_bind]
    apply ends_of_forall
    · exact fun _ _ => rfl
    · exact fun _ _ => trivial

theorem commitsOnly_dropFrom (t : Tracker) (gone : List Key)
    (hP : ∀ j u, u.key = t.key →
      P (some u) (some (Board.amend now (Change.Release.apply ⟨j⟩) u))) :
  CommitsOnly P F (dropFrom now t gone : Attempt (Scheduler p σ) Tracker)
  := by
  apply walks_dropFrom
  exact fun j => commitsOnly_adjust now t.key (Change.Release.apply_key _) (hP j)

theorem commitsOnly_renew (t : Tracker) (gone : List Key)
    (hP : ∀ j u, P (some u) (some (Board.amend now (Change.Release.apply ⟨j⟩) u))) :
  CommitsOnly P F (carryOut now (.renew t gone) : Attempt (Scheduler p σ) Tracker)
  := by
  apply walks_bind (commitsOnly_dropFrom t gone (fun j u _ => hP j u))
  intro t'
  apply walks_ite
  · intro _
    apply walks_bind_pure (commitsOnly_send t.key)
  · exact fun _ => walks_pure _

/-- A live chunk which is registered again waits at most for what it waited for. -/
theorem register_yields_of_live (hs : s.board.Sound) (now : Instant) (barrier : Option String)
    (hlive : s.grid.isLive c.key = true) :
  (register now c barrier).Yields s (fun _ => s.Becomes Tracker.Eases)
  := by
  obtain ⟨t, ht, hlive⟩ := Grid.isLive_iff.mp hlive
  rw [register, Yields, ends_bind, ends_modifyGet, plan_of_live ht hlive]
  have hx : CommitsOnly (Option.Rel Tracker.Eases) False
      (carryOut now (.renew t (s.goneFrom t)) : Attempt (Scheduler p σ) Tracker) :=
    commitsOnly_renew t _
      (fun j _ => Option.Rel.some (Board.eases_amend now (Change.Release.eases ⟨j⟩ _)))
  apply (hx.becomes hs).mono
  · exact fun _ _ => id
  · exact fun _ _ => And.left

/-- A tracker is enrolled where `P` permits it. -/
theorem commitsOnly_enrol {t : Tracker} {s : Scheduler p σ}
    (hrelease : ∀ j u, P (some u) (some (Board.amend now (Change.Release.apply ⟨j⟩) u)))
    (henrol : P (s.grid.find? t.key) (some t)) (hs : s.grid.WellFiled) :
  (carryOut now (.enrol t)).Ends s (fun _ s' => s.board.Commits P s'.board)
    (fun _ s' => s.board.Commits P s'.board ∧ (LawfulStore.works s.board.store → F))
  := by
  rw [carryOut, ends_bind, ends_onBoard]
  apply (Board.set_ends s.board now t).mono
  · intro _ b h
    have hset : s.board.Commit P b := h.commit henrol
    have hrest : CommitsOnly P F (do
        let t' ← dropFrom now t ((← get).goneFrom t)
        if t'.status = .queuedForProcessing then
          modify (send t.key)
        return t' : Attempt (Scheduler p σ) Tracker) := by
      apply walks_bind walks_get
      intro s
      apply walks_bind (commitsOnly_dropFrom t _ (fun j u _ => hrelease j u))
      intro t'
      apply walks_ite
      · intro _
        apply walks_bind_pure (commitsOnly_send t.key)
      · exact fun _ => walks_pure _
    apply (hrest { s with board := b }).mono
    · intro _ s' h'
      apply Relation.ReflTransGen.head hset (h' (hset.filed hs))
    · intro _ s' h'
      obtain ⟨hcommits, hF⟩ := h' (hset.filed hs)
      use Relation.ReflTransGen.head hset hcommits
      exact fun hworks => hF (hset.works hworks)
  · intro _ b h
    use Relation.ReflTransGen.single (.refused h)
    exact fun hworks => absurd hworks h.1

/-- A chunk which is not live is enrolled with the tracker planned for it. -/
theorem commitsOnly_register_of_planned (c : Chunk) (barrier : Option String)
    (hrelease : ∀ j u, P (some u) (some (Board.amend now (Change.Release.apply ⟨j⟩) u)))
    (henrol : ∀ s : Scheduler p σ, s.grid.isLive c.key = false →
      P (s.grid.find? c.key) (some (s.planNew now c barrier).1)) :
  CommitsOnly P F (register now c barrier : Attempt (Scheduler p σ) Tracker)
  := by
  intro s
  rw [register, ends_bind, ends_modifyGet]
  cases hlive : s.grid.isLive c.key with
  | true =>
    obtain ⟨t, ht, hlive⟩ := Grid.isLive_iff.mp hlive
    rw [plan_of_live ht hlive]
    apply commitsOnly_renew t (s.goneFrom t) hrelease s
  | false =>
    have hkey : (s.planNew now c barrier).1.key = c.key :=
      (planNew_enrols s now c barrier).key.trans newcomer_key
    have hplanned := henrol s hlive
    obtain ⟨book, hplan⟩ := exists_planNew_eq s now c barrier
    rw [plan_of_not_live hlive, hplan]
    rw [← hkey] at hplanned
    generalize (s.planNew now c barrier).1 = t at hplanned ⊢
    have hbook : s.board.Commit P { s.board with book := book } := .book ⟨book, rfl⟩
    apply ends_imp
    intro hs
    have henrolled := commitsOnly_enrol (F := F) (s := { s with board.book := book }) hrelease
      hplanned hs
    apply henrolled.mono
    · intro _ s' h
      apply Relation.ReflTransGen.head hbook h
    · rintro _ s' ⟨h, hF⟩
      exact ⟨Relation.ReflTransGen.head hbook h, hF⟩

theorem commitsOnly_register (c : Chunk) (barrier : Option String)
    (hrelease : ∀ j u, P (some u) (some (Board.amend now (Change.Release.apply ⟨j⟩) u)))
    (henrol : ∀ old t, old.any Tracker.isLive = false → t.isLive = true → t.isConsistent = true →
      P old (some t)) :
  CommitsOnly P F (register now c barrier : Attempt (Scheduler p σ) Tracker)
  := by
  apply commitsOnly_register_of_planned c barrier hrelease
  intro s hlive
  have henrols := planNew_enrols s now c barrier
  apply henrol _ _ hlive henrols.live henrols.consistent

omit [LawfulStore σ] in
/-- A live chunk none of whose prerequisites is gone changes nothing when it is registered again. -/
theorem register_yields_of_kept {t : Tracker} (ht : s.grid.find? c.key = some t)
    (hlive : t.isLive = true) (hgone : s.goneFrom t = []) (now : Instant)
    (barrier : Option String) :
  (register now c barrier).Yields s (fun t' s' => t' = t ∧ s' = s)
  := by
  rw [register, Yields, ends_bind, ends_modifyGet, plan_of_live ht hlive, hgone]
  rw [carryOut, ends_bind, dropFrom, if_pos List.isEmpty_nil, ends_pure, if_neg, ends_pure]
  · exact ⟨rfl, rfl⟩
  rintro ⟨hblocked, hqueued⟩
  cases hblocked.symm.trans hqueued

omit [LawfulStore σ] in
/-- On an orderly grid a live chunk which is registered again changes nothing. -/
theorem register_yields_of_orderly (hg : s.grid.Orderly) (now : Instant) (barrier : Option String)
    (hlive : s.grid.isLive c.key = true) :
  (register now c barrier).Yields s (fun t s' => s.grid.find? c.key = some t ∧ s' = s)
  := by
  obtain ⟨t, ht, hlive⟩ := Grid.isLive_iff.mp hlive
  have hgone := goneFrom_eq_nil (fun j hj => hg.isLive_right ⟨t, ht, hj⟩)
  apply (register_yields_of_kept ht hlive hgone now barrier).mono
  rintro _ s' ⟨rfl, hsame⟩
  exact ⟨ht, hsame⟩

omit [Store σ] [LawfulStore σ] in
/-- Broken are the blocked trackers some of whose prerequisites are gone. -/
theorem mem_broken (hs : s.grid.WellFiled) {k : Key} {gone : List Key} :
  (k, gone) ∈ s.broken ↔ ∃ t, s.grid.find? k = some t ∧ t.status = .blocked ∧
    gone = s.goneFrom t ∧ gone ≠ []
  := by
  rw [broken, List.mem_filterMap]
  constructor
  · rintro ⟨t, ht, heq⟩
    simp only [Grid.mem_values hs, Query.ByStatus.holds, Option.all_none,
      decide_eq_true_eq] at ht
    simp only [] at heq
    split at heq
    · cases heq
    · rename_i hne
      cases heq
      refine ⟨t, ht.1, ht.2.1, rfl, ?_⟩
      rwa [List.isEmpty_iff] at hne
  · rintro ⟨t, ht, hblocked, rfl, hne⟩
    obtain rfl := hs.key ht
    use t
    simp [Grid.mem_values hs, Query.ByStatus.holds, ht, hblocked, hne]

omit [Store σ] [LawfulStore σ] in
/-- If nobody waits for what is gone, nothing is broken. -/
theorem broken_eq_nil (hs : s.grid.WellFiled)
    (h : ∀ k t, s.grid.find? k = some t → s.goneFrom t = []) :
  s.broken = []
  := by
  apply List.eq_nil_iff_forall_not_mem.mpr
  rintro ⟨k, gone⟩ hmem
  obtain ⟨t, ht, -, rfl, hne⟩ := (mem_broken hs).mp hmem
  apply hne (h k t ht)

omit [LawfulStore σ] in
/-- If nobody waits for what is gone, there is nothing to repair. -/
theorem recheck_yields_of_kept (hs : s.grid.WellFiled)
    (h : ∀ k t, s.grid.find? k = some t → s.goneFrom t = []) (now : Instant) :
  (recheck now).Yields s (fun ks s' => ks = ∅ ∧ s' = s)
  := by
  rw [recheck, Yields, ends_bind, ends_get, broken_eq_nil hs h]
  exact ⟨rfl, rfl⟩

omit [LawfulStore σ] in
theorem recheck_yields_of_orderly (hs : s.grid.WellFiled) (hg : s.grid.Orderly) :
  (recheck now).Yields s (fun ks s' => ks = ∅ ∧ s' = s)
  := by
  apply recheck_yields_of_kept hs
  intro k t ht
  apply goneFrom_eq_nil
  exact fun j hj => hg.isLive_right ⟨t, ht, hj⟩

end New

/-! ### What a new tracker waits for -/

namespace Enrols

variable {now : Instant} {c : Chunk} {barrier : Option String} {t : Tracker}

theorem sink (ht : s.Enrols now c barrier t) :
  t.sink = c.sink
  := congrArg Lane.sink (ht.lane.trans newcomer_lane)

theorem pairwise_hashes (ht : s.Enrols now c barrier t) :
  t.hashes.Pairwise (· < ·)
  := by
  rw [ht.hashes]
  apply pairwise_newcomer_hashes

theorem mem_waitingOn_iff (ht : s.Enrols now c barrier t) (hs : s.grid.WellFiled)
    (htidy : s.grid.Tidy) {j : Key} :
  j ∈ t.waitingOn ↔ s.grid.Latest t j ∧ ∀ d, s.grid.Latest t d → ¬ s.grid.Waits d j
  := by
  rw [ht.waitingOn, mem_prerequisites_iff hs htidy hash_barrier_mem]
  simp only [Grid.latest_congr ht.key ht.lane (fun h => by rw [ht.hashes])]

/-- Unless trackers wait in a cycle, each latest holder is waited for, if need be through others. -/
theorem exists_prerequisite (ht : s.Enrols now c barrier t) (hs : s.grid.WellFiled)
    (htidy : s.grid.Tidy) (hacyclic : s.grid.Acyclic) {d : Key} (hd : s.grid.Latest t d) :
  ∃ j ∈ t.waitingOn, ReflTransGen s.grid.Waits j d
  := by
  have hfinite : { d | s.grid.Latest t d }.Finite := by
    apply s.grid.finite_tracked.subset
    rintro k ⟨_, _, ⟨⟨u, hu, -⟩, -⟩, -⟩
    exact ⟨u, hu⟩
  obtain ⟨j, hj, hjd, hfirst⟩ := exists_first hacyclic hfinite hd
  use j
  constructor
  · apply (ht.mem_waitingOn_iff hs htidy).mpr ⟨hj, hfirst⟩
  · apply hjd

theorem shares (ht : s.Enrols now c barrier t) (hs : s.grid.WellFiled) (htidy : s.grid.Tidy) :
  ∀ j ∈ t.waitingOn, s.grid.Shares t j
  := by
  intro j hj
  apply Grid.Latest.shares ((ht.mem_waitingOn_iff hs htidy).mp hj).1

/-- A new tracker closes a cycle exactly if one of the latest holders reaches its key. -/
theorem acyclic_insert_iff (ht : s.Enrols now c barrier t) (hs : s.grid.WellFiled)
    (htidy : s.grid.Tidy) (hacyclic : s.grid.Acyclic) :
  (s.grid.insert t).Acyclic
    ↔ ∀ d, s.grid.Latest (newcomer now c barrier) d → ¬ s.grid.Reaches d t.key
  := by
  have hlatest : ∀ d, s.grid.Latest (newcomer now c barrier) d ↔ s.grid.Latest t d :=
    fun d => (Grid.latest_congr ht.key ht.lane (fun h => by rw [ht.hashes]) d).symm
  rw [Grid.acyclic_insert_iff hacyclic]
  constructor
  · intro h d hd hreaches
    obtain ⟨j, hj, hjd⟩ := ht.exists_prerequisite hs htidy hacyclic ((hlatest d).mp hd)
    apply (h j hj).2 (TransGen.trans_right hjd hreaches)
  · intro h j hj
    have hd := ((ht.mem_waitingOn_iff hs htidy).mp hj).1
    use hd.ne
    apply h j ((hlatest j).mpr hd)

theorem orderly_insert (ht : s.Enrols now c barrier t) (hs : s.grid.WellFiled)
    (hg : s.grid.Orderly) (hnew : s.grid.isLive t.key = false) :
  (s.grid.insert t).Orderly
  := hg.insert hnew ht.pairwise_hashes ht.consistent (ht.shares hs hg.toTidy)

/-- In an orderly grid a new tracker reaches the greatest holders of its hashes and whatever these
reach. -/
theorem reaches_iff (ht : s.Enrols now c barrier t) (hs : s.grid.WellFiled) (hg : s.grid.Orderly)
    (hnew : s.grid.isLive t.key = false) {k : Key} :
  (s.grid.insert t).Reaches t.key k
    ↔ ∃ h ∈ t.hashes, ∃ d, s.grid.IsGreatestHolder t.lane h d ∧ (d = k ∨ s.grid.Reaches d k)
  := by
  rw [Grid.reaches_insert_self (hg.fresh hnew (ht.shares hs hg.toTidy))]
  constructor
  · rintro ⟨j, hj, hjk⟩
    obtain ⟨h, hh, hgreatest⟩ :=
      (hg.latest_iff hnew).mp ((ht.mem_waitingOn_iff hs hg.toTidy).mp hj).1
    use h, hh, j
  · rintro ⟨h, hh, d, hgreatest, hdk⟩
    have hd := (hg.latest_iff hnew).mpr ⟨h, hh, hgreatest⟩
    obtain ⟨j, hj, hjd⟩ := ht.exists_prerequisite hs hg.toTidy hg.acyclic hd
    use j, hj
    have hjk : ReflTransGen s.grid.Waits j k := by
      apply hjd.trans
      apply reflTransGen_iff_eq_or_transGen.mpr
      rw [eq_comm]
      apply hdk
    rw [eq_comm]
    apply reflTransGen_iff_eq_or_transGen.mp hjk

/-- In a chained grid a new tracker reaches all live ones it shares a hash with. -/
theorem reaches_of_shares (ht : s.Enrols now c barrier t) (hs : s.grid.WellFiled)
    (hg : s.grid.Orderly) (hchained : s.grid.Chained) (hnew : s.grid.isLive t.key = false)
    {j : Key} (hj : s.grid.Shares t j) :
  (s.grid.insert t).Reaches t.key j
  := by
  obtain ⟨h, hh, hj⟩ := hj
  obtain ⟨d, hd⟩ := Grid.exists_isGreatestHolder hj
  apply (ht.reaches_iff hs hg hnew).mpr
  use h, hh, d, hd
  by_cases hjd : j < d
  · exact Or.inr (hchained.holds hd.1 hj hjd)
  · exact Or.inl (Std.le_antisymm (Std.not_lt.mp hjd) (hd.2 j hj))

end Enrols

end Scheduler

end ChunkDispatch
