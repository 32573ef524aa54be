import ChunkDispatch.Proofs.Effect

/-!
# Runs of operations

A scheduler is *reachable* from another if a sequence of operations leads to it, each permitted
where it is performed; an operation which fails leaves what it has done.  From an empty store which
works, every operation keeps the board sound and the grid tidy, the *careful* ones keep the grid
orderly, and those *in key order* keep it chained.
-/

namespace ChunkDispatch

variable {p : Partitioner} {σ : Type}

/-! ### Operations which are permitted -/

/-- The operation takes no chunk out of scheduling but by completing it. -/
def Operation.IsCareful : Operation → Prop
  | remove _ | removeJob _ => False
  | transition _ _ target | setStatus _ target | resetStatus _ target _ => target ≠ .completed
  | _ => True

/--
A chunk is registered only if it is live already or has a greater key than every live chunk of its
lane, only a live chunk which is not blocked is completed, and nothing is overridden.
-/
def Operation.IsInKeyOrder (s : Scheduler p σ) : Operation → Prop
  | register c _ => s.grid.isLive c.key = true ∨
      ∀ t ∈ s.grid.trackers, t.isLive = true → t.lane = ⟨c.sink, c.submitter⟩ → t.key < c.key
  | complete k => s.grid.isFree k = true
  | processingDone _ | bulkSchedule _ _ | resend _ | boost _ _ | recheck | purge => True
  | _ => False

theorem Operation.IsInKeyOrder.isCareful {s : Scheduler p σ} {o : Operation}
    (h : o.IsInKeyOrder s) :
  o.IsCareful
  := by
  cases o <;> trivial

/-! ### What one operation keeps -/

namespace Grid

variable {now : Instant} {s : Scheduler p σ} {o : Operation} {g' : Grid p}

/-- Every operation keeps the grid tidy. -/
theorem Tidy.perform (hg : s.grid.Tidy) (h : o.Effect now s g') :
  g'.Tidy
  := by
  by_cases hnew : ∃ c barrier, o = .register c barrier ∧ s.grid.isLive c.key = false
  · obtain ⟨c, barrier, rfl, hnew⟩ := hnew
    obtain ⟨t, ht, rfl⟩ := h.2 hnew
    apply hg.insert ht.pairwise_hashes ht.consistent
  · apply hg.of_trims
    intro k t' ht'
    apply h.trims _ ht'
    intro c barrier ho
    rw [← Bool.not_eq_false]
    exact fun hnot => hnew ⟨c, barrier, ho, hnot⟩

/-- A careful operation keeps the grid orderly. -/
theorem Orderly.perform (hg : s.grid.Orderly) (hs : s.grid.WellFiled) (ho : o.IsCareful)
    (h : o.Effect now s g') :
  g'.Orderly
  := by
  have hsteady : s.grid.Each Tracker.Steady g' → g'.Orderly :=
    fun heach => hg.loosens (heach.mono (fun _ _ hR => hR.eases)).loosens
  have heases : s.grid.Each Tracker.Eases g' → g'.Orderly :=
    fun heach => hg.loosens heach.loosens
  cases o with
  | register c barrier =>
    cases hlive : s.grid.isLive c.key with
    | true => apply heases (h.1 hlive).1
    | false =>
      obtain ⟨t, ht, rfl⟩ := h.2 hlive
      apply ht.orderly_insert hs hg
      rw [ht.key, Scheduler.newcomer_key, hlive]
  | complete k => apply hg.loosens (h.loosens hg)
  | removeFromWaitingOn => apply heases h
  | transition | setStatus | resetStatus => apply heases (h.2 ho)
  | remove | removeJob => exact ho.elim
  | recheck => apply heases h.1
  | purge => apply hg.loosens (loosens_of_filter h)
  | load | processingDone | resend | boost | bulkSchedule => apply hsteady h
  | forceMode | updateMode | recount => rwa [show g' = s.grid from h]

/-- An operation in key order keeps the grid chained. -/
theorem Chained.perform (hchained : s.grid.Chained) (hg : s.grid.Orderly)
    (hs : s.grid.WellFiled) (ho : o.IsInKeyOrder s) (h : o.Effect now s g') :
  g'.Chained
  := by
  have hsteady : s.grid.Each Tracker.Steady g' → g'.Chained :=
    fun heach => hchained.preserves (heach.preserves hg)
  cases o with
  | register c barrier =>
    cases hlive : s.grid.isLive c.key with
    | true => rwa [(h.1 hlive).2 hg]
    | false =>
      obtain ⟨t, ht, rfl⟩ := h.2 hlive
      have hkey : t.key = c.key := by rw [ht.key, Scheduler.newcomer_key]
      have hnew : s.grid.isLive t.key = false := by rw [hkey, hlive]
      apply hchained.insert hg hnew
      intro j hj
      constructor
      · obtain ⟨a, -, u, hu, hulive, hlane, -⟩ := hj
        obtain rfl := hs.key hu
        rw [hkey]
        apply ho.resolve_left (Bool.eq_false_iff.mp hlive) u _ hulive
        · rw [hlane, ht.lane, Scheduler.newcomer_lane]
        · apply (mem_values hs).mpr ⟨hu, rfl⟩
      · apply ht.reaches_of_shares hs hg hchained hnew hj
  | complete k =>
    apply hchained.preserves (h.preserves hg _)
    exact fun _ => hg.not_waits_of_isFree ho
  | recheck => rwa [h.2 hg]
  | purge => apply hchained.preserves (preserves_of_filter h hg)
  | processingDone | resend | boost | bulkSchedule => apply hsteady h
  | _ => exact ho.elim

end Grid

/-- A careful operation keeps the board sound and the grid orderly. -/
theorem Operation.perform_orderly [Store σ] [LawfulStore σ] {s : Scheduler p σ} {o : Operation}
    (hs : s.board.Sound ∧ s.grid.Orderly) (ho : o.IsCareful) (now : Instant) :
  ((o.perform now).stateAfter s).board.Sound ∧ ((o.perform now).stateAfter s).grid.Orderly
  := by
  obtain ⟨hsound, heffect⟩ := perform_effect hs.1 now o
  exact ⟨hsound, hs.2.perform hs.1.filed ho heffect⟩

/-! ### What a run keeps -/

/-- The schedulers to which operations lead from `s₀`, each permitted where it is performed. -/
inductive Reachable [Store σ] (permitted : Scheduler p σ → Operation → Prop)
    (s₀ : Scheduler p σ) : Scheduler p σ → Prop
  | start : Reachable permitted s₀ s₀
  | step {s : Scheduler p σ} (now : Instant) (o : Operation) (hs : Reachable permitted s₀ s)
      (ho : permitted s o) : Reachable permitted s₀ ((o.perform now).stateAfter s)

/-- Each operation of a sequence is permitted where it is performed. -/
def Operation.Permits [Store σ] (permitted : Scheduler p σ → Operation → Prop) :
    Scheduler p σ → List (Instant × Operation) → Prop
  | _, [] => True
  | s, (now, o) :: rest => permitted s o ∧ Permits permitted ((o.perform now).stateAfter s) rest

theorem Operation.permits_of_forall [Store σ] {permitted : Scheduler p σ → Operation → Prop}
    (h : ∀ s o, permitted s o) (s : Scheduler p σ) (os : List (Instant × Operation)) :
  Permits permitted s os
  := by
  induction os generalizing s with
  | nil => trivial
  | cons o rest ih => exact ⟨h s o.2, ih _⟩

/--
If every operation keeps `I` exactly where it is permitted, `I` holds all along a run exactly if
each operation of it is permitted.
-/
theorem Operation.along_run_iff [Store σ] {permitted : Scheduler p σ → Operation → Prop}
    {J I : Scheduler p σ → Prop}
    (hJ : ∀ s now (o : Operation), J s → J ((o.perform now).stateAfter s))
    (hI : ∀ s now (o : Operation), J s → I s →
      (I ((o.perform now).stateAfter s) ↔ permitted s o))
    {s : Scheduler p σ} (hj : J s) (hi : I s) (os : List (Instant × Operation)) :
  (∀ os', os' <+: os → I (run s os').2) ↔ Permits permitted s os
  := by
  induction os generalizing s with
  | nil =>
    constructor
    · exact fun _ => trivial
    · intro _ os' hos'
      obtain rfl := List.prefix_nil.mp hos'
      exact hi
  | cons o rest ih =>
    obtain ⟨now, o⟩ := o
    have hafter := hJ s now o hj
    rw [Permits, ← hI s now o hj hi]
    constructor
    · intro hall
      have hfirst := hall [(now, o)] (List.prefix_append _ _)
      use hfirst
      apply (ih hafter hfirst).mp
      exact fun os' hos' => hall ((now, o) :: os') ((List.prefix_cons_inj _).mpr hos')
    · rintro ⟨hfirst, hrest⟩ os' hos'
      cases os' with
      | nil => exact hi
      | cons o' os' =>
        obtain ⟨rfl, hprefix⟩ := List.cons_prefix_cons.mp hos'
        apply (ih hafter hfirst).mpr hrest os' hprefix

theorem Reachable.trans [Store σ] {permitted : Scheduler p σ → Operation → Prop}
    {s₀ s s' : Scheduler p σ} (hs : Reachable permitted s₀ s) (hs' : Reachable permitted s s') :
  Reachable permitted s₀ s'
  := by
  induction hs' with
  | start => exact hs
  | step now o _ ho ih => apply ih.step now o ho

theorem Reachable.mono [Store σ] {permitted permitted' : Scheduler p σ → Operation → Prop}
    {s₀ s : Scheduler p σ} (hs : Reachable permitted s₀ s)
    (h : ∀ s o, permitted s o → permitted' s o) :
  Reachable permitted' s₀ s
  := by
  induction hs with
  | start => exact .start
  | step now o _ ho ih => apply ih.step now o (h _ o ho)

/-- A sequence of permitted operations leads to a reachable scheduler. -/
theorem Reachable.run [Store σ] {permitted : Scheduler p σ → Operation → Prop}
    {s₀ s : Scheduler p σ} {os : List (Instant × Operation)} (hs : Reachable permitted s₀ s)
    (hos : Operation.Permits permitted s os) :
  Reachable permitted s₀ (Operation.run s os).2
  := by
  induction os generalizing s with
  | nil => exact hs
  | cons o rest ih => apply ih (hs.step o.1 o.2 hos.1) hos.2

/-- Any sequence of operations leads to a reachable scheduler, if all are permitted. -/
theorem Operation.reachable_run [Store σ] (s₀ : Scheduler p σ) (os : List (Instant × Operation)) :
  Reachable (fun _ _ => True) s₀ (run s₀ os).2
  := Reachable.start.run (permits_of_forall (fun _ _ => trivial) s₀ os)

namespace Reachable

variable [Store σ] [LawfulStore σ] {settings : Settings} {listening : Bool} {store : σ}
variable {permitted : Scheduler (.ofCount settings.partitions) σ → Operation → Prop}
variable {s : Scheduler (.ofCount settings.partitions) σ}

/-- Whatever operations are permitted, the board stays sound and the grid tidy. -/
theorem tidy (hworks : LawfulStore.works store) (hrows : LawfulStore.rows store = ∅)
    (hs : Reachable permitted (Scheduler.start settings listening store) s) :
  s.board.Sound ∧ s.grid.Tidy
  := by
  induction hs with
  | start => exact ⟨Board.sound_start hworks hrows, Grid.orderly_empty.toTidy⟩
  | step now o _ _ ih =>
    obtain ⟨hsound, heffect⟩ := Operation.perform_effect ih.1 now o
    exact ⟨hsound, ih.2.perform heffect⟩

/-- If all operations permitted are careful, the grid stays orderly. -/
theorem orderly (hworks : LawfulStore.works store) (hrows : LawfulStore.rows store = ∅)
    (hcareful : ∀ s o, permitted s o → o.IsCareful)
    (hs : Reachable permitted (Scheduler.start settings listening store) s) :
  s.board.Sound ∧ s.grid.Orderly
  := by
  induction hs with
  | start => exact ⟨Board.sound_start hworks hrows, Grid.orderly_empty⟩
  | step now o _ ho ih => exact Operation.perform_orderly ih (hcareful _ o ho) now

/-- If operations are performed in key order, the grid stays chained. -/
theorem chained (hworks : LawfulStore.works store) (hrows : LawfulStore.rows store = ∅)
    (hs : Reachable (fun s o => o.IsInKeyOrder s) (Scheduler.start settings listening store) s) :
  s.board.Sound ∧ s.grid.Orderly ∧ s.grid.Chained
  := by
  induction hs with
  | start =>
    refine ⟨Board.sound_start hworks hrows, Grid.orderly_empty, ?_⟩
    intro k t ht
    cases (Grid.find?_empty k).symm.trans ht
  | step now o _ ho ih =>
    obtain ⟨hs, hg, hchained⟩ := ih
    obtain ⟨hsound, heffect⟩ := Operation.perform_effect hs now o
    exact ⟨hsound, hg.perform hs.filed ho.isCareful heffect,
      hchained.perform hg hs.filed ho heffect⟩

end Reachable

/-! ### Small runs -/

/-- A chunk of submitter 1 for sink 1 with some match keys. -/
def Chunk.sample (job chunk : Int32) (matchKeys : List String) : Chunk :=
  ⟨⟨job, chunk⟩, 1, 1, .ofList matchKeys, 0⟩

/-- The chunk goes to another sink. -/
def Chunk.to (sink : Int32) (c : Chunk) : Chunk :=
  { c with sink := sink }

/-- The standard settings, save that completed trackers are retained. -/
def Settings.retaining : Settings :=
  { Settings.standard with retention := .retain }

/-- What the store of a list holds is on the list, and lies under its own key. -/
theorem Memory.mem_of_find?_ofList {ts : List Tracker} {k : Key} {t : Tracker}
    (ht : (ofList ts).rows.find? k = some t) :
  t ∈ ts ∧ t.key = k
  := by
  obtain ⟨u, hu, heq⟩ := List.mem_map.mp ((SortedMap.find?_ofList _).1 k t ht)
  cases heq
  exact ⟨hu, rfl⟩

/-- A store with one row which refuses its second write and its third load. -/
def Scripted.stubborn : Scripted Memory :=
  { of (.ofList [(Chunk.sample 1 0 ["a"]).track default]) with
    writeRefusals := ⟨fun i => i = 1, 0⟩
    loadRefusals := ⟨fun i => i = 2, 0⟩ }

/-- What operations, all made at one instant, lead to from an empty store in memory. -/
def Scheduler.afterAll (os : List Operation) :
    Scheduler (.ofCount Settings.standard.partitions) Memory :=
  (Operation.run (start .standard true (.ofList [])) (os.map (fun o => (default, o)))).2

theorem Scheduler.reachable_afterAll
    {permitted : Scheduler (.ofCount Settings.standard.partitions) Memory → Operation → Prop}
    {os : List Operation}
    (hos : Operation.Permits permitted (start .standard true (.ofList []))
      (os.map (fun o => (default, o)))) :
  Reachable permitted (start .standard true (.ofList [])) (afterAll os)
  := Reachable.start.run hos

end ChunkDispatch
