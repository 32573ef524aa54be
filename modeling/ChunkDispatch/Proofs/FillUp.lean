import ChunkDispatch.Proofs.Handover
import ChunkDispatch.Proofs.Lineup

/-!
# Queues which are filled up

To fill a queue up is to move the *most urgent* of the ready chunks into it: as many as there are,
or as there is room for, in the order of their urgency, and none before a more urgent one.  Every
chunk which is moved takes one write.  So a store which takes `n` writes and refuses the rest lets
the first `n` of these chunks into the queue, and a store which works lets all of them in.
-/

namespace ChunkDispatch

open Attempt

variable {p : Partitioner} {σ : Type}

/-! ### The most urgent chunks -/

namespace Grid

variable {g : Grid p} {sink : Int32} {status : Status}

/-- Both keys are tracked, and the tracker of the first precedes that of the second. -/
def Precedes (g : Grid p) (k j : Key) : Prop :=
  ∃ t u, g.find? k = some t ∧ g.find? j = some u ∧ t.Precedes u

/--
The keys are those of the most urgent trackers of a sink in a status, in the order of their urgency:
`n` of them, or all if there are fewer.
-/
structure MostUrgent (g : Grid p) (sink : Int32) (status : Status) (n : Nat) (ks : List Key) :
    Prop where
  length : ks.length = min (g.census sink status) n
  isOf : ∀ k ∈ ks, g.IsOf sink status k
  ordered : ks.Pairwise g.Precedes
  ahead : ∀ k ∈ ks, ∀ j, g.IsOf sink status j → j ∉ ks → g.Precedes k j

/-- A query finds as many trackers as there are for which it holds. -/
theorem length_values (hg : g.WellFiled) (q : Tracker → Bool) :
  (g.values q).length = g.trackers.countP q
  := by
  have hnodup : (g.values q).Nodup := by
    apply (pairwise_values hg q).imp
    rintro t _ hlt rfl
    apply Std.lt_irrefl hlt
  have hperm : (g.values q).Perm (g.trackers.filter q) := by
    apply (List.perm_ext_iff_of_nodup hnodup ((nodup_trackers hg).filter q)).mpr
    intro t
    rw [mem_values hg, List.mem_filter, mem_trackers hg]
  rw [hperm.length_eq, List.countP_eq_length_filter]

end Grid

namespace Scheduler

variable {s : Scheduler p σ} {sink : Int32} {phase : Phase}

theorem length_lineup (hs : s.grid.WellFiled) (sink : Int32) (phase : Phase) :
  (s.lineup sink phase).length = s.grid.census sink phase.ready
  := by
  rw [lineup, List.length_map, (byUrgency_perm _).length_eq, Grid.length_values hs, Grid.census]
  congr 1
  funext t
  simp only [Query.ByStatus.holds, Tracker.isOf, Option.all_some, decide_eq_true_eq,
    and_comm (a := t.status = _), eq_comm (a := sink)]

/-- Who stands in the lineup is tracked, and precedes the same as there. -/
theorem precedes_of_mem_lineup (hs : s.grid.WellFiled) {t u : Tracker}
    (ht : t ∈ s.lineup sink phase) (hu : u ∈ s.lineup sink phase) (h : t.Precedes u) :
  s.grid.Precedes t.key u.key
  := by
  obtain ⟨t', ht', hundated⟩ := Option.map_eq_some_iff.mp ((mem_lineup hs).mp ht).1
  obtain ⟨u', hu', hundated'⟩ := Option.map_eq_some_iff.mp ((mem_lineup hs).mp hu).1
  refine ⟨t', u', ht', hu', ?_⟩
  rw [← hundated, ← hundated'] at h
  exact h

/-- Those chosen for the queue are the most urgent for which there is room. -/
theorem mostUrgent_chosen (hs : s.grid.WellFiled) (sink : Int32) (phase : Phase) :
  s.grid.MostUrgent sink phase.ready
    (s.settings.maxEnqueued - s.grid.census sink phase.queued) (s.chosen sink phase)
  := by
  have hpairwise := pairwise_lineup hs sink phase
  have hlength := length_lineup hs sink phase
  have hprecedes : ∀ t ∈ s.lineup sink phase, ∀ u ∈ s.lineup sink phase, t.Precedes u →
      s.grid.Precedes t.key u.key := fun _ ht _ hu => precedes_of_mem_lineup hs ht hu
  have hmem : ∀ j, s.grid.IsOf sink phase.ready j →
      ∃ u, u ∈ s.lineup sink phase ∧ u.key = j := by
    intro j hj
    obtain ⟨u, hu, hof⟩ := (Option.any_eq_true _ _).mp hj
    obtain rfl := hs.key hu
    refine ⟨u.undated, (mem_lineup hs).mpr ⟨?_, hof⟩, rfl⟩
    exact Option.map_eq_some_iff.mpr ⟨u, hu, rfl⟩
  rw [chosen_eq]
  generalize s.settings.maxEnqueued - s.grid.census sink phase.queued = n
  rw [← List.take_append_drop n (s.lineup sink phase)] at hpairwise
  obtain ⟨htaken, -, hbefore⟩ := List.pairwise_append.mp hpairwise
  constructor
  case length =>
    rw [List.length_map, List.length_take, hlength, Nat.min_comm]
  case isOf =>
    intro k hk
    obtain ⟨t, ht, rfl⟩ := List.mem_map.mp hk
    obtain ⟨hfound, hof⟩ := (mem_lineup hs).mp (List.mem_of_mem_take ht)
    obtain ⟨u, hu, rfl⟩ := Option.map_eq_some_iff.mp hfound
    rw [Grid.IsOf, hu]
    exact hof
  case ordered =>
    apply List.pairwise_map.mpr
    apply htaken.imp_of_mem
    intro t u ht hu
    apply hprecedes t (List.mem_of_mem_take ht) u (List.mem_of_mem_take hu)
  case ahead =>
    intro k hk j hj hnot
    obtain ⟨t, ht, rfl⟩ := List.mem_map.mp hk
    obtain ⟨u, hu, rfl⟩ := hmem j hj
    have hdropped : u ∈ (s.lineup sink phase).drop n := by
      have hsplit := hu
      rw [← List.take_append_drop n (s.lineup sink phase)] at hsplit
      apply (List.mem_append.mp hsplit).resolve_left
      exact fun htaken => hnot (List.mem_map_of_mem htaken)
    apply hprecedes t (List.mem_of_mem_take ht) u hu (hbefore t ht u hdropped)

/-! ### Moves into the queue -/

/--
The chunks `ks` have been moved into the queue of a phase, and sent if they are to be processed now;
nothing else has changed among the trackers and on the ready stream.
-/
structure Enqueues (now : Instant) (phase : Phase) (ks : List Key) (s s' : Scheduler p σ) :
    Prop where
  filed : s'.grid.WellFiled
  moved : ∀ k, s'.grid.find? k = if k ∈ ks
    then (s.grid.find? k).map (fun t => (t.moved phase.queued).touch now)
    else s.grid.find? k
  sent : s'.ready = { s.ready with
    sent := s.ready.sent ++ if s.ready.listening ∧ phase = .processing then ks else [] }

variable {s' s'' : Scheduler p σ} {now : Instant}

theorem enqueues_nil (hgrid : s'.grid = s.grid) (hready : s'.ready = s.ready)
    (hs : s.grid.WellFiled) :
  Enqueues now phase [] s s'
  := by
  constructor
  case filed => rwa [hgrid]
  case moved =>
    intro k
    rw [hgrid, if_neg List.not_mem_nil]
  case sent => rw [hready, ite_self, List.append_nil]

theorem Enqueues.cons {k : Key} {ks : List Key} (hk : k ∉ ks) (h : Enqueues now phase [k] s s')
    (h' : Enqueues now phase ks s' s'') :
  Enqueues now phase (k :: ks) s s''
  := by
  constructor
  case filed => exact h'.filed
  case moved =>
    intro j
    have hmem : j ∈ k :: ks ↔ j ∈ [k] ∨ j ∈ ks := by rw [List.mem_cons, List.mem_singleton]
    simp only [h'.moved, h.moved, hmem]
    by_cases hj : j ∈ [k]
    · have hnot : j ∉ ks := by rwa [List.mem_singleton.mp hj]
      simp only [hj, hnot, if_true, if_false, true_or]
    · simp only [hj, if_false, false_or]
  case sent =>
    rw [h'.sent, h.sent]
    simp only [List.append_assoc]
    split <;> rfl

variable [Store σ]

/-- What is moved into the queue of processing is sent then, and nothing else is sent by a move. -/
theorem transition_sends (now : Instant) (k : Key) {source target : Status}
    (hsource : source ≠ .blocked) (htarget : target ≠ .blocked) (s : Scheduler p σ) :
  (transition now k source target).Ends s
    (fun moved s' => s'.ready
      = if moved = true ∧ target = .queuedForProcessing then (s.send k).ready else s.ready)
    (fun _ s' => s'.ready = s.ready)
  := by
  rw [transition, if_neg (not_or.mpr ⟨hsource, htarget⟩), ends_bind, ends_onBoard]
  apply ends_of_forall
  · intro moved b
    split
    · split
      · rename_i htarget
        rw [ends_bind, ends_modify, ends_pure, if_pos ⟨rfl, htarget⟩, send, send]
        split <;> rfl
      · rename_i htarget
        rw [ends_pure, if_neg (fun h => htarget h.2)]
    · rw [ends_pure, if_neg (fun h => Bool.false_ne_true h.1)]
  · exact fun _ _ => rfl

variable [LawfulStore σ]

/-- A ready chunk is moved into the queue, or nothing is done. -/
theorem transition_enqueues (hs : s.grid.WellFiled) (now : Instant) {k : Key}
    (hk : s.grid.IsOf sink phase.ready k) :
  (transition now k phase.ready phase.queued).Ends s
    (fun moved s' => moved = true ∧ Enqueues now phase [k] s s')
    (fun _ s' => Enqueues now phase [] s s')
  := by
  obtain ⟨t, ht, -, hstatus⟩ := Grid.isOf_iff.mp hk
  have hmove : Change.Move.apply ⟨phase.ready, phase.queued⟩ t = (true, t.moved phase.queued) := by
    rw [Change.Move.apply, if_neg]
    · rfl
    · exact not_or.mpr ⟨not_not.mpr hstatus, phase.ready_ne_queued⟩
  have hamend : Board.amend now (Change.Move.apply ⟨phase.ready, phase.queued⟩) t
      = (t.moved phase.queued).touch now := by
    rw [Board.amend, Board.changed?, hmove, if_neg]
    · rfl
    · intro heq
      have hsame : phase.queued = t.status := congrArg Tracker.status heq
      exact phase.ready_ne_queued (hstatus.symm.trans hsame.symm)
  apply (((transition_ends hs now k phase.ready_ne_blocked phase.queued_ne_blocked).and
    (transition_filed hs now k phase.ready phase.queued)).and
    (transition_sends now k phase.ready_ne_blocked phase.queued_ne_blocked s)).mono
  · rintro moved s' ⟨⟨⟨hmoved, hfind⟩, hs'⟩, hsent⟩
    rw [ht, Option.any_some, hmove] at hmoved
    use hmoved
    constructor
    case filed => exact hs'
    case moved =>
      intro j
      simp only [hfind, List.mem_singleton]
      split
      · rename_i hj
        rw [hj, ht, Option.map_some, Option.map_some, hamend]
      · rfl
    case sent =>
      rw [hsent, hmoved, send]
      cases phase <;> cases s.ready.listening <;> simp [Phase.queued]
  · rintro _ s' ⟨⟨hrefused, -⟩, hready⟩
    apply enqueues_nil hrefused.grid hready hs

/--
Ready chunks are moved into the queue in their order, as far as the store takes the writes for this.
-/
theorem transitionAll_enqueues {s : Scheduler p (Scripted σ)} (hs : s.grid.WellFiled)
    (now : Instant) {ks : List Key} (hnodup : ks.Nodup)
    (hks : ∀ k ∈ ks, s.grid.IsOf sink phase.ready k) :
  (transitionAll now phase.ready phase.queued ks).Ends s
    (fun moved s' => moved = ks ∧ Enqueues now phase ks s s' ∧ ∀ n, s.Allows n → ks.length ≤ n)
    (fun _ s' => ∃ m < ks.length, Enqueues now phase (ks.take m) s s' ∧ ∀ n, s.Allows n → m = n)
  := by
  induction ks generalizing s with
  | nil => exact ⟨rfl, enqueues_nil rfl rfl hs, fun n _ => Nat.zero_le n⟩
  | cons k rest ih =>
    obtain ⟨hk, hrest⟩ := List.nodup_cons.mp hnodup
    have hready := hks k List.mem_cons_self
    have hspends := transition_spends_one now hready phase.ready_ne_blocked
      phase.queued_ne_blocked phase.ready_ne_queued
    rw [transitionAll, ends_bind]
    apply ((transition_enqueues hs now hready).and
      (ends_forall (fun n => ends_imp (hspends n)))).mono
    · rintro _ s₁ ⟨⟨rfl, hfirst⟩, hleaves⟩
      have hks₁ : ∀ j ∈ rest, s₁.grid.IsOf sink phase.ready j := by
        intro j hj
        have hne : j ∉ [k] := by
          rintro hmem
          rw [List.mem_singleton.mp hmem] at hj
          exact hk hj
        rw [Grid.IsOf, hfirst.moved, if_neg hne]
        exact hks j (List.mem_cons_of_mem k hj)
      rw [ends_bind]
      apply (ih hfirst.filed hrest hks₁).mono
      · rintro _ s₂ ⟨rfl, hothers, hle⟩
        refine ⟨rfl, hfirst.cons hk hothers, ?_⟩
        intro n hn
        obtain ⟨hpos, hn₁⟩ := hleaves n hn
        have hle₁ := hle _ hn₁
        rw [List.length_cons]
        omega
      · rintro _ s₂ ⟨m, hm, hothers, heq⟩
        refine ⟨m + 1, Nat.succ_lt_succ hm, ?_, ?_⟩
        · rw [List.take_succ_cons]
          apply hfirst.cons (fun hmem => hk (List.mem_of_mem_take hmem)) hothers
        · intro n hn
          obtain ⟨hpos, hn₁⟩ := hleaves n hn
          have heq₁ := heq _ hn₁
          omega
    · rintro _ s₁ ⟨hnothing, hlt⟩
      refine ⟨0, Nat.succ_pos _, hnothing, ?_⟩
      intro n hn
      have hlt₁ := (hlt n hn).1
      omega

/-- If moves fail only where the store refuses them, chunks are moved on a store which works. -/
theorem commitsOnly_transitionAll (now : Instant) (phase : Phase) (ks : List Key) :
  CommitsOnly (fun _ _ => True) False
    (transitionAll now phase.ready phase.queued ks : Attempt (Scheduler p σ) (List Key))
  := by
  apply walks_transitionAll
  intro k
  apply commitsOnly_transition
  · rintro (h | h)
    · exact phase.ready_ne_blocked h
    · exact phase.queued_ne_blocked h
  · exact fun _ _ _ => trivial

/--
After any operations, to fill a queue up is to move the most urgent of the ready chunks into it, as
many as there are or as there is room for; they are returned in the order of their urgency, and
sent in it if they are to be processed now.  If the store refuses all writes after the first `n`,
just the first `n` of them are moved and sent, and this fails if there are more.
-/
theorem bulkSchedule_enqueues {settings : Settings} {listening : Bool} {store : Scripted σ}
    {s : Scheduler (.ofCount settings.partitions) (Scripted σ)}
    (hs : Reachable (fun _ _ => True) (start settings listening store) s)
    (hworks : LawfulStore.works s.board.store.inner) (now : Instant) (sink : Int32)
    (phase : Phase) :
  ∃ ks, s.grid.MostUrgent sink phase.ready
      (s.settings.maxEnqueued - s.grid.census sink phase.queued) ks ∧
    (bulkSchedule now sink phase).Yields s.mended
      (fun moved s' => moved = ks ∧ s.Enqueues now phase ks s') ∧
    ∀ n, (bulkSchedule now sink phase).Ends (s.refusing n)
      (fun moved s' => ks.length ≤ n ∧ moved = ks ∧ s.Enqueues now phase ks s')
      (fun _ s' => n < ks.length ∧ s.Enqueues now phase (ks.take n) s')
  := by
  have hcounted : s.Counted := hs.counted
  have hurgent := mostUrgent_chosen hcounted.filed sink phase
  have hnodup : (s.chosen sink phase).Nodup := by
    apply hurgent.ordered.imp
    rintro k _ ⟨t, u, ht, hu, h⟩ rfl
    obtain rfl := Option.some.inj (ht.symm.trans hu)
    exact Std.Irrefl.irrefl t h
  refine ⟨s.chosen sink phase, hurgent, ?_, ?_⟩
  · rw [Yields, ends_bulkSchedule (s := s.mended) ⟨hcounted.filed, hcounted.counts⟩]
    apply ((transitionAll_enqueues (s := s.mended) hcounted.filed now hnodup hurgent.isOf).and
      (commitsOnly_transitionAll now phase _ s.mended)).mono
    · rintro _ s' ⟨⟨hmoved, h, -⟩, -⟩
      exact ⟨hmoved, h.filed, h.moved, h.sent⟩
    · rintro _ _ ⟨-, hrefused⟩
      apply (hrefused hcounted.filed).2 (works_mended hworks)
  · intro n
    have hallows := allows_refusing hworks n
    rw [ends_bulkSchedule (s := s.refusing n) ⟨hcounted.filed, hcounted.counts⟩]
    apply (transitionAll_enqueues (s := s.refusing n) hcounted.filed now hnodup
      hurgent.isOf).mono
    · rintro _ s' ⟨hmoved, h, hle⟩
      exact ⟨hle n hallows, hmoved, h.filed, h.moved, h.sent⟩
    · rintro _ s' ⟨m, hm, h, heq⟩
      obtain rfl := heq n hallows
      exact ⟨hm, h.filed, h.moved, h.sent⟩

/-- Chunk 3 is queued; chunks 0, 1 and 2 are ready, and there is room for two of them. -/
def pressing : Scheduler (.ofCount narrow.partitions) (Scripted Memory) :=
  (Operation.run (start { narrow with maxEnqueued := 3 } true (Scripted.of (Memory.ofList []))) [
      (default, .register (.sample 1 3 []) none),
      (default, .forceMode 1 .processing .bulk),
      (default, .register (.sample 1 0 []) none),
      (default, .register { Chunk.sample 1 1 [] with priority := 5 } none),
      (default, .register { Chunk.sample 1 2 [] with priority := 5 } none)]).2

/-- The two more urgent chunks are moved; if the store takes one write, only the first of them. -/
theorem bulkSchedule_enqueues_of_pressing :
  (bulkSchedule default 1 .processing).Yields pressing.mended (fun moved s' =>
    moved = [⟨1, 1⟩, ⟨1, 2⟩] ∧ pressing.Enqueues default .processing moved s') ∧
  (bulkSchedule default 1 .processing).Ends (pressing.refusing 1) (fun _ _ => False)
    (fun _ s' => pressing.Enqueues default .processing [⟨1, 1⟩] s')
  := by
  have hs : Reachable (fun _ _ => True) (start { narrow with maxEnqueued := 3 } true
      (Scripted.of (Memory.ofList []))) pressing := Operation.reachable_run _ _
  have hworks : LawfulStore.works pressing.board.store.inner := trivial
  have houtcome : (bulkSchedule default 1 .processing).outcome pressing.mended
      = .ok [⟨1, 1⟩, ⟨1, 2⟩] := by decide +kernel
  generalize pressing = s at hs hworks houtcome ⊢
  obtain ⟨ks, -, hall, hsome⟩ := bulkSchedule_enqueues hs hworks default 1 .processing
  have hks : ks = [⟨1, 1⟩, ⟨1, 2⟩] := by
    obtain ⟨_, _, -, hmoved, rfl, -⟩ := yields_iff.mp ((yields_of_outcome houtcome).and hall)
    exact hmoved
  subst hks
  constructor
  · apply hall.mono
    rintro _ s' ⟨rfl, h⟩
    exact ⟨rfl, h⟩
  · apply (hsome 1).mono
    · rintro _ _ ⟨hle, -⟩
      exact absurd hle (by decide)
    · exact fun _ _ h => h.2

end Scheduler

end ChunkDispatch
