import ChunkDispatch.Proofs.Aggregation
import ChunkDispatch.Proofs.Run

/-!
# The latest chunk of each channel

The tally of the *latest* live chunks offers the key of each live tracker to the channels of its
lane and its hashes, and a channel keeps the greatest key it is offered.  So it finds for a channel
the greatest live holder of the hash in the lane, however the trackers are split over partitions.
A registration looks for these by another way: it queries the trackers of the lane and picks the
latest holder of each hash from what it is answered.  Both come to the same.
-/

namespace ChunkDispatch

namespace Tally

variable {seen : List Tracker} {m : SortedMap Channel Key} {c : Channel} {k : Key} {t : Tracker}

/-! ### The tally -/

theorem laterKey_self (k : Key) (o : Option Key) :
  laterKey k (some (laterKey k o)) = laterKey k o
  := by
  cases o with
  | none => apply ite_self
  | some k' =>
    simp only [laterKey]
    grind

theorem find?_add_latest (m : SortedMap Channel Key) (t : Tracker) (c : Channel) :
  (latest.add m t).find? c
    = if c ∈ channels t then some (laterKey t.key (m.find? c)) else m.find? c
  := by
  rw [add_latest, offers, List.foldl_map]
  apply SortedMap.find?_foldl_alter_of_idem (laterKey_self t.key)

/-- The key is that of a tracker on the channel, and no tracker on the channel has a greater one. -/
def IsLastOn (c : Channel) (seen : List Tracker) (k : Key) : Prop :=
  (∃ t ∈ seen, c ∈ channels t ∧ t.key = k) ∧ ∀ t ∈ seen, c ∈ channels t → t.key ≤ k

/-- The map holds for each channel the latest of the trackers seen. -/
structure HoldsLatest (seen : List Tracker) (m : SortedMap Channel Key) : Prop where
  latest : ∀ c k, m.find? c = some k → IsLastOn c seen k
  found : ∀ t ∈ seen, ∀ c ∈ channels t, ∃ k, m.find? c = some k

theorem IsLastOn.snoc_of_not_mem (hk : IsLastOn c seen k) (ht : c ∉ channels t) :
  IsLastOn c (seen ++ [t]) k
  := by
  obtain ⟨⟨u, hu, huc, rfl⟩, hmax⟩ := hk
  constructor
  · exact ⟨u, List.mem_append_left _ hu, huc, rfl⟩
  · rw [List.forall_mem_append, List.forall_mem_singleton]
    exact ⟨hmax, fun htc => absurd htc ht⟩

/-- Of the latest so far and another one on the channel, the later is the latest. -/
theorem IsLastOn.snoc (hk : IsLastOn c seen k) (ht : c ∈ channels t) :
  IsLastOn c (seen ++ [t]) (laterKey t.key (some k))
  := by
  obtain ⟨⟨u, hu, huc, rfl⟩, hmax⟩ := hk
  simp only [laterKey]
  split
  · rename_i hlt
    constructor
    · exact ⟨t, List.mem_append_right _ List.mem_cons_self, ht, rfl⟩
    · rw [List.forall_mem_append, List.forall_mem_singleton]
      constructor
      · exact fun v hv hvc => Std.le_trans (hmax v hv hvc) (Std.le_of_lt hlt)
      · exact fun _ => Std.le_refl _
  · rename_i hlt
    constructor
    · exact ⟨u, List.mem_append_left _ hu, huc, rfl⟩
    · rw [List.forall_mem_append, List.forall_mem_singleton]
      exact ⟨hmax, fun _ => Std.not_lt.mp hlt⟩

theorem HoldsLatest.snoc (hm : HoldsLatest seen m) (t : Tracker) :
  HoldsLatest (seen ++ [t]) (Tally.latest.add m t)
  := by
  have hfind := find?_add_latest m t
  constructor
  · intro c k hk
    rw [hfind] at hk
    split at hk
    · rename_i ht
      cases hc : m.find? c with
      | none =>
        rw [hc] at hk
        obtain rfl : t.key = k := Option.some.inj hk
        constructor
        · exact ⟨t, List.mem_append_right _ List.mem_cons_self, ht, rfl⟩
        · rw [List.forall_mem_append, List.forall_mem_singleton]
          constructor
          · intro u hu huc
            obtain ⟨k', hk'⟩ := hm.found u hu c huc
            cases hc.symm.trans hk'
          · exact fun _ => Std.le_refl _
      | some k' =>
        rw [hc] at hk
        rw [← Option.some.inj hk]
        apply (hm.latest c k' hc).snoc ht
    · rename_i ht
      apply (hm.latest c k hk).snoc_of_not_mem ht
  · rw [List.forall_mem_append, List.forall_mem_singleton]
    constructor
    · intro u hu c huc
      rw [hfind]
      split
      · exact ⟨_, rfl⟩
      · apply hm.found u hu c huc
    · intro c htc
      rw [hfind, if_pos htc]
      exact ⟨_, rfl⟩

theorem holdsLatest_part (seen : List Tracker) :
  HoldsLatest seen (latest.part seen)
  := by
  induction seen using List.reverseRecOn with
  | nil =>
    constructor
    · intro c k hk
      cases hk
    · exact fun _ ht => absurd ht List.not_mem_nil
  | append_singleton seen t ih =>
    rw [part, List.foldl_append]
    apply ih.snoc

theorem HoldsLatest.find?_iff (hm : HoldsLatest seen m) :
  m.find? c = some k ↔ IsLastOn c seen k
  := by
  constructor
  · apply hm.latest
  · rintro ⟨⟨t, ht, htc, rfl⟩, hmax⟩
    obtain ⟨k', hk'⟩ := hm.found t ht c htc
    obtain ⟨⟨u, hu, huc, rfl⟩, hmax'⟩ := hm.latest c k' hk'
    rw [hk', Std.le_antisymm (hmax u hu huc) (hmax' t ht htc)]

end Tally

namespace Scheduler

variable {p : Partitioner} {σ : Type} {s : Scheduler p σ}

/-- What is found for a channel is the greatest live holder of the hash in the lane. -/
theorem find?_latest (hs : s.grid.WellFiled) {c : Channel} {k : Key} :
  s.latest.find? c = some k ↔ s.grid.IsGreatestHolder c.lane c.hash k
  := by
  have hholds : ∀ k, s.grid.Holds c.lane c.hash k
      ↔ ∃ t ∈ s.grid.trackers, c ∈ Tally.channels t ∧ t.key = k := by
    intro k
    simp only [Tally.mem_channels]
    constructor
    · rintro ⟨t, ht, hchannel⟩
      obtain rfl := hs.key ht
      exact ⟨t, (Grid.mem_trackers hs).mpr ht, hchannel, rfl⟩
    · rintro ⟨t, ht, hchannel, rfl⟩
      exact ⟨t, (Grid.mem_trackers hs).mp ht, hchannel⟩
  have hlatest : s.latest = Tally.latest.part s.grid.trackers :=
    Tally.addsUp_latest.ofParts_perm (Grid.perm_parts hs)
  rw [hlatest, (Tally.holdsLatest_part _).find?_iff, Tally.IsLastOn, Grid.IsGreatestHolder, hholds]
  simp only [hholds]
  apply and_congr_right
  intro _
  constructor
  · rintro hmax _ ⟨t, ht, htc, rfl⟩
    apply hmax t ht htc
  · intro hmax t ht htc
    apply hmax t.key ⟨t, ht, htc, rfl⟩

/-! ### What a registration finds -/

/-- What the tally of the latest chunks finds for the hashes of a tracker and of a barrier. -/
def lastHolders (s : Scheduler p σ) (t : Tracker) (barrier : Option String) : SortedSet Key :=
  .ofList ((t.hashes ++ (barrier.map MatchKey.hash).toList).filterMap (fun h =>
    s.latest.find? ⟨t.lane, h⟩))

theorem mem_lastHolders (hs : s.grid.WellFiled) {t : Tracker} {barrier : Option String}
    {k : Key} :
  k ∈ s.lastHolders t barrier ↔ ∃ h ∈ wanted t barrier, s.grid.IsGreatestHolder t.lane h k
  := by
  rw [lastHolders, SortedSet.mem_ofList, List.mem_filterMap]
  simp only [find?_latest hs, wanted, Query.Sharing.of, ← SortedSet.mem_iff, SortedSet.mem_ofList]

/--
A tracker which is not live and which nobody waits for has to wait for the latest chunks of its
channels and of that of the barrier, save those which another of them waits for.
-/
theorem prerequisites_agree_latest (hs : s.grid.WellFiled)
    (hordered : ∀ k u, s.grid.find? k = some u → u.hashes.Pairwise (· ≤ ·)) {t : Tracker}
    (hnew : s.grid.isLive t.key = false) (hawaited : ∀ k, ¬ s.grid.Waits k t.key)
    (barrier : Option String) (k : Key) :
  k ∈ s.prerequisites t barrier ↔ k ∈ s.lastHolders t barrier ∧
    ∀ j ∈ s.lastHolders t barrier, ¬ s.grid.Waits j k
  := by
  have hlatest : ∀ d, s.grid.Latest (asking t barrier) d ↔ d ∈ s.lastHolders t barrier := by
    intro d
    rw [mem_lastHolders hs, Grid.latest_iff (t := asking t barrier) hnew hawaited]
    rfl
  rw [mem_prerequisites_iff_asking hs hordered]
  simp only [hlatest]

/-- Of the latest chunks of three channels, one of them that of a barrier, the first is waited for
by the second and left out; the chunk of another lane is none of them. -/
theorem prerequisites_agree_latest_of_barrier :
  let s := afterAll [.register (.sample 1 0 ["a", "b"]) none, .register (.sample 1 1 ["a"]) none,
    .register (.sample 1 2 ["x"]) none, .register ((Chunk.sample 1 3 ["b"]).to 2) none]
  let t := (Chunk.sample 2 0 ["a", "b"]).track default
  s.grid.WellFiled ∧ (∀ k u, s.grid.find? k = some u → u.hashes.Pairwise (· ≤ ·)) ∧
    s.grid.isLive t.key = false ∧ (∀ k, ¬ s.grid.Waits k t.key) ∧
    (s.lastHolders t (some "x")).toList = [⟨1, 0⟩, ⟨1, 1⟩, ⟨1, 2⟩] ∧
    ⟨1, 0⟩ ∉ s.prerequisites t (some "x") ∧ ⟨1, 1⟩ ∈ s.prerequisites t (some "x")
  := by
  intro s t
  have hreachable : Reachable (fun _ _ => True) (start .standard true (.ofList [])) s :=
    reachable_afterAll (Operation.permits_of_forall (fun _ _ => trivial) _ _)
  obtain ⟨hs, htidy⟩ := hreachable.tidy trivial rfl
  have hordered : ∀ k u, s.grid.find? k = some u → u.hashes.Pairwise (· ≤ ·) :=
    fun k u hu => (htidy.ascending k u hu).imp Std.le_of_lt
  have hnew : s.grid.isLive t.key = false := by decide +kernel
  have htracked : ∀ u ∈ s.grid.trackers, t.key ∉ u.waitingOn := by decide +kernel
  have hawaited : ∀ k, ¬ s.grid.Waits k t.key := by
    rintro k ⟨u, hu, hmem⟩
    obtain rfl := hs.filed.key hu
    apply htracked u ((Grid.mem_trackers hs.filed).mpr hu) hmem
  have hholders : (s.lastHolders t (some "x")).toList = [⟨1, 0⟩, ⟨1, 1⟩, ⟨1, 2⟩] := by
    decide +kernel
  have hwaits : s.grid.Waits ⟨1, 1⟩ ⟨1, 0⟩ ∧
      ∀ j ∈ (s.lastHolders t (some "x")).toList, ¬ s.grid.Waits j ⟨1, 1⟩ := by
    decide +kernel
  have hagree := prerequisites_agree_latest hs.filed hordered hnew hawaited (some "x")
  refine ⟨hs.filed, hordered, hnew, hawaited, hholders, ?_, ?_⟩
  · intro hmem
    apply ((hagree ⟨1, 0⟩).mp hmem).2 ⟨1, 1⟩ _ hwaits.1
    rw [SortedSet.mem_iff, hholders]
    decide
  · apply (hagree ⟨1, 1⟩).mpr ⟨_, hwaits.2⟩
    rw [SortedSet.mem_iff, hholders]
    decide

end Scheduler

end ChunkDispatch
