import ChunkDispatch.Proofs.MatchKey
import ChunkDispatch.Proofs.Prerequisites
import ChunkDispatch.Proofs.WaitGraph
import Mathlib.Combinatorics.Enumerative.DoubleCounting

/-!
# That no order is lost

A candidate *holds* the hashes on its list, and *waits* for the members of its wait set.  The
prerequisites chosen from some candidates leave out every latest holder which another one waits for,
even if that one is left out itself.  No order is lost by this: unless candidates wait in a cycle,
following wait sets leads from a prerequisite to the greatest holder of each hash searched for.  The
prerequisites depend on the hashes and the candidates as sets only, and there are not more of them
than hashes.
-/

namespace ChunkDispatch

open Relation

namespace Prerequisites

variable {hashes hashes' : List Int32} {cs cs' : List Tracker} {h : Int32} {c d : Tracker}

/-- The candidate with the key `k` has `j` in its wait set. -/
def Waits (cs : List Tracker) (k j : Key) : Prop :=
  ∃ c ∈ cs, c.key = k ∧ j ∈ c.waitingOn

/-- The candidate holds the hash, and has the greatest key of all that hold it. -/
def IsGreatestHolder (cs : List Tracker) (h : Int32) (d : Tracker) : Prop :=
  d ∈ cs ∧ h ∈ d.hashes ∧ ∀ c ∈ cs, h ∈ c.hashes → c.key ≤ d.key

/-- The candidates differ in their keys, have their hashes in order and do not wait in a cycle. -/
structure Proper (cs : List Tracker) : Prop where
  distinct : (cs.map Tracker.key).Nodup
  ordered : ∀ c ∈ cs, c.hashes.Pairwise (· ≤ ·)
  acyclic : ∀ k, ¬ TransGen (Waits cs) k k

theorem distinctKeys_of_nodup (h : (cs.map Tracker.key).Nodup) :
  DistinctKeys cs
  := fun _ ht _ hu => List.inj_on_of_nodup_map h ht hu

/-! ### Greatest holders -/

theorem IsGreatestHolder.key_eq (hc : IsGreatestHolder cs h c) (hd : IsGreatestHolder cs h d) :
  c.key = d.key
  := Std.le_antisymm (hd.2.2 c hc.1 hc.2.1) (hc.2.2 d hd.1 hd.2.1)

/-- The latest candidates are the greatest holders of the hashes. -/
theorem isLatest_iff_isGreatestHolder (hordered : ∀ c ∈ cs, c.hashes.Pairwise (· ≤ ·)) :
  IsLatest hashes cs d ↔ ∃ h ∈ hashes, IsGreatestHolder cs h d
  := by
  have hholds : ∀ c ∈ cs, ∀ h, c.hasHash h = true ↔ h ∈ c.hashes :=
    fun c hc _ => Tracker.hasHash_iff (hordered c hc)
  constructor
  · rintro ⟨hd, h, hh, hdh, hmax⟩
    use h, hh, hd, (hholds d hd h).mp hdh
    exact fun c hc hch => hmax c hc ((hholds c hc h).mpr hch)
  · rintro ⟨h, hh, hd, hdh, hmax⟩
    use hd, h, hh, (hholds d hd h).mpr hdh
    exact fun c hc hch => hmax c hc ((hholds c hc h).mp hch)

/-- What is held at all has a greatest holder. -/
theorem exists_isGreatestHolder (hordered : ∀ c ∈ cs, c.hashes.Pairwise (· ≤ ·)) (hc : c ∈ cs)
    (hch : h ∈ c.hashes) :
  ∃ d, IsGreatestHolder cs h d
  := by
  have hcollects := collects_latestHolders [h] cs
  have hhash : c.hasHash h = true := (Tracker.hasHash_iff (hordered c hc)).mpr hch
  obtain ⟨d, hd⟩ := hcollects.found h List.mem_cons_self c hc hhash
  obtain ⟨-, hlast⟩ := hcollects.latest h d hd
  have hlatest : IsLatest [h] cs d := ⟨hlast.1, h, List.mem_cons_self, hlast.2⟩
  obtain ⟨h', hh', hgreatest⟩ := (isLatest_iff_isGreatestHolder hordered).mp hlatest
  rw [List.mem_singleton.mp hh'] at hgreatest
  use d

/-- On which place of the lists a hash or a candidate stands, and how often, makes no difference. -/
theorem isLatest_congr (hhashes : ∀ h, h ∈ hashes' ↔ h ∈ hashes) (hcs : ∀ c, c ∈ cs' ↔ c ∈ cs) :
  IsLatest hashes' cs' d ↔ IsLatest hashes cs d
  := by
  simp only [IsLatest, hhashes, hcs]

theorem minimal_congr (hdistinct : DistinctKeys cs) (hhashes : ∀ h, h ∈ hashes' ↔ h ∈ hashes)
    (hcs : ∀ c, c ∈ cs' ↔ c ∈ cs) :
  minimal hashes' cs' = minimal hashes cs
  := by
  have hdistinct' : DistinctKeys cs' :=
    fun t ht u hu => hdistinct t ((hcs t).mp ht) u ((hcs u).mp hu)
  apply SortedSet.ext
  intro k
  rw [mem_minimal_iff hdistinct', mem_minimal_iff hdistinct]
  simp only [isLatest_congr hhashes hcs]

/-! ### What is chosen -/

namespace Proper

variable (hcs : Proper cs)

include hcs

theorem mem_minimal {k : Key} :
  k ∈ minimal hashes cs ↔ (∃ h ∈ hashes, ∃ d, IsGreatestHolder cs h d ∧ d.key = k) ∧
    ∀ h ∈ hashes, ∀ d, IsGreatestHolder cs h d → k ∉ d.waitingOn
  := by
  rw [mem_minimal_iff (distinctKeys_of_nodup hcs.distinct)]
  simp only [isLatest_iff_isGreatestHolder hcs.ordered]
  apply and_congr
  · constructor
    · rintro ⟨d, ⟨h, hh, hd⟩, hkey⟩
      exact ⟨h, hh, d, hd, hkey⟩
    · rintro ⟨h, hh, d, hd, hkey⟩
      exact ⟨d, ⟨h, hh, hd⟩, hkey⟩
  · constructor
    · exact fun hnot h hh d hd => hnot d ⟨h, hh, hd⟩
    · rintro hnot d ⟨h, hh, hd⟩
      apply hnot h hh d hd

/-- There are not more prerequisites than hashes. -/
theorem size_minimal_le :
  (minimal hashes cs).size ≤ hashes.dedup.length
  := by
  rw [SortedSet.size, ← List.toFinset_card_of_nodup (SortedSet.nodup_toList _),
    ← List.card_toFinset]
  apply Finset.card_le_card_of_forall_subsingleton
    (fun k h => ∃ d, IsGreatestHolder cs h d ∧ d.key = k)
  · intro k hk
    obtain ⟨⟨h, hh, hd⟩, -⟩ := hcs.mem_minimal.mp (List.mem_toFinset.mp hk)
    use h, List.mem_toFinset.mpr hh
  · rintro h - _ ⟨-, d, hd, rfl⟩ _ ⟨-, d', hd', rfl⟩
    apply hd.key_eq hd'

/-- No prerequisite waits for another. -/
theorem not_mem_waitingOn {j k : Key} (hj : j ∈ minimal hashes cs) (hk : k ∈ minimal hashes cs) :
  ¬ Waits cs j k
  := by
  rintro ⟨c, hc, rfl, hmem⟩
  obtain ⟨⟨h, hh, d, hd, hkey⟩, -⟩ := hcs.mem_minimal.mp hj
  obtain rfl : d = c := distinctKeys_of_nodup hcs.distinct d hd.1 c hc hkey
  apply (hcs.mem_minimal.mp hk).2 h hh d hd hmem

/--
The greatest holder of a hash is a prerequisite, or following wait sets leads to it from one: of the
greatest holders from which it is reached one is first, and that one is chosen.
-/
theorem exists_prerequisite (hh : h ∈ hashes) (hd : IsGreatestHolder cs h d) :
  ∃ j ∈ minimal hashes cs, ReflTransGen (Waits cs) j d.key
  := by
  let S := { k | ∃ h ∈ hashes, ∃ d, IsGreatestHolder cs h d ∧ d.key = k }
  have hfinite : S.Finite := by
    apply (List.finite_toSet (cs.map Tracker.key)).subset
    rintro _ ⟨_, _, c, hc, rfl⟩
    apply List.mem_map_of_mem hc.1
  have hmem : d.key ∈ S := ⟨h, hh, d, hd, rfl⟩
  obtain ⟨j, hj, hjd, hfirst⟩ := exists_first hcs.acyclic hfinite hmem
  use j
  constructor
  · apply hcs.mem_minimal.mpr ⟨hj, _⟩
    intro h' hh' c hc hmem
    apply hfirst c.key ⟨h', hh', c, hc, rfl⟩ ⟨c, hc.1, rfl, hmem⟩
  · apply hjd

end Proper

/--
The prerequisites depend on the hashes and the candidates as sets only.  Each is the greatest holder
of a hash, there are not more of them than distinct hashes, and none waits for another.  The
greatest holder of each hash which is held is a prerequisite or is reached from one, so that there
are none only if no candidate holds a hash.
-/
theorem minimal_keeps_order (hcs : Proper cs) (hashes : List Int32) :
  (∀ hashes' cs', (∀ h, h ∈ hashes' ↔ h ∈ hashes) → (∀ c, c ∈ cs' ↔ c ∈ cs) →
      minimal hashes' cs' = minimal hashes cs) ∧
    (∀ k ∈ minimal hashes cs, ∃ h ∈ hashes, ∃ d, IsGreatestHolder cs h d ∧ d.key = k) ∧
    (minimal hashes cs).size ≤ hashes.dedup.length ∧
    (∀ j ∈ minimal hashes cs, ∀ k ∈ minimal hashes cs, ¬ Waits cs j k) ∧
    (∀ h ∈ hashes, (∃ c ∈ cs, h ∈ c.hashes) →
      ∃ d, IsGreatestHolder cs h d ∧ ∃ j ∈ minimal hashes cs, ReflTransGen (Waits cs) j d.key) ∧
    (minimal hashes cs = ∅ → ∀ h ∈ hashes, ∀ c ∈ cs, h ∉ c.hashes)
  := by
  have hreached : ∀ h ∈ hashes, (∃ c ∈ cs, h ∈ c.hashes) →
      ∃ d, IsGreatestHolder cs h d ∧
        ∃ j ∈ minimal hashes cs, ReflTransGen (Waits cs) j d.key := by
    rintro h hh ⟨c, hc, hch⟩
    obtain ⟨d, hd⟩ := exists_isGreatestHolder hcs.ordered hc hch
    use d, hd
    apply hcs.exists_prerequisite hh hd
  refine ⟨?_, ?_, hcs.size_minimal_le, ?_, hreached, ?_⟩
  · exact fun _ _ => minimal_congr (distinctKeys_of_nodup hcs.distinct)
  · exact fun k hk => (hcs.mem_minimal.mp hk).1
  · exact fun _ hj _ hk => hcs.not_mem_waitingOn hj hk
  · intro hempty h hh c hc hch
    obtain ⟨_, _, j, hj, _⟩ := hreached h hh ⟨c, hc, hch⟩
    rw [hempty] at hj
    apply List.not_mem_nil hj

/-- A tracker of the job 1 with some hashes, which waits for other chunks of the job. -/
def sample (chunk : Int32) (hashes : List Int32) (waitsFor : List Int32) : Tracker :=
  { (Chunk.track default ⟨⟨1, chunk⟩, 1, 1, ∅, 0⟩) with
    hashes := hashes
    waitingOn := .ofList (waitsFor.map (Key.mk 1)) }

/--
Of three chunks, each of which waits for the one before it, only the last is a prerequisite: the
second leaves out the first and is left out itself, and the first is reached from the last.
-/
theorem minimal_keeps_order_of_chain :
  let cs := [sample 0 [7] [], sample 1 [8, 8] [0], sample 2 [9] [1], sample 3 [5] [2]]
  Proper cs ∧ (minimal [9, 7, 8] cs).toList = [⟨1, 2⟩] ∧
    minimal [7, 8, 7, 9] cs.reverse = minimal [9, 7, 8] cs ∧
    ∃ d, IsGreatestHolder cs 7 d ∧ ∃ j ∈ minimal [9, 7, 8] cs, ReflTransGen (Waits cs) j d.key
  := by
  intro cs
  have hdown : ∀ c ∈ cs, ∀ k ∈ c.waitingOn.toList, k < c.key := by decide +kernel
  have hcs : Proper cs := by
    constructor
    · decide +kernel
    · decide +kernel
    · apply not_transGen_self_of_descending
      rintro _ k ⟨c, hc, rfl, hk⟩
      apply hdown c hc k hk
  obtain ⟨hsame, -, -, -, hreached, -⟩ := minimal_keeps_order hcs [9, 7, 8]
  refine ⟨hcs, by decide +kernel, ?_, ?_⟩
  · apply hsame
    · intro h
      simp only [List.mem_cons]
      tauto
    · exact fun _ => List.mem_reverse
  · apply hreached 7 (by decide) ⟨sample 0 [7] [], List.mem_cons_self, List.mem_cons_self⟩

end Prerequisites

end ChunkDispatch
