import ChunkDispatch.Proofs.Change
import ChunkDispatch.Proofs.WaitGraph

/-!
# Orderly grids

A grid is *orderly* if its trackers are consistent, every key waited for is that of a live tracker
in the same lane which shares a hash, and no key reaches itself.  A grid is *chained* if of two live
trackers of a lane which share a hash the one with the greater key reaches the other.  Putting a
new tracker in keeps a grid orderly, and so does everything that only loosens the wait sets; it
keeps it chained if live trackers go on waiting for those that stay live.
-/

namespace ChunkDispatch

open Relation

namespace Grid

variable {p : Partitioner} {g g' : Grid p} {t : Tracker}

/-! ### Holders of a hash -/

/-- The key `k` is that of a live tracker of the lane which holds the hash. -/
def Holds (g : Grid p) (lane : Lane) (h : Int32) (k : Key) : Prop :=
  ∃ t, g.find? k = some t ∧ t.isLive = true ∧ t.lane = lane ∧ h ∈ t.hashes

instance (g : Grid p) (lane : Lane) (h : Int32) (k : Key) : Decidable (g.Holds lane h k) :=
  decidable_of_iff ((g.find? k).any (fun t => t.isLive && t.lane = lane && h ∈ t.hashes) = true)
    (by simp [Holds, Option.any_eq_true, and_assoc])

/-- The key `j` is that of a live tracker in the lane of `t` which shares a hash with it. -/
def Shares (g : Grid p) (t : Tracker) (j : Key) : Prop :=
  ∃ h ∈ t.hashes, g.Holds t.lane h j

theorem Holds.isLive {lane : Lane} {h : Int32} {k : Key} (hk : g.Holds lane h k) :
  g.isLive k = true
  := by
  obtain ⟨t, ht, hlive, -⟩ := hk
  apply isLive_iff.mpr ⟨t, ht, hlive⟩

theorem Shares.isLive {j : Key} (hj : g.Shares t j) :
  g.isLive j = true
  := by
  obtain ⟨h, -, hj⟩ := hj
  apply hj.isLive

/-- A tracker which is put in at a key that is not live hides no holder. -/
theorem Holds.insert {lane : Lane} {h : Int32} {k : Key} (hk : g.Holds lane h k)
    (hnew : g.isLive t.key = false) :
  (g.insert t).Holds lane h k
  := by
  have hne : k ≠ t.key := by
    rintro rfl
    cases hnew.symm.trans hk.isLive
  obtain ⟨u, hu, hrest⟩ := hk
  use u
  rw [find?_insert, if_neg hne]
  use hu

/-- The key `d` is the greatest of those of the live holders of the hash in the lane. -/
def IsGreatestHolder (g : Grid p) (lane : Lane) (h : Int32) (d : Key) : Prop :=
  g.Holds lane h d ∧ ∀ k, g.Holds lane h k → k ≤ d

/-- A hash which is held has a greatest holder. -/
theorem exists_isGreatestHolder {lane : Lane} {h : Int32} {k : Key} (hk : g.Holds lane h k) :
  ∃ d, g.IsGreatestHolder lane h d
  := by
  have hirrefl : ∀ a : Key, ¬ TransGen (fun a b => b < a) a a :=
    not_transGen_self_of_descending (fun _ _ => id)
  have hfinite : { k | g.Holds lane h k }.Finite := by
    apply g.finite_tracked.subset
    rintro k ⟨t, ht, -⟩
    exact ⟨t, ht⟩
  obtain ⟨d, hd, -, hfirst⟩ := exists_first hirrefl hfinite hk
  use d, hd
  intro j hj
  apply Std.not_lt.mp (hfirst j hj)

/-! ### Orderly grids -/

/-- The hashes of every tracker ascend, and every tracker is consistent. -/
structure Tidy (g : Grid p) : Prop where
  ascending : ∀ k t, g.find? k = some t → t.hashes.Pairwise (· < ·)
  consistent : ∀ k t, g.find? k = some t → t.isConsistent = true

/-- One key waits for the other, and both are live. -/
def WaitsLive (g : Grid p) (k j : Key) : Prop :=
  g.Waits k j ∧ g.isLive k = true ∧ g.isLive j = true

/-- The trackers wait without a cycle for live ones they share a hash with. -/
structure Orderly (g : Grid p) : Prop extends Tidy g where
  shares : ∀ k t, g.find? k = some t → ∀ j ∈ t.waitingOn, g.Shares t j
  acyclic : g.Acyclic

theorem orderly_empty :
  (empty p).Orderly
  := by
  have h : ∀ k t, (empty p).find? k ≠ some t := by
    intro k t ht
    rw [find?_empty] at ht
    cases ht
  constructor
  · constructor
    · exact fun k t ht => absurd ht (h k t)
    · exact fun k t ht => absurd ht (h k t)
  · exact fun k t ht => absurd ht (h k t)
  · intro k hk
    obtain ⟨_, ⟨t, ht, -⟩, -⟩ := TransGen.head'_iff.mp hk
    apply h k t ht

/-- The trackers of a tidy grid may be replaced by others which wait for fewer keys. -/
theorem Tidy.of_trims (hg : g.Tidy)
    (h : ∀ k t', g'.find? k = some t' → ∃ t, g.find? k = some t ∧ t.Trims t') :
  g'.Tidy
  := by
  constructor
  · intro k t' ht'
    obtain ⟨t, ht, htrims⟩ := h k t' ht'
    rw [htrims.hashes]
    apply hg.ascending k t ht
  · intro k t' ht'
    obtain ⟨t, ht, htrims⟩ := h k t' ht'
    apply htrims.consistent (hg.consistent k t ht)

theorem Tidy.insert (hg : g.Tidy) (hascending : t.hashes.Pairwise (· < ·))
    (hconsistent : t.isConsistent = true) :
  (g.insert t).Tidy
  := by
  constructor
  · intro k u hu
    rw [find?_insert] at hu
    split at hu
    · cases hu
      apply hascending
    · apply hg.ascending k u hu
  · intro k u hu
    rw [find?_insert] at hu
    split at hu
    · cases hu
      apply hconsistent
    · apply hg.consistent k u hu

/-- What waits is blocked. -/
theorem Tidy.blocked_of_waits (hg : g.Tidy) {k j : Key} (h : g.Waits k j) :
  ∃ t, g.find? k = some t ∧ t.status = .blocked
  := by
  obtain ⟨t, ht, hj⟩ := h
  use t, ht
  apply (Tracker.isConsistent_iff.mp (hg.consistent k t ht)).mpr ⟨j, hj⟩

/-- What waits is live. -/
theorem Tidy.isLive_left (hg : g.Tidy) {k j : Key} (h : g.Waits k j) :
  g.isLive k = true
  := by
  obtain ⟨t, ht, hblocked⟩ := hg.blocked_of_waits h
  apply isLive_iff.mpr ⟨t, ht, Tracker.isLive_of_blocked hblocked⟩

namespace Orderly

variable {k j : Key}

theorem shares_of_waits (hg : g.Orderly) (h : g.Waits k j) :
  ∃ t, g.find? k = some t ∧ g.Shares t j
  := by
  obtain ⟨t, ht, hj⟩ := h
  use t, ht
  apply hg.shares k t ht j hj

/-- What is waited for is live. -/
theorem isLive_right (hg : g.Orderly) (h : g.Waits k j) :
  g.isLive j = true
  := by
  obtain ⟨_, _, hj⟩ := hg.shares_of_waits h
  apply hj.isLive

/-- What is free waits for nothing. -/
theorem not_waits_of_isFree (hg : g.Orderly) (hk : g.isFree k = true) :
  ¬ g.Waits k j
  := by
  intro h
  obtain ⟨t, ht, -, hnot⟩ := isFree_iff.mp hk
  obtain ⟨u, hu, hblocked⟩ := hg.blocked_of_waits h
  obtain rfl : t = u := Option.some.inj (ht.symm.trans hu)
  apply hnot hblocked

/-- What is reached is live. -/
theorem isLive_of_reaches (hg : g.Orderly) (h : g.Reaches k j) :
  g.isLive j = true
  := by
  obtain ⟨_, -, hj⟩ := TransGen.tail'_iff.mp h
  apply hg.isLive_right hj

/-- Wait sets are followed through live trackers only. -/
theorem reaches_live (hg : g.Orderly) (h : g.Reaches k j) :
  TransGen g.WaitsLive k j
  := by
  apply TransGen.mono _ k j h
  intro a c hac
  exact ⟨hac, hg.isLive_left hac, hg.isLive_right hac⟩

/-- A blocked tracker reaches one which is free. -/
theorem exists_free (hg : g.Orderly) (ht : g.find? k = some t) (hblocked : t.status = .blocked) :
  ∃ j, g.Reaches k j ∧ g.isFree j = true
  := by
  have hacyclic : ∀ a, ¬ TransGen (Function.swap g.Waits) a a := by
    intro a ha
    apply hg.acyclic a (transGen_swap.mp ha)
  have hfinite : { k | g.isLive k = true }.Finite := by
    apply g.finite_tracked.subset
    intro k hk
    obtain ⟨u, hu, -⟩ := isLive_iff.mp hk
    exact ⟨u, hu⟩
  have hlive : g.isLive k = true :=
    isLive_iff.mpr ⟨t, ht, Tracker.isLive_of_blocked hblocked⟩
  obtain ⟨m, hm, hmk, hlast⟩ := exists_first hacyclic hfinite hlive
  obtain ⟨u, hu, hulive⟩ := isLive_iff.mp hm
  have hfree : u.status ≠ .blocked := by
    intro hu'
    obtain ⟨j, hj⟩ := (Tracker.isConsistent_iff.mp (hg.consistent m u hu)).mp hu'
    apply hlast j (hg.isLive_right ⟨u, hu, hj⟩) ⟨u, hu, hj⟩
  use m
  constructor
  · rcases reflTransGen_iff_eq_or_transGen.mp (reflTransGen_swap.mp hmk) with heq | h
    · subst heq
      obtain rfl : t = u := Option.some.inj (ht.symm.trans hu)
      exact absurd hblocked hfree
    · apply h
  · apply isFree_iff.mpr ⟨u, hu, hulive, hfree⟩

end Orderly

/-! ### Putting a new tracker in -/

/-- Nothing leads to a key which is not live. -/
theorem Orderly.not_reaches (hg : g.Orderly) {k j : Key} (hk : g.isLive k = false) :
  ¬ g.Reaches j k
  := by
  intro h
  cases hk.symm.trans (hg.isLive_of_reaches h)

/-- A new tracker which waits for live ones it shares with closes no cycle. -/
theorem Orderly.fresh (hg : g.Orderly) (hnew : g.isLive t.key = false)
    (hshares : ∀ j ∈ t.waitingOn, g.Shares t j) :
  ∀ j ∈ t.waitingOn, j ≠ t.key ∧ ¬ g.Reaches j t.key
  := by
  intro j hj
  constructor
  · rintro rfl
    cases hnew.symm.trans (hshares _ hj).isLive
  · apply hg.not_reaches hnew

theorem Orderly.insert (hg : g.Orderly) (hnew : g.isLive t.key = false)
    (hascending : t.hashes.Pairwise (· < ·)) (hconsistent : t.isConsistent = true)
    (hshares : ∀ j ∈ t.waitingOn, g.Shares t j) :
  (g.insert t).Orderly
  := by
  constructor
  · apply hg.toTidy.insert hascending hconsistent
  · intro k u hu j hj
    have hold : g.Shares u j := by
      rw [find?_insert] at hu
      split at hu
      · cases hu
        apply hshares j hj
      · apply hg.shares k u hu j hj
    obtain ⟨h, hh, hold⟩ := hold
    use h, hh
    apply hold.insert hnew
  · apply (acyclic_insert_iff hg.acyclic).mpr
    apply hg.fresh hnew hshares

/-! ### Loosening wait sets -/

/-- The trackers of `g'` are trackers of `g` which may wait for fewer keys, and what they wait for
has stayed live. -/
structure Loosens (g g' : Grid p) : Prop where
  origin : ∀ k t', g'.find? k = some t' → ∃ t, g.find? k = some t ∧ t.Trims t'
  alive : ∀ k j, g'.Waits k j → g.isLive j = true → g'.isLive j = true

theorem Loosens.waits (h : g.Loosens g') {k j : Key} (hkj : g'.Waits k j) :
  g.Waits k j
  := by
  obtain ⟨t', ht', hj⟩ := hkj
  obtain ⟨t, ht, htrims⟩ := h.origin k t' ht'
  use t, ht
  apply htrims.within j hj

/-- A holder which is live in both grids holds the same hashes in both. -/
theorem Loosens.holds (h : g.Loosens g') {lane : Lane} {a : Int32} {k : Key}
    (hk : g.Holds lane a k) (hk' : g'.isLive k = true) :
  g'.Holds lane a k
  := by
  obtain ⟨t, ht, -, hlane, hat⟩ := hk
  obtain ⟨t', ht', hlive'⟩ := isLive_iff.mp hk'
  obtain ⟨u, hu, htrims⟩ := h.origin k t' ht'
  obtain rfl : t = u := Option.some.inj (ht.symm.trans hu)
  refine ⟨t', ht', hlive', ?_, ?_⟩
  · rw [htrims.lane, hlane]
  · rw [htrims.hashes]
    apply hat

theorem Orderly.loosens (hg : g.Orderly) (h : g.Loosens g') :
  g'.Orderly
  := by
  constructor
  · apply hg.toTidy.of_trims h.origin
  · intro k t' ht' j hj
    obtain ⟨t, ht, htrims⟩ := h.origin k t' ht'
    obtain ⟨a, ha, hold⟩ := hg.shares k t ht j (htrims.within j hj)
    rw [Shares, htrims.hashes, htrims.lane]
    use a, ha
    apply h.holds hold
    apply h.alive k j ⟨t', ht', hj⟩ hold.isLive
  · apply hg.acyclic.mono
    exact fun _ _ => h.waits

theorem Each.loosens (h : Each Tracker.Eases g g') :
  g.Loosens g'
  := by
  constructor
  · intro k t' ht'
    obtain ⟨t, ht, heases⟩ := h.source ht'
    use t, ht
    apply heases.toTrims
  · intro _ j _ hj
    obtain ⟨u, hu, hlive⟩ := isLive_iff.mp hj
    obtain ⟨u', hu', heases⟩ := h.target hu
    apply isLive_iff.mpr ⟨u', hu', heases.live hlive⟩

/-! ### Chained grids -/

/-- Of two live trackers of a lane which share a hash the greater key reaches the other. -/
def Chained (g : Grid p) : Prop :=
  ∀ k t, g.find? k = some t → t.isLive = true → ∀ j, g.Shares t j → j < k → g.Reaches k j

/-- Of two holders of a hash in a lane the greater key reaches the other. -/
theorem Chained.holds (hchained : g.Chained) {lane : Lane} {h : Int32} {j k : Key}
    (hk : g.Holds lane h k) (hj : g.Holds lane h j) (hjk : j < k) :
  g.Reaches k j
  := by
  obtain ⟨t, ht, hlive, rfl, hh⟩ := hk
  apply hchained k t ht hlive j _ hjk
  use h, hh

theorem Chained.insert (hchained : g.Chained) (hg : g.Orderly) (hnew : g.isLive t.key = false)
    (hlast : ∀ j, g.Shares t j → j < t.key ∧ (g.insert t).Reaches t.key j) :
  (g.insert t).Chained
  := by
  intro k u hu hlive j hj hjk
  obtain ⟨a, hau, v, hv, hvlive, hlane, hav⟩ := hj
  rw [find?_insert] at hu hv
  split at hu
  · rename_i hk
    cases hu
    rw [if_neg (fun hj => Std.lt_irrefl (hk ▸ hj ▸ hjk))] at hv
    rw [hk]
    apply (hlast j ⟨a, hau, v, hv, hvlive, hlane, hav⟩).2
  · rename_i hk
    split at hv
    · rename_i hj
      cases hv
      have hkt := (hlast k ⟨a, hav, u, hu, hlive, hlane.symm, hau⟩).1
      exact absurd (Std.lt_trans (hj ▸ hjk) hkt) Std.lt_irrefl
    · rw [reaches_insert_of_not hk (hg.not_reaches hnew)]
      apply hchained k u hu hlive j ⟨a, hau, v, hv, hvlive, hlane, hav⟩ hjk

/-- The live trackers of `g'` were live in `g` and still wait for what has stayed live of what they
waited for; what waited in `g` has stayed live. -/
structure Preserves (g g' : Grid p) : Prop where
  origin : ∀ k t', g'.find? k = some t' → t'.isLive = true → ∃ t, g.find? k = some t ∧
    t.isLive = true ∧ t'.lane = t.lane ∧ t'.hashes = t.hashes ∧
      ∀ j ∈ t.waitingOn, g'.isLive j = true → j ∈ t'.waitingOn
  waiting : ∀ k j, g.Waits k j → g'.isLive k = true

/-- A path between keys which stay live stays. -/
theorem Preserves.reaches (h : g.Preserves g') {k j : Key} (hkj : g.Reaches k j)
    (hk : g'.isLive k = true) (hj : g'.isLive j = true) :
  g'.Reaches k j
  := by
  have hstep : ∀ {a c}, g.Waits a c → g'.isLive a = true → g'.isLive c = true →
      g'.Waits a c := by
    rintro a c ⟨t, ht, hc⟩ ha hclive
    obtain ⟨t', ht', hlive'⟩ := isLive_iff.mp ha
    obtain ⟨u, hu, -, -, -, hkeeps⟩ := h.origin a t' ht' hlive'
    obtain rfl : t = u := Option.some.inj (ht.symm.trans hu)
    use t', ht'
    apply hkeeps c hc hclive
  induction hkj using TransGen.head_induction_on with
  | single hab => apply TransGen.single (hstep hab hk hj)
  | @head a c hac hcj ih =>
    obtain ⟨d, hcd, -⟩ := TransGen.head'_iff.mp hcj
    have hc : g'.isLive c = true := h.waiting c d hcd
    apply TransGen.head (hstep hac hk hc) (ih hc)

theorem Chained.preserves (hchained : g.Chained) (h : g.Preserves g') :
  g'.Chained
  := by
  intro k t' ht' hlive' j hj hjk
  apply h.reaches _ (isLive_iff.mpr ⟨t', ht', hlive'⟩) hj.isLive
  obtain ⟨a, hat, u', hu', hulive', hlane, hau⟩ := hj
  obtain ⟨t, ht, hlive, htlane, hthashes, -⟩ := h.origin k t' ht' hlive'
  obtain ⟨u, hu, hulive, hulane, huhashes, -⟩ := h.origin j u' hu' hulive'
  rw [hulane, htlane] at hlane
  rw [hthashes] at hat
  rw [huhashes] at hau
  apply hchained k t ht hlive j ⟨a, hat, u, hu, hulive, hlane, hau⟩ hjk

theorem Each.preserves (h : Each Tracker.Steady g g') (hg : g.Orderly) :
  g.Preserves g'
  := by
  constructor
  · intro k t' ht' hlive'
    obtain ⟨t, ht, hsteady⟩ := h.source ht'
    refine ⟨t, ht, ?_, hsteady.lane, hsteady.hashes, ?_⟩
    · rw [← hsteady.isLive]
      apply hlive'
    · rw [hsteady.waitingOn]
      exact fun _ hj _ => hj
  · intro k j hkj
    obtain ⟨t, ht, hlive⟩ := isLive_iff.mp (hg.isLive_left hkj)
    obtain ⟨t', ht', hsteady⟩ := h.target ht
    rw [← hsteady.isLive] at hlive
    apply isLive_iff.mpr ⟨t', ht', hlive⟩

end Grid

end ChunkDispatch
