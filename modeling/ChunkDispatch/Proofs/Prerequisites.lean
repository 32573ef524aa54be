import ChunkDispatch.Prerequisites
import ChunkDispatch.Proofs.Grid

/-!
# Which prerequisites are chosen

Of some candidates the *latest* are those which hold one of the hashes and have the greatest key
of all candidates which hold it.  The prerequisites chosen from the candidates are the latest
ones which no other latest one waits for (`mem_minimal_iff`).
-/

namespace ChunkDispatch

namespace Prerequisites

variable {hashes : List Int32} {cs : List Tracker}

/-- A candidate which holds one of the hashes and has the greatest key of all that hold it. -/
def IsLatest (hashes : List Int32) (cs : List Tracker) (t : Tracker) : Prop :=
  t ∈ cs ∧ ∃ h ∈ hashes, t.hasHash h = true ∧ ∀ u ∈ cs, u.hasHash h = true → u.key ≤ t.key

/-! ### Collecting the latest holders -/

theorem later_self (t : Tracker) :
  later t t = t
  := by
  rw [later, if_neg Std.lt_irrefl]

theorem later_later (t u : Tracker) :
  later (later u t) t = later u t
  := by
  by_cases h : u.key < t.key
  · rw [later, later, if_pos h, if_neg Std.lt_irrefl]
  · rw [later, later, if_neg h, if_neg h]

/-- A tracker offered at several hashes is at each of them, unless a greater key is there. -/
theorem find?_foldl_offer (t : Tracker) (ℓ : List Int32) (m : SortedMap Int32 Tracker)
    (h : Int32) :
  (ℓ.foldl (offer t) m).find? h
    = if h ∈ ℓ then some ((m.find? h).elim t (later · t)) else m.find? h
  := by
  have hoffer : offer t = fun m h => m.alter h (fun o => o.elim t (later · t)) := by
    funext m h
    rw [offer]
    congr 1
    funext o
    cases o <;> rfl
  rw [hoffer]
  apply SortedMap.find?_foldl_alter_of_idem
  intro o
  cases o with
  | none => apply later_self
  | some u => apply later_later

/-- Of the trackers seen which hold the hash, one with the greatest key. -/
def IsLast (h : Int32) (seen : List Tracker) (t : Tracker) : Prop :=
  t ∈ seen ∧ t.hasHash h = true ∧ ∀ u ∈ seen, u.hasHash h = true → u.key ≤ t.key

section Snoc

variable {h : Int32} {seen : List Tracker} {t u : Tracker}

/-- A tracker which does not hold the hash makes no difference. -/
theorem IsLast.snoc_of_not (hu : IsLast h seen u) (ht : t.hasHash h ≠ true) :
  IsLast h (seen ++ [t]) u
  := by
  obtain ⟨hus, huh, hmax⟩ := hu
  refine ⟨List.mem_append_left _ hus, huh, ?_⟩
  rw [List.forall_mem_append, List.forall_mem_singleton]
  constructor
  · apply hmax
  · exact fun hth => absurd hth ht

/-- The first tracker which holds the hash is the last one so far. -/
theorem isLast_snoc (hseen : ∀ u ∈ seen, u.hasHash h ≠ true) (ht : t.hasHash h = true) :
  IsLast h (seen ++ [t]) t
  := by
  refine ⟨List.mem_append_right _ List.mem_cons_self, ht, ?_⟩
  rw [List.forall_mem_append, List.forall_mem_singleton]
  constructor
  · exact fun v hv hvh => absurd hvh (hseen v hv)
  · exact fun _ => Std.le_refl _

/-- Of the last tracker and another one which holds the hash, the later is the last. -/
theorem IsLast.snoc_later (hu : IsLast h seen u) (ht : t.hasHash h = true) :
  IsLast h (seen ++ [t]) (later u t)
  := by
  obtain ⟨hus, huh, hmax⟩ := hu
  rw [later]
  split
  · rename_i hlt
    refine ⟨List.mem_append_right _ List.mem_cons_self, ht, ?_⟩
    rw [List.forall_mem_append, List.forall_mem_singleton]
    constructor
    · intro v hv hvh
      apply Std.le_trans (hmax v hv hvh) (Std.le_of_lt hlt)
    · exact fun _ => Std.le_refl _
  · rename_i hlt
    refine ⟨List.mem_append_left _ hus, huh, ?_⟩
    rw [List.forall_mem_append, List.forall_mem_singleton]
    constructor
    · apply hmax
    · exact fun _ => Std.not_lt.mp hlt

end Snoc

/-- The map `m` holds the latest holder of each hash among the trackers seen. -/
structure Collects (hashes : List Int32) (seen : List Tracker) (m : SortedMap Int32 Tracker) :
    Prop where
  latest : ∀ h t, m.find? h = some t →
    h ∈ hashes ∧ t ∈ seen ∧ t.hasHash h = true ∧ ∀ u ∈ seen, u.hasHash h = true → u.key ≤ t.key
  found : ∀ h ∈ hashes, ∀ u ∈ seen, u.hasHash h = true → ∃ t, m.find? h = some t

theorem collects_nil :
  Collects hashes [] ∅
  := by
  constructor
  · intro h t ht
    cases ht
  · intro h _ u hu
    cases hu

theorem Collects.snoc {seen : List Tracker} {m : SortedMap Int32 Tracker}
    (hm : Collects hashes seen m) (t : Tracker) :
  Collects hashes (seen ++ [t]) ((hashes.filter t.hasHash).foldl (offer t) m)
  := by
  have hfind := find?_foldl_offer t (hashes.filter t.hasHash) m
  simp only [List.mem_filter] at hfind
  constructor
  · intro h u hu
    rw [hfind] at hu
    split at hu
    · rename_i hht
      obtain ⟨hh, ht⟩ := hht
      apply And.intro hh
      cases hv : m.find? h with
      | none =>
        obtain rfl : t = u := by simpa [hv] using hu
        apply isLast_snoc _ ht
        intro v hvs hvh
        obtain ⟨w, hw⟩ := hm.found h hh v hvs hvh
        cases hv.symm.trans hw
      | some v =>
        obtain rfl : later v t = u := by simpa [hv] using hu
        apply IsLast.snoc_later (hm.latest h v hv).2 ht
    · rename_i hnot
      obtain ⟨hh, hlast⟩ := hm.latest h u hu
      apply And.intro hh
      apply IsLast.snoc_of_not hlast
      exact fun ht => hnot ⟨hh, ht⟩
  · intro h hh u hu huh
    rw [hfind]
    split
    · exact ⟨_, rfl⟩
    · rename_i hnot
      rcases List.mem_append.mp hu with hu | hu
      · apply hm.found h hh u hu huh
      · obtain rfl := List.mem_singleton.mp hu
        exact absurd ⟨hh, huh⟩ hnot

theorem collects_latestHolders (hashes : List Int32) (cs : List Tracker) :
  Collects hashes cs (latestHolders hashes cs)
  := by
  have h : ∀ rest seen m, Collects hashes seen m → Collects hashes (seen ++ rest)
      (rest.foldl (fun m t => (hashes.filter t.hasHash).foldl (offer t) m) m) := by
    intro rest
    induction rest with
    | nil => simp
    | cons t rest ih =>
      intro seen m hm
      have hrest := ih (seen ++ [t]) _ (hm.snoc t)
      rw [List.append_assoc, List.singleton_append] at hrest
      apply hrest
  apply h cs [] ∅ collects_nil

/-! ### The chosen ones -/

/-- No two trackers of the list have one key. -/
def DistinctKeys (cs : List Tracker) : Prop :=
  ∀ t ∈ cs, ∀ u ∈ cs, t.key = u.key → t = u

theorem mem_latestHolders_values (hcs : DistinctKeys cs) {t : Tracker} :
  t ∈ (latestHolders hashes cs).values ↔ IsLatest hashes cs t
  := by
  have hm := collects_latestHolders hashes cs
  rw [SortedMap.mem_values_iff]
  constructor
  · rintro ⟨h, ht⟩
    obtain ⟨hh, htc, hth, hmax⟩ := hm.latest h t ht
    exact ⟨htc, h, hh, hth, hmax⟩
  · rintro ⟨htc, h, hh, hth, hmax⟩
    obtain ⟨u, hu⟩ := hm.found h hh t htc hth
    obtain ⟨-, huc, huh, humax⟩ := hm.latest h u hu
    refine ⟨h, ?_⟩
    rw [hu, hcs u huc t htc (Std.le_antisymm (hmax u huc huh) (humax t htc hth))]

theorem find?_chosen (hcs : DistinctKeys cs) {k : Key} {t : Tracker} :
  (chosen hashes cs).find? k = some t ↔ IsLatest hashes cs t ∧ t.key = k
  := by
  obtain ⟨hfound, hkept⟩ := SortedMap.find?_ofList
    ((latestHolders hashes cs).values.map (fun t => (t.key, t)))
  have hmem : ∀ {k u}, (chosen hashes cs).find? k = some u → IsLatest hashes cs u ∧ u.key = k := by
    intro k u hu
    obtain ⟨v, hv, hvu⟩ := List.mem_map.mp (hfound k u hu)
    cases hvu
    exact ⟨(mem_latestHolders_values hcs).mp hv, rfl⟩
  constructor
  · apply hmem
  · rintro ⟨ht, rfl⟩
    obtain ⟨u, hu⟩ := hkept (t.key, t)
      (List.mem_map.mpr ⟨t, (mem_latestHolders_values hcs).mpr ht, rfl⟩)
    obtain ⟨hlatest, hkey⟩ := hmem hu
    obtain rfl : t = u := hcs t ht.1 u hlatest.1 hkey.symm
    apply hu

theorem mem_covered {ts : List Tracker} {k : Key} :
  k ∈ covered ts ↔ ∃ t ∈ ts, k ∈ t.waitingOn
  := by
  rw [covered, SortedSet.mem_ofList, List.mem_flatMap]
  rfl

/-- The chosen keys are those of the latest candidates which no latest candidate waits for. -/
theorem mem_minimal_iff (hcs : DistinctKeys cs) {k : Key} :
  k ∈ minimal hashes cs
    ↔ (∃ t, IsLatest hashes cs t ∧ t.key = k) ∧ ∀ t, IsLatest hashes cs t → k ∉ t.waitingOn
  := by
  have hkeys : k ∈ (chosen hashes cs).keySet ↔ ∃ t, IsLatest hashes cs t ∧ t.key = k := by
    rw [SortedSet.mem_iff, SortedMap.keySet, SortedMap.mem_keys_iff]
    simp only [find?_chosen hcs]
  have hvalues : ∀ t, t ∈ (chosen hashes cs).values ↔ IsLatest hashes cs t := by
    intro t
    rw [SortedMap.mem_values_iff]
    simp [find?_chosen hcs]
  rw [minimal, SortedSet.mem_filter, hkeys]
  simp only [decide_eq_true_eq, mem_covered, hvalues]
  simp

end Prerequisites

end ChunkDispatch
