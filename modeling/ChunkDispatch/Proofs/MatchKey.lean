import ChunkDispatch.Tracker

/-!
# Binary search for a hash

On a list in order, in which a hash may be repeated, the binary search finds exactly the members.
So a tracker whose hashes are in order has a hash exactly if it is on its list.
-/

namespace ChunkDispatch

namespace MatchKey

/-- What the search finds is on the list, in whatever order the list is. -/
theorem mem_of_isOn {h : Int32} {fuel : Nat} {ℓ : List Int32} (hℓ : isOn h fuel ℓ = true) :
  h ∈ ℓ
  := by
  induction fuel generalizing ℓ with
  | zero =>
    apply List.mem_of_mem_head?
    simpa [isOn] using hℓ
  | succ fuel ih =>
    rw [isOn] at hℓ
    split at hℓ
    · cases hℓ
    · rename_i middle upper hdrop
      have hupper : ∀ x ∈ middle :: upper, x ∈ ℓ := by
        intro x hx
        rw [← hdrop] at hx
        apply List.mem_of_mem_drop hx
      split at hℓ
      · obtain rfl : middle = h := by simpa using hℓ
        apply hupper _ List.mem_cons_self
      · split at hℓ
        · apply List.mem_of_mem_take (ih hℓ)
        · apply hupper _ (ih hℓ)

/-- The search finds a member of a list in order which is no longer than the fuel. -/
theorem isOn_of_mem {h : Int32} {fuel : Nat} {ℓ : List Int32} (hℓ : ℓ.Pairwise (· ≤ ·))
    (hfuel : ℓ.length ≤ fuel) (hmem : h ∈ ℓ) :
  isOn h fuel ℓ = true
  := by
  induction fuel generalizing ℓ with
  | zero =>
    have hpos := List.length_pos_of_mem hmem
    omega
  | succ fuel ih =>
    have hpos := List.length_pos_of_mem hmem
    rw [← List.take_append_drop (ℓ.length / 2) ℓ] at hmem hℓ
    obtain ⟨htake, hdrop, hle⟩ := List.pairwise_append.mp hℓ
    have hlen : (ℓ.drop (ℓ.length / 2)).length = ℓ.length - ℓ.length / 2 := List.length_drop
    rw [isOn]
    split
    · rename_i hnil
      rw [hnil, List.length_nil] at hlen
      omega
    · rename_i middle upper hcons
      rw [hcons] at hmem hdrop hle hlen
      split
      · rename_i hhalf
        have hupper : upper = [] := by
          apply List.length_eq_zero_iff.mp
          rw [List.length_cons] at hlen
          omega
        rw [hhalf, hupper] at hmem
        simpa [eq_comm] using hmem
      · rename_i hhalf
        by_cases hlt : h < middle
        · rw [if_pos hlt]
          apply ih htake
          · rw [List.length_take]
            omega
          · apply (List.mem_append.mp hmem).resolve_right
            intro hm
            have hge : middle ≤ h := by
              rcases List.mem_cons.mp hm with rfl | hm
              · apply Std.le_refl
              · apply (List.pairwise_cons.mp hdrop).1 h hm
            exact Std.not_lt.mpr hge hlt
        · rw [if_neg hlt]
          apply ih hdrop
          · omega
          · rcases List.mem_append.mp hmem with hm | hm
            · rw [Std.le_antisymm (hle h hm middle List.mem_cons_self) (Std.not_lt.mp hlt)]
              apply List.mem_cons_self
            · apply hm

theorem search_iff {h : Int32} {ℓ : List Int32} (hℓ : ℓ.Pairwise (· ≤ ·)) :
  search h ℓ = true ↔ h ∈ ℓ
  := ⟨mem_of_isOn, isOn_of_mem hℓ (Nat.le_refl _)⟩

end MatchKey

namespace Tracker

theorem mem_hashes_of_hasHash {t : Tracker} {h : Int32} (ht : t.hasHash h = true) :
  h ∈ t.hashes
  := MatchKey.mem_of_isOn ht

theorem hasHash_iff {t : Tracker} {h : Int32} (ht : t.hashes.Pairwise (· ≤ ·)) :
  t.hasHash h = true ↔ h ∈ t.hashes
  := MatchKey.search_iff ht

end Tracker

end ChunkDispatch
