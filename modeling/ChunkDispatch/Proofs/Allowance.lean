import ChunkDispatch.Proofs.Adjustment
import Mathlib.Order.Fin.Basic

/-!
# Stores which take so many writes

A scripted store *allows* `m` writes if it takes that many more and refuses all after them.  An
attempt *spends* `c` of the writes allowed if it succeeds and leaves the others when there are so
many, and fails and leaves none when there are fewer.  Going through the partitions spends one write
for each partition which is written to at all; if there are not enough of them, those written to are
the first.
-/

namespace ChunkDispatch

open Attempt

/-! ### Spending -/

/--
Made at `s`, where `m` writes are allowed, the attempt succeeds and leaves all but `c` of them, or
fails because there are fewer than `c`, and leaves none.
-/
def Attempt.Spends {τ α : Type} (allows : Nat → τ → Prop) (c : Nat) (x : Attempt τ α) (s : τ) :
    Prop :=
  ∀ m, allows m s →
    x.Ends s (fun _ s' => c ≤ m ∧ allows (m - c) s') (fun _ s' => m < c ∧ allows 0 s')

namespace Scripted

variable {σ α : Type} {rows : σ → Entries} {works : σ → Prop} {s : Scripted σ}

/-- The store behind works, the next `m` writes are taken, and all after them are refused. -/
def Allows (works : σ → Prop) (m : Nat) (s : Scripted σ) : Prop :=
  works s.inner ∧ ∀ i, s.writeRefusals.refuses (s.writeRefusals.asked + i) = decide (m ≤ i)

/-- A write spends one of those allowed. -/
theorem write_spends (w : Write) {x : Attempt σ Unit} {R : Unit → Entries → Prop}
    (hx : x.Acts rows works s.inner R) :
  Spends (Allows works) 1 (write w x) s
  := by
  rintro m ⟨hworks, hallows⟩
  have hnext : s.writeRefusals.next = decide (m ≤ 0) := hallows 0
  have hrest : ∀ i, s.writeRefusals.advance.refuses (s.writeRefusals.advance.asked + i)
      = decide (m ≤ i + 1) := by
    intro i
    rw [← hallows, ← Nat.add_assoc, Nat.add_right_comm]
    rfl
  rw [write, ends_bind, ends_get, ends_bind, ends_set, hnext]
  split
  · rename_i hrefused
    have hzero : m = 0 := by simpa using hrefused
    subst hzero
    refine ⟨Nat.one_pos, hworks, ?_⟩
    intro i
    rw [hrest]
    simp
  · rename_i htaken
    have hpos : 1 ≤ m := by
      have hm : ¬ m ≤ 0 := by simpa using htaken
      omega
    rw [onInner, ends_within]
    apply (hx.yields hworks).ends
    rintro _ t ⟨-, ht⟩
    refine ⟨hpos, ht, ?_⟩
    intro i
    rw [hrest]
    apply decide_eq_decide.mpr
    omega

end Scripted

/-! ### Actions of the board -/

namespace Board

variable {p : Partitioner} {σ α : Type} [Store σ] [LawfulStore σ] {b : Board p (Scripted σ)}

/-- The store of the board allows `m` writes. -/
def Allows (m : Nat) (b : Board p (Scripted σ)) : Prop :=
  b.store.Allows LawfulStore.works m

theorem onStore_spends {x : Attempt (Scripted σ) Unit}
    (hx : Spends (Scripted.Allows LawfulStore.works) 1 x b.store) :
  Spends Allows 1 (onStore x) b
  := by
  intro m hm
  rw [onStore, ends_within]
  apply hx m hm

/-- What is done to the board after a write does not touch what is allowed. -/
theorem onStore_modify_spends {x : Attempt (Scripted σ) Unit}
    (hx : Spends (Scripted.Allows LawfulStore.works) 1 x b.store)
    {f : Board p (Scripted σ) → Board p (Scripted σ)} (hf : ∀ b, (f b).store = b.store) (a : α) :
  Spends Allows 1 (do onStore x; modify f; return a) b
  := by
  intro m hm
  rw [ends_bind]
  apply (onStore_spends hx m hm).mono
  · rintro _ b' ⟨hle, hallows⟩
    rw [ends_bind, ends_modify, ends_pure, Allows, hf]
    exact ⟨hle, hallows⟩
  · exact fun _ _ => id

theorem set_spends (now : Instant) (t : Tracker) (b : Board p (Scripted σ)) :
  Spends Allows 1 (set now t) b
  := by
  apply onStore_modify_spends (α := Unit) _ (place_store now t) ()
  apply Scripted.write_spends _ (LawfulStore.put t b.store.inner)

theorem remove_spends (now : Instant) (k : Key) (b : Board p (Scripted σ)) :
  Spends Allows 1 (remove now k) b
  := by
  intro m hm
  rw [Board.remove, ends_bind]
  apply (onStore_spends (Scripted.write_spends _ (LawfulStore.delete k b.store.inner)) m hm).mono
  · rintro _ b' ⟨hle, hallows⟩
    rw [ends_bind, ends_get, ends_bind, ends_modify, ends_pure, Allows, drop_store]
    exact ⟨hle, hallows⟩
  · exact fun _ _ => id

/-- Adjusting a key spends a write if its tracker is changed. -/
theorem adjust_spends (now : Instant) (k : Key) (f : Tracker → α × Tracker)
    (b : Board p (Scripted σ)) :
  Spends Allows (changedAt now f b.grid k).length (adjust now k f) b
  := by
  intro m hm
  rw [adjust, ends_bind, ends_get, changedAt]
  cases b.grid.find? k with
  | none => exact ⟨Nat.zero_le m, hm⟩
  | some t =>
    simp only [Option.bind_some]
    cases changed? now t (f t).2 with
    | none => exact ⟨Nat.zero_le m, hm⟩
    | some u =>
      rw [ends_bind]
      apply (set_spends now u b m hm).mono
      · exact fun _ _ => id
      · exact fun _ _ => id

/-- The action on the partition spends a write if there is something to change. -/
theorem adjustIn_spends (now : Instant) (q : Tracker → Bool) (f : Tracker → α × Tracker)
    (i : Fin p.count) (b : Board p (Scripted σ)) :
  Spends Allows (!(changedIn now q f b.grid i).isEmpty).toNat (adjustIn now q f i) b
  := by
  intro m hm
  rw [adjustIn, ends_bind, ends_get]
  simp only []
  rw [← selectedIn, ← changedIn]
  generalize changedIn now q f b.grid i = changed
  cases hempty : changed.isEmpty with
  | true => exact ⟨Nat.zero_le m, hm⟩
  | false =>
    apply onStore_modify_spends _ (fun b => (foldl_place now changed b).2) _ m hm
    apply Scripted.write_spends _ (LawfulStore.putAll changed b.store.inner)

/-! ### Going through the partitions -/

/-- The partitions where `touches` holds, ascending. -/
def touched (touches : Fin p.count → Bool) : List (Fin p.count) :=
  (Grid.indices p).filter touches

/-- The first `m` members which pass a test, where the head of the list comes first. -/
theorem mem_take_filter_cons {α : Type} {test : α → Bool} {a b : α} {rest : List α} {m : Nat}
    (hle : (test a).toNat ≤ m) :
  b ∈ ((a :: rest).filter test).take m
    ↔ test a = true ∧ b = a ∨ b ∈ (rest.filter test).take (m - (test a).toNat)
  := by
  cases htest : test a with
  | false => simp [htest]
  | true =>
    rw [htest] at hle
    obtain ⟨n, rfl⟩ := Nat.exists_eq_add_of_le' hle
    simp [htest]

/--
The actions on the partitions make `F` of all that can be looked up there.  Where `touches` holds of
the partition this takes a write, and elsewhere there is nothing to do.
-/
structure Touching {β : Type} (F : Option Tracker → Option Tracker)
    (touches : Grid p → Fin p.count → Bool)
    (x : Fin p.count → Attempt (Board p (Scripted σ)) (List β)) : Prop where
  ends (i : Fin p.count) (b : Board p (Scripted σ)) (hb : b.grid.WellFiled) :
    (x i).Ends b
      (fun _ b' => b'.grid.WellFiled ∧
        ∀ k, b'.grid.find? k = if p.home k = i then F (b.grid.find? k) else b.grid.find? k)
      (fun _ b' => b'.grid = b.grid)
  spends (i : Fin p.count) (b : Board p (Scripted σ)) :
    Spends Allows (touches b.grid i).toNat (x i) b
  congr {i : Fin p.count} {g g' : Grid p} (hg : g.WellFiled) (hg' : g'.WellFiled)
    (hsame : ∀ k, p.home k = i → g'.find? k = g.find? k) :
    touches g' i = touches g i
  idle {g : Grid p} {k : Key} (hg : g.WellFiled) (hnot : touches g (p.home k) = false) :
    F (g.find? k) = g.find? k

namespace Touching

variable {β : Type} {F : Option Tracker → Option Tracker}
variable {touches : Grid p → Fin p.count → Bool}
variable {x : Fin p.count → Attempt (Board p (Scripted σ)) (List β)}
variable {i : Fin p.count} {rest : List (Fin p.count)} {g g₁ g₂ : Grid p}

/-- After one partition the same of the others are to be touched. -/
theorem filter_eq (hx : Touching F touches x) (hg : g.WellFiled) (hg₁ : g₁.WellFiled)
    (hi : i ∉ rest)
    (h₁ : ∀ k, g₁.find? k = if p.home k = i then F (g.find? k) else g.find? k) :
  rest.filter (touches g₁) = rest.filter (touches g)
  := by
  apply List.filter_congr
  intro j hj
  apply hx.congr hg hg₁
  intro k hk
  rw [h₁, if_neg]
  rintro hki
  exact hi (by rwa [← hki, hk])

/-- What is done in one partition and then in the rest is done in all of them. -/
theorem find?_cons (hx : Touching F touches x) (hg : g.WellFiled) (hi : i ∉ rest) {m : Nat}
    (hle : (touches g i).toNat ≤ m)
    (h₁ : ∀ k, g₁.find? k = if p.home k = i then F (g.find? k) else g.find? k)
    (h₂ : ∀ k, g₂.find? k
      = if p.home k ∈ (rest.filter (touches g)).take (m - (touches g i).toNat)
        then F (g₁.find? k) else g₁.find? k)
    (k : Key) :
  g₂.find? k = if p.home k ∈ ((i :: rest).filter (touches g)).take m
    then F (g.find? k) else g.find? k
  := by
  simp only [h₂, h₁, mem_take_filter_cons hle]
  by_cases hk : p.home k = i
  · have hnot : p.home k ∉ (rest.filter (touches g)).take (m - (touches g i).toNat) := by
      intro hmem
      apply hi
      rw [← hk]
      apply (List.mem_filter.mp (List.mem_of_mem_take hmem)).1
    rw [if_neg hnot, if_pos hk]
    cases htouches : touches g i with
    | true => simp [hk]
    | false =>
      rw [← hk] at htouches
      rw [hx.idle hg htouches, ite_self]
  · simp [hk]

/--
Going through partitions spends a write for each that is touched.  If there are not enough, what is
to be done is done in the first of those, and in no others.
-/
theorem mapM_ends (hx : Touching F touches x) {ℓ : List (Fin p.count)} (hℓ : ℓ.Nodup)
    (hb : b.grid.WellFiled) {m : Nat} (hm : b.Allows m) :
  (ℓ.mapM x).Ends b
    (fun _ b' => (ℓ.filter (touches b.grid)).length ≤ m ∧
      b'.Allows (m - (ℓ.filter (touches b.grid)).length))
    (fun _ b' => m < (ℓ.filter (touches b.grid)).length ∧ b'.grid.WellFiled ∧ b'.Allows 0 ∧
      ∀ k, b'.grid.find? k = if p.home k ∈ (ℓ.filter (touches b.grid)).take m
        then F (b.grid.find? k) else b.grid.find? k)
  := by
  induction ℓ generalizing b m with
  | nil =>
    rw [List.mapM_nil, ends_pure]
    exact ⟨Nat.zero_le m, hm⟩
  | cons i rest ih =>
    obtain ⟨hi, hrest⟩ := List.nodup_cons.mp hℓ
    have hlength : ((i :: rest).filter (touches b.grid)).length
        = (rest.filter (touches b.grid)).length + (touches b.grid i).toNat := by
      cases htouches : touches b.grid i <;> simp [htouches]
    rw [List.mapM_cons, ends_bind, hlength]
    apply ((hx.ends i b hb).and (hx.spends i b m hm)).mono
    · rintro rs b₁ ⟨⟨hb₁, hfind₁⟩, hle, hm₁⟩
      have hsame := hx.filter_eq hb hb₁ hi hfind₁
      rw [ends_bind]
      apply (ih hrest hb₁ hm₁).mono
      · rintro rss b₂ ⟨hle₂, hm₂⟩
        rw [hsame] at hle₂ hm₂
        rw [ends_pure]
        constructor
        · omega
        · rwa [Nat.add_comm, ← Nat.sub_sub]
      · rintro e b₂ ⟨hlt₂, hb₂, hm₂, hfind₂⟩
        rw [hsame] at hlt₂ hfind₂
        refine ⟨by omega, hb₂, hm₂, ?_⟩
        apply hx.find?_cons hb hi hle hfind₁ hfind₂
    -- A partition takes one write at most, so where that one is refused none was left.
    · rintro e b₁ ⟨hgrid, hlt, hm₁⟩
      have hzero : m = 0 := by
        have hone := Bool.toNat_le (touches b.grid i)
        omega
      subst hzero
      refine ⟨by omega, by rwa [hgrid], hm₁, ?_⟩
      intro k
      rw [hgrid, List.take_zero, if_neg List.not_mem_nil]

end Touching

/-- There is something to change in the partition. -/
def changesIn (now : Instant) (q : Tracker → Bool) (f : Tracker → α × Tracker) (g : Grid p)
    (i : Fin p.count) : Bool :=
  !(changedIn now q f g i).isEmpty

theorem changesIn_eq_true_iff {g : Grid p} (hg : g.WellFiled) (now : Instant)
    (q : Tracker → Bool) (f : Tracker → α × Tracker) (i : Fin p.count) :
  changesIn now q f g i = true
    ↔ ∃ k t, p.home k = i ∧ g.find? k = some t ∧ q t = true ∧ (f t).2 ≠ t
  := by
  have hempty : changesIn now q f g i = true ↔ ∃ u, u ∈ changedIn now q f g i := by
    cases h : changedIn now q f g i <;> simp [changesIn, h]
  rw [hempty]
  simp only [mem_changedIn hg]
  constructor
  · rintro ⟨u, t, ht, hi, hq, hc⟩
    refine ⟨t.key, t, hi, ht, hq, ?_⟩
    intro heq
    rw [changed?, if_pos heq] at hc
    cases hc
  · rintro ⟨k, t, hi, ht, hq, hne⟩
    obtain rfl := hg.key ht
    refine ⟨(f t).2.touch now, t, ht, hi, hq, ?_⟩
    rw [changed?, if_neg hne]

theorem touching_adjustIn (now : Instant) (q : Tracker → Bool) {f : Tracker → α × Tracker}
    (hf : ∀ t, (f t).2.key = t.key) :
  Touching (σ := σ) (Option.map (fun t => if q t then amend now f t else t))
    (changesIn (p := p) now q f) (adjustIn now q f)
  where
  ends i b hb := by
    apply ((visits_adjustIn now q hf i b hb).and (adjustIn_ends b now q f i)).mono
    · rintro _ b' ⟨⟨hb', -, -, hfind⟩, -⟩
      exact ⟨hb', hfind⟩
    · exact fun _ _ h => h.2.grid
  spends := adjustIn_spends now q f
  congr {i g g'} hg hg' hsame := by
    rw [Bool.eq_iff_iff, changesIn_eq_true_iff hg, changesIn_eq_true_iff hg']
    apply exists_congr
    intro k
    apply exists_congr
    intro t
    apply and_congr_right
    intro hi
    rw [hsame k hi]
  idle {g k} hg hnone := by
    cases ht : g.find? k with
    | none => rfl
    | some t =>
      rw [Option.map_some]
      congr 1
      split
      · rename_i hq
        apply amend_eq_of_unchanged
        rw [changed?, if_pos]
        apply Decidable.byContradiction
        intro hne
        have htrue := (changesIn_eq_true_iff hg now q f (p.home k)).mpr ⟨k, t, rfl, ht, hq, hne⟩
        cases hnone.symm.trans htrue
      · rfl

/-- Adjusting where a query holds spends a write for each partition in which a tracker changes. -/
theorem adjustWhere_spends (now : Instant) (q : Tracker → Bool) {f : Tracker → α × Tracker}
    (hf : ∀ t, (f t).2.key = t.key) (hb : b.grid.WellFiled) {m : Nat} (hm : b.Allows m) :
  (adjustWhere now q f).Ends b
    (fun _ b' => (touched (changesIn now q f b.grid)).length ≤ m ∧
      b'.Allows (m - (touched (changesIn now q f b.grid)).length))
    (fun _ b' => m < (touched (changesIn now q f b.grid)).length ∧ b'.grid.WellFiled ∧
      b'.Allows 0 ∧
      ∀ k, b'.grid.find? k = if p.home k ∈ (touched (changesIn now q f b.grid)).take m
        then (b.grid.find? k).map (fun t => if q t then amend now f t else t)
        else b.grid.find? k)
  := by
  rw [adjustWhere, ends_bind]
  apply ((touching_adjustIn now q hf).mapM_ends (List.nodup_finRange _) hb hm).mono
  · exact fun _ _ => id
  · exact fun _ _ => id

end Board

end ChunkDispatch
