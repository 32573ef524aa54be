import ChunkDispatch.Proofs.Step
import Mathlib.Tactic.ByContra

/-!
# The first write

An attempt on a state with a scripted store in it *heeds* its first write if it changes nothing
that `Same` compares before a write is taken.  So it succeeds without a write, or its first write
was taken; or else it fails because its first write failed, or a later one did.  What it comes to
may tell whether something was done: without a write the result is not one of those which satisfy
`c`.  All actions of the board, loading apart, heed their first write.
-/

namespace ChunkDispatch

open Attempt

/-! ### What is asked of a store -/

namespace Scripted

variable {σ : Type} [Store σ] [LawfulStore σ]

/-- Some writes were asked for, perhaps none. -/
def Asks (st st' : Scripted σ) : Prop :=
  ∃ ws, st'.writes = st.writes ++ ws

/-- Writes were asked for, and the first of them was not to be refused. -/
def Takes (st st' : Scripted σ) : Prop :=
  st.writeRefusals.next = false ∧ ∃ w ws, st'.writes = st.writes ++ w :: ws

/-- One write was asked for, and the rows are as they were. -/
def Fails (st st' : Scripted σ) : Prop :=
  LawfulStore.rows st' = LawfulStore.rows st ∧ ∃ w, st'.writes = st.writes ++ [w]

/-- At least two writes were asked for, and the first of them was not to be refused. -/
def Breaks (st st' : Scripted σ) : Prop :=
  st.writeRefusals.next = false ∧ ∃ w w' ws, st'.writes = st.writes ++ w :: w' :: ws

variable {st st' st'' : Scripted σ}

omit [Store σ] [LawfulStore σ] in
theorem Asks.trans (h : Asks st st') (h' : Asks st' st'') :
  Asks st st''
  := by
  obtain ⟨ws, hws⟩ := h
  obtain ⟨ws', hws'⟩ := h'
  use ws ++ ws'
  rw [hws', hws, List.append_assoc]

omit [Store σ] [LawfulStore σ] in
theorem Takes.asks (h : Takes st st') :
  Asks st st'
  := by
  obtain ⟨-, w, ws, hws⟩ := h
  exact ⟨w :: ws, hws⟩

omit [Store σ] [LawfulStore σ] in
/-- What comes after does not undo that a write was taken. -/
theorem Takes.trans (h : Takes st st') (h' : Asks st' st'') :
  Takes st st''
  := by
  obtain ⟨hnext, w, ws, hws⟩ := h
  obtain ⟨ws', hws'⟩ := h'
  refine ⟨hnext, w, ws ++ ws', ?_⟩
  rw [hws', hws, List.append_assoc, List.cons_append]

omit [Store σ] [LawfulStore σ] in
theorem Takes.breaks (h : Takes st st') {w : Write} {ws : List Write}
    (h' : st''.writes = st'.writes ++ w :: ws) :
  Breaks st st''
  := by
  obtain ⟨hnext, w₀, ws₀, hws₀⟩ := h
  cases ws₀ with
  | nil =>
    refine ⟨hnext, w₀, w, ws, ?_⟩
    rw [h', hws₀, List.append_assoc]
    rfl
  | cons w₁ rest =>
    refine ⟨hnext, w₀, w₁, rest ++ w :: ws, ?_⟩
    rw [h', hws₀, List.append_assoc]
    rfl

omit [Store σ] [LawfulStore σ] in
theorem Takes.writes_ne (h : Takes st st') :
  st'.writes ≠ st.writes
  := by
  obtain ⟨-, w, ws, hws⟩ := h
  simp [hws]

omit [Store σ] [LawfulStore σ] in
theorem Breaks.takes (h : Breaks st st') :
  Takes st st'
  := by
  obtain ⟨hnext, w, w', ws, hws⟩ := h
  exact ⟨hnext, w, w' :: ws, hws⟩

end Scripted

open Scripted

/-! ### Attempts which heed their first write -/

namespace Attempt

section Heeds

variable {τ σ α β : Type} [Store σ] [LawfulStore σ] {store : τ → Scripted σ} {Same : τ → τ → Prop}

/-- Nothing was written, and nothing is other than it was, or the first write was taken. -/
def Proceeds (store : τ → Scripted σ) (Same : τ → τ → Prop) (s s' : τ) : Prop :=
  Same s s' ∧ store s' = store s ∨ Takes (store s) (store s')

/-- The first write failed, and nothing is other than it was, or a later write failed. -/
def Stops (store : τ → Scripted σ) (Same : τ → τ → Prop) (s s' : τ) : Prop :=
  Same s s' ∧ Fails (store s) (store s') ∨ Breaks (store s) (store s')

/-- The attempt heeds its first write, and if nothing is written its result does not satisfy `c`. -/
def Heeds (store : τ → Scripted σ) (Same : τ → τ → Prop) (c : α → Prop) (x : Attempt τ α) : Prop :=
  ∀ s, x.Ends s
    (fun a s' => Same s s' ∧ store s' = store s ∧ ¬ c a ∨ Takes (store s) (store s'))
    (fun _ => Stops store Same s)

/-- Writes may be asked for, and one is if it fails. -/
def Asks (store : τ → Scripted σ) (x : Attempt τ α) : Prop :=
  x.Walks (fun s s' => Scripted.Asks (store s) (store s'))
    (fun s s' => ∃ w ws, (store s').writes = (store s).writes ++ w :: ws)

omit [Store σ] [LawfulStore σ] in
instance : Composes (fun s s' : τ => Scripted.Asks (store s) (store s'))
    (fun s s' => ∃ w ws, (store s').writes = (store s).writes ++ w :: ws) where
  refl _ := ⟨[], (List.append_nil _).symm⟩
  trans h h' := h.trans h'
  last := by
    rintro s s' s'' ⟨ws, hws⟩ ⟨w, ws', hws'⟩
    obtain ⟨w', rest, hrest⟩ := List.exists_cons_of_ne_nil
      (List.append_ne_nil_of_right_ne_nil ws (List.cons_ne_nil w ws'))
    use w', rest
    rw [hws', hws, List.append_assoc, hrest]

omit [Store σ] [LawfulStore σ] in
/-- What does not touch the store asks for no write. -/
theorem asks_of_yields {x : Attempt τ α} (hx : ∀ s, x.Yields s (fun _ s' => store s' = store s)) :
  x.Asks store
  := by
  intro s
  apply (hx s).ends
  intro _ s' h
  use []
  rw [h, List.append_nil]

variable {c : α → Prop} {x : Attempt τ α}

theorem Heeds.walks (hx : x.Heeds store Same c) :
  x.Walks (Proceeds store Same) (Stops store Same)
  := by
  intro s
  apply (hx s).mono
  · rintro a s' (⟨hsame, hstore, -⟩ | htakes)
    · exact Or.inl ⟨hsame, hstore⟩
    · exact Or.inr htakes
  · exact fun _ _ => id

theorem heeds_of_walks (hx : x.Walks (Proceeds store Same) (Stops store Same)) :
  x.Heeds store Same (fun _ => False)
  := by
  intro s
  apply (hx s).mono
  · rintro a s' (⟨hsame, hstore⟩ | htakes)
    · exact Or.inl ⟨hsame, hstore, not_false⟩
    · exact Or.inr htakes
  · exact fun _ _ => id

theorem asks_of_walks (hx : x.Walks (Proceeds store Same) (Stops store Same)) :
  x.Asks store
  := by
  intro s
  apply (hx s).mono
  · rintro _ s' (⟨-, hstore⟩ | htakes)
    · use []
      rw [hstore, List.append_nil]
    · apply htakes.asks
  · rintro _ s' (⟨-, -, w, hw⟩ | ⟨-, w, w', ws, hws⟩)
    · exact ⟨w, [], hw⟩
    · exact ⟨w, w' :: ws, hws⟩

variable [Std.Refl Same] [IsTrans τ Same]

instance : Composes (Proceeds store Same) (Stops store Same) where
  refl s := Or.inl ⟨Std.Refl.refl s, rfl⟩
  trans := by
    rintro s s' s'' (⟨hsame, hstore⟩ | htakes) h'
    · rw [Proceeds, hstore] at h'
      obtain ⟨hsame', hstore'⟩ | htakes' := h'
      · exact Or.inl ⟨IsTrans.trans _ _ _ hsame hsame', hstore'⟩
      · exact Or.inr htakes'
    · right
      obtain ⟨-, hstore'⟩ | htakes' := h'
      · rwa [hstore']
      · apply htakes.trans htakes'.asks
  last := by
    rintro s s' s'' (⟨hsame, hstore⟩ | htakes) h'
    · rw [Stops, hstore] at h'
      obtain ⟨hsame', hfails⟩ | hbreaks := h'
      · exact Or.inl ⟨IsTrans.trans _ _ _ hsame hsame', hfails⟩
      · exact Or.inr hbreaks
    · right
      obtain ⟨-, -, w, hw⟩ | ⟨-, w, w', ws, hws⟩ := h'
      · apply htakes.breaks hw
      · apply htakes.breaks hws

/--
What comes after an attempt heeds the first write as well, if it does after a result which does not
satisfy `c`; after others a write was taken, and it may do anything.
-/
theorem Heeds.bind (hx : x.Heeds store Same c) {f : α → Attempt τ β} {d : β → Prop}
    (hf : ∀ a, ¬ c a → (f a).Heeds store Same d) (hasks : ∀ a, (f a).Asks store) :
  (x >>= f).Heeds store Same d
  := by
  intro s
  rw [ends_bind]
  apply (hx s).mono
  · rintro a s' (⟨hsame, hstore, hnot⟩ | htakes)
    · have hrest := hf a hnot s'
      rw [hstore] at hrest
      apply hrest.mono
      · rintro b s'' (⟨hsame', hrest⟩ | htakes)
        · exact Or.inl ⟨IsTrans.trans _ _ _ hsame hsame', hrest⟩
        · exact Or.inr htakes
      · have hproceeds : Proceeds store Same s s' := Or.inl ⟨hsame, hstore⟩
        exact fun _ _ h => Composes.last hproceeds h
    · apply (hasks a s').mono
      · exact fun _ _ h => Or.inr (htakes.trans h)
      · rintro _ s'' ⟨w, ws, h⟩
        exact Or.inr (htakes.breaks h)
  · exact fun _ _ => id

/-- Of a list of attempts the results together do not satisfy `c` if nothing was written. -/
theorem heeds_mapM {ι : Type} {x : ι → Attempt τ (List β)} {c : β → Prop}
    (hx : ∀ i, (x i).Heeds store Same (fun rs => ∃ r ∈ rs, c r)) (ℓ : List ι) :
  (ℓ.mapM x).Heeds store Same (fun rss => ∃ r ∈ rss.flatten, c r)
  := by
  induction ℓ with
  | nil =>
    intro s
    exact Or.inl ⟨Std.Refl.refl s, rfl, by simp⟩
  | cons i rest ih =>
    rw [List.mapM_cons]
    apply (hx i).bind
    · intro rs hrs
      apply ih.bind
      · intro rss hrss s
        refine Or.inl ⟨Std.Refl.refl s, rfl, ?_⟩
        rintro ⟨r, hr, hc⟩
        obtain hr | hr := List.mem_append.mp hr
        · exact hrs ⟨r, hr, hc⟩
        · exact hrss ⟨r, hr, hc⟩
      · exact fun _ => asks_of_yields (fun _ => rfl)
    · intro rs
      apply asks_of_walks
      apply walks_bind_pure ih.walks

end Heeds

end Attempt

/-! ### Actions of the board -/

namespace Board

variable {p : Partitioner} {σ α : Type} [Store σ] [LawfulStore σ]

/-- Nothing but the store is another. -/
def Same (b b' : Board p (Scripted σ)) : Prop :=
  b' = { b with store := b'.store }

instance : Std.Refl (Same (p := p) (σ := σ)) where
  refl _ := rfl

instance : IsTrans (Board p (Scripted σ)) Same where
  trans b b' b'' h h' := by
    rw [Same, h', h]

/-- A write, and what is done to the board once it is taken. -/
theorem heeds_write {x : Attempt σ Unit} {R : σ → Unit → Entries → Prop}
    (hx : ∀ s, x.Acts LawfulStore.rows LawfulStore.works s (R s)) (w : Write)
    {rest : Attempt (Board p (Scripted σ)) α}
    (hrest : ∀ b, rest.Yields b (fun _ b' => b'.store = b.store)) (c : α → Prop) :
  (do onStore (Scripted.write w x); rest).Heeds Board.store Same c
  := by
  intro b
  rw [ends_bind, onStore, ends_within]
  apply ((Scripted.write_ends w x b.store).and (Scripted.write_acts w (hx b.store.inner))).mono
  · rintro _ st ⟨⟨hwrites, hnext⟩, -⟩
    apply (hrest _).ends
    intro _ b' hb'
    right
    rw [hb']
    exact ⟨hnext, w, [], hwrites⟩
  · rintro _ st ⟨hwrites, hrows, -⟩
    exact Or.inl ⟨rfl, hrows, w, hwrites⟩

theorem heeds_set (now : Instant) (t : Tracker) (c : Unit → Prop) :
  (set now t : Attempt (Board p (Scripted σ)) Unit).Heeds Board.store Same c
  := by
  apply heeds_write (LawfulStore.put t)
  exact fun b => place_store now t b

/-- Each write is heeded, with what it does to the grid. -/
theorem writes_heed (now : Instant) :
  Writes (p := p) (σ := Scripted σ) now (Proceeds Board.store Same) (Stops Board.store Same)
  where
  set t := (heeds_set now t (fun _ => False)).walks
  setAll ts := by
    apply walks_ite
    · exact fun _ => walks_pure _
    · intro _
      apply Heeds.walks (c := fun _ => False)
      apply heeds_write (LawfulStore.putAll ts)
      exact fun b => (foldl_place now _ b).2
  putAll ts := by
    apply Heeds.walks (c := fun _ => False)
    apply heeds_write (LawfulStore.putAll ts)
    exact fun b => (foldl_place now ts b).2
  delete k := by
    apply Heeds.walks (c := fun _ => False)
    apply heeds_write (LawfulStore.delete k)
    exact fun b => drop_store now k b
  deleteAll ks := by
    apply Heeds.walks (c := fun _ => False)
    apply heeds_write (LawfulStore.deleteAll ks)
    exact fun b => (foldl_drop now ks b).2

/-- A tracker which is not written was left as it was, so that the result is not like that of a
change. -/
theorem heeds_adjust (now : Instant) (k : Key) {f : Tracker → α × Tracker} {c : Option α → Prop}
    (hnone : ¬ c none) (hc : ∀ t, (f t).2 = t → ¬ c (some (f t).1)) :
  (adjust now k f : Attempt (Board p (Scripted σ)) (Option α)).Heeds Board.store Same c
  := by
  intro b
  rw [adjust, ends_bind, ends_get]
  cases b.grid.find? k with
  | none => exact Or.inl ⟨rfl, rfl, hnone⟩
  | some t =>
    simp only []
    by_cases hsame : (f t).2 = t
    · rw [changed?, if_pos hsame]
      exact Or.inl ⟨rfl, rfl, hc t hsame⟩
    · rw [changed?, if_neg hsame]
      apply (heeds_set now _ (fun _ => True)).bind (fun _ h => absurd trivial h)
      exact fun _ => asks_of_yields (fun _ => rfl)

theorem heeds_adjustIn (now : Instant) (q : Tracker → Bool) {f : Tracker → α × Tracker}
    {c : α → Prop} (hc : ∀ t, (f t).2 = t → ¬ c (f t).1) (i : Fin p.count) :
  (adjustIn now q f i : Attempt (Board p (Scripted σ)) (List (Key × α))).Heeds Board.store Same
    (fun rs => ∃ r ∈ rs, c r.2)
  := by
  intro b
  rw [adjustIn, ends_bind, ends_get]
  simp only []
  split
  · apply heeds_write (LawfulStore.putAll _)
    intro b
    rw [Yields, ends_bind, ends_modify, ends_pure, (foldl_place now _ b).2]
  · rename_i hempty
    refine Or.inl ⟨rfl, rfl, ?_⟩
    rintro ⟨r, hr, hcr⟩
    obtain ⟨t, ht, rfl⟩ := List.mem_map.mp hr
    apply hc t _ hcr
    have hnone : changed? now t (f t).2 = none := by
      apply List.filterMap_eq_nil_iff.mp _ t ht
      simpa using hempty
    by_contra hne
    rw [changed?, if_neg hne] at hnone
    cases hnone

theorem heeds_adjustWhere (now : Instant) (q : Tracker → Bool) {f : Tracker → α × Tracker}
    {c : α → Prop} (hc : ∀ t, (f t).2 = t → ¬ c (f t).1) :
  (adjustWhere now q f : Attempt (Board p (Scripted σ)) (SortedMap Key α)).Heeds Board.store Same
    (fun rs => ∃ k a, rs.find? k = some a ∧ c a)
  := by
  apply (heeds_mapM (heeds_adjustIn now q hc) _).bind
  · rintro rss hrss b
    refine Or.inl ⟨rfl, rfl, ?_⟩
    rintro ⟨k, a, ha, hca⟩
    exact hrss ⟨(k, a), (SortedMap.find?_ofList _).1 k a ha, hca⟩
  · exact fun _ => asks_of_yields (fun _ => rfl)

omit [LawfulStore σ] in
/-- Loading asks for no write, and if it succeeds neither of its loads was to be refused. -/
theorem loadAll_asks (b : Board p (Scripted σ)) :
  loadAll.Ends b
    (fun _ b' => b'.store.writes = b.store.writes ∧ b.store.loadRefusals.next = false ∧
      b.store.loadRefusals.advance.next = false)
    (fun _ b' => b'.store.writes = b.store.writes)
  := by
  rw [loadAll, ends_bind, onStore, ends_within]
  apply (Scripted.load_ends _ b.store).mono
  · rintro keys st ⟨hwrites, hfirst, hadvance⟩
    rw [ends_bind, onStore, ends_within]
    apply (Scripted.load_ends _ st).mono
    · rintro ts st' ⟨hwrites', hsecond, -⟩
      rw [hadvance] at hsecond
      exact ⟨hwrites'.trans hwrites, hfirst, hsecond⟩
    · exact fun _ st' hwrites' => hwrites'.trans hwrites
  · exact fun _ _ => id

end Board

end ChunkDispatch
