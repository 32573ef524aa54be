import ChunkDispatch.Proofs.Backing

/-!
# How trackers evolve

A tracker *evolves* into another if this is of the same lane, match keys and hashes, waits for
nothing new, and has no smaller priority; it *persists* if the number of retries is the same as
well.  Every change evolves the tracker it is applied to, a live tracker is not replaced when its
chunk is registered again, and loading brings back the trackers as they are.  So whatever operation
is made, and however it ends, what is found for a live chunk has evolved from what was found
before, and is not blocked unless that was.  Only a queued chunk which is sent again does not
persist: its retries are counted up, and since they are counted with 32 bits they start again from
below after the greatest number.
-/

namespace ChunkDispatch

open Attempt

/-! ### Evolution of one tracker -/

namespace Tracker

/-- The tracker `t'` is `t` at a later time. -/
structure Evolves (t t' : Tracker) : Prop extends Trims t t' where
  matchKeys : t'.matchKeys = t.matchKeys
  priority : t.priority ≤ t'.priority

instance : Std.Refl Evolves where
  refl t := ⟨Std.Refl.refl t, rfl, Int32.le_refl _⟩

instance : IsTrans Tracker Evolves where
  trans _ _ _ h h' := by
    use IsTrans.trans _ _ _ h.toTrims h'.toTrims
    · rw [h'.matchKeys, h.matchKeys]
    · apply Int32.le_trans h.priority h'.priority

/-- The tracker `t'` is `t` at a later time, and the chunk was not sent again since. -/
structure Persists (t t' : Tracker) : Prop extends Evolves t t' where
  retries : t'.retries = t.retries

instance : Std.Refl Persists where
  refl t := ⟨Std.Refl.refl t, rfl⟩

instance : IsTrans Tracker Persists where
  trans _ _ _ h h' := ⟨IsTrans.trans _ _ _ h.toEvolves h'.toEvolves, h'.retries.trans h.retries⟩

/-- A consistent tracker which waits for something new only then becomes blocked. -/
theorem Trims.not_blocked {t t' : Tracker} (h : t.Trims t') (ht : t.isConsistent = true)
    (hnot : t.status ≠ .blocked) :
  t'.status ≠ .blocked
  := by
  intro hblocked
  obtain ⟨j, hj⟩ := (isConsistent_iff.mp (h.consistent ht)).mp hblocked
  apply hnot
  apply (isConsistent_iff.mp ht).mpr ⟨j, h.within j hj⟩

end Tracker

/-! ### Evolution by changes -/

namespace Change

open Tracker

theorem Release.persists (c : Release) (t : Tracker) :
  t.Persists (c.apply t).2
  := by
  refine ⟨⟨(c.eases t).toTrims, ?_, ?_⟩, ?_⟩
  all_goals
    rw [Release.apply]
    simp only []
    repeat' split
  all_goals first | rfl | apply Int32.le_refl

theorem Force.persists (c : Force) (t : Tracker) :
  t.Persists (c.apply t).2
  := by
  refine ⟨⟨c.trims t, ?_, ?_⟩, ?_⟩
  all_goals
    rw [Force.apply]
    repeat' split
  all_goals first | rfl | apply Int32.le_refl

theorem Move.persists {c : Move} (hsource : c.source ≠ .blocked) (htarget : c.target ≠ .blocked)
    (t : Tracker) :
  t.Persists (c.apply t).2
  := by
  refine ⟨⟨Move.trims hsource htarget t, ?_, ?_⟩, ?_⟩
  all_goals
    rw [Move.apply]
    split
  all_goals first | rfl | apply Int32.le_refl

theorem Raise.persists (c : Raise) (t : Tracker) :
  t.Persists (c.apply t).2
  := by
  have htrims := (c.steady t).eases.toTrims
  rw [Raise.apply] at htrims ⊢
  by_cases hc : c.priority ≤ t.priority
  · rw [if_pos hc]
    apply Std.Refl.refl
  · rw [if_neg hc] at htrims ⊢
    exact ⟨⟨htrims, rfl, Int32.le_of_lt (Int32.not_le.mp hc)⟩, rfl⟩

theorem Resend.evolves (c : Resend) (t : Tracker) :
  t.Evolves (c.apply t).2
  := by
  have htrims := (c.steady t).eases.toTrims
  rw [Resend.apply] at htrims ⊢
  cases h : t.status.resendTarget? with
  | none => apply Std.Refl.refl
  | some target =>
    rw [h] at htrims
    exact ⟨htrims, rfl, Int32.le_refl _⟩

/-- A number of 32 bits is counted down by one more only if there is none above it. -/
theorem add_one_lt_iff (n : Int32) :
  n + 1 < n ↔ n = Int32.maxValue
  := by
  have hlow := n.le_toInt
  have hhigh := n.toInt_lt
  have hmax : Int32.maxValue.toInt = 2147483647 := rfl
  have hone : (1 : Int32).toInt = 1 := rfl
  rw [Int32.lt_iff_toInt_lt, Int32.toInt_add, ← Int32.toInt_inj, hmax, hone, Int.bmod_def]
  omega

/-- Sending a chunk again takes retries away only if it is queued and they cannot be counted up. -/
theorem Resend.retries_lt_iff (c : Resend) (t : Tracker) :
  (c.apply t).2.retries < t.retries
    ↔ t.status.resendTarget?.isSome = true ∧ t.retries = Int32.maxValue
  := by
  rw [Resend.apply]
  cases t.status.resendTarget? with
  | none => simp
  | some target => simpa using add_one_lt_iff t.retries

end Change

theorem Board.evolves_amend (now : Instant) {α : Type} {f : Tracker → α × Tracker} {t : Tracker}
    (h : t.Evolves (f t).2) :
  t.Evolves (amend now f t)
  := by
  obtain ⟨m, hm⟩ := exists_amend_eq now f t
  rw [hm]
  exact ⟨⟨h.lane, h.hashes, h.within, h.consistent⟩, h.matchKeys, h.priority⟩

theorem Board.amend_retries (now : Instant) {α : Type} (f : Tracker → α × Tracker) (t : Tracker) :
  (amend now f t).retries = (f t).2.retries
  := by
  obtain ⟨m, hm⟩ := exists_amend_eq now f t
  rw [hm]

theorem Board.persists_amend (now : Instant) {α : Type} {f : Tracker → α × Tracker} {t : Tracker}
    (h : t.Persists (f t).2) :
  t.Persists (amend now f t)
  := ⟨evolves_amend now h.toEvolves, (amend_retries now f t).trans h.retries⟩

/-! ### Evolution by operations -/

/-- What is written takes the place of something to which it is related by `E`. -/
def Descends (E : Tracker → Tracker → Prop) (old new : Option Tracker) : Prop :=
  ∀ t', new = some t' → ∃ t, old = some t ∧ E t t'

/-- What takes the place of something live is live and related to it by `E`. -/
def Survives (E : Tracker → Tracker → Prop) (old new : Option Tracker) : Prop :=
  ∀ t, old = some t → t.isLive = true → ∃ t', new = some t' ∧ t'.isLive = true ∧ E t t'

section Relations

variable {E : Tracker → Tracker → Prop}

instance [Std.Refl E] : Std.Refl (Descends E) where
  refl _ t ht := ⟨t, ht, Std.Refl.refl t⟩

instance [IsTrans Tracker E] : IsTrans (Option Tracker) (Descends E) where
  trans _ _ _ h h' := by
    intro v hv
    obtain ⟨u, hu, huv⟩ := h' v hv
    obtain ⟨t, ht, htu⟩ := h u hu
    exact ⟨t, ht, IsTrans.trans _ _ _ htu huv⟩

instance [Std.Refl E] : Std.Refl (Survives E) where
  refl _ t ht hlive := ⟨t, ht, hlive, Std.Refl.refl t⟩

instance [IsTrans Tracker E] : IsTrans (Option Tracker) (Survives E) where
  trans _ _ _ h h' := by
    intro t ht hlive
    obtain ⟨u, hu, hulive, htu⟩ := h t ht hlive
    obtain ⟨v, hv, hvlive, huv⟩ := h' u hu hulive
    exact ⟨v, hv, hvlive, IsTrans.trans _ _ _ htu huv⟩

theorem descends_of {t t' : Tracker} (h : E t t') :
  Descends E (some t) (some t')
  := by
  rintro _ ⟨⟩
  exact ⟨t, rfl, h⟩

theorem survives_of_not_live {old new : Option Tracker} (h : old.any Tracker.isLive = false) :
  Survives E old new
  := by
  rintro t rfl hlive
  cases h.symm.trans hlive

theorem survives_release (now : Instant) (c : Change.Release) {t : Tracker}
    (h : E t (Board.amend now c.apply t)) :
  Survives E (some t) (some (Board.amend now c.apply t))
  := by
  rintro _ ⟨⟩ hlive
  refine ⟨_, rfl, ?_, h⟩
  rw [Board.amend_isLive, c.apply_isLive, hlive]

end Relations

/-- Whatever is changed or removed, nothing appears, and what is not sent again persists. -/
theorem allowsEdits_persists (now : Instant) :
  AllowsEdits now (Descends Tracker.Persists)
  where
    release c t := descends_of (Board.persists_amend now (c.persists t))
    force c t := descends_of (Board.persists_amend now (c.persists t))
    move hsource htarget t :=
      descends_of (Board.persists_amend now (Change.Move.persists hsource htarget t))
    raise c t := descends_of (Board.persists_amend now (c.persists t))
    remove _ _ ht' := nomatch ht'

theorem Descends.mono {E E' : Tracker → Tracker → Prop} {old new : Option Tracker}
    (h : Descends E old new) (hE : ∀ t t', E t t' → E' t t') :
  Descends E' old new
  := by
  intro t' ht'
  obtain ⟨t, ht, hrel⟩ := h t' ht'
  exact ⟨t, ht, hE t t' hrel⟩

theorem AllowsEdits.mono {now : Instant} {P P' : Option Tracker → Option Tracker → Prop}
    (h : AllowsEdits now P) (hP : ∀ old new, P old new → P' old new) :
  AllowsEdits now P'
  where
    release c t := hP _ _ (h.release c t)
    force c t := hP _ _ (h.force c t)
    move hsource htarget t := hP _ _ (h.move hsource htarget t)
    raise c t := hP _ _ (h.raise c t)
    remove old := hP _ _ (h.remove old)

/-- Whatever is changed or removed, nothing appears. -/
theorem allows_descends (now : Instant) :
  Allows now (Descends Tracker.Evolves)
  where
    toAllowsEdits := (allowsEdits_persists now).mono
      (fun _ _ h => h.mono (fun _ _ => Tracker.Persists.toEvolves))
    resend c t := descends_of (Board.evolves_amend now (c.evolves t))

variable {p : Partitioner} {σ : Type} [Store σ] [LawfulStore σ]

/--
Whatever is found for a live chunk of a backed board after an operation is related by `E` to what
was found before, if `E` relates what is edited, and what is sent again where the operation does
that.
-/
theorem Operation.perform_relates {E : Tracker → Tracker → Prop} [Std.Refl E] [IsTrans Tracker E]
    {s : Scheduler p σ} (hs : s.board.Backed) {now : Instant} {o : Operation}
    (hedits : AllowsEdits now (Descends E))
    (hresend : ∀ k, o = resend k → ∀ t, E t (Board.amend now (Change.Resend.apply ⟨⟩) t))
    {k : Key} {t : Tracker} (ht : s.grid.find? k = some t) (hlive : t.isLive = true) :
  (o.perform now).Ends s (fun _ s' => ∀ t', s'.grid.find? k = some t' → E t t')
    (fun _ s' => ∀ t', s'.grid.find? k = some t' → E t t')
  := by
  by_cases hload : o = .load
  · have hkept : ∀ {s' : Scheduler p σ},
        (∀ k t, s.grid.find? k = some t → s'.grid.find? k = some t) →
        ∀ t', s'.grid.find? k = some t' → E t t' := by
      intro s' h t' ht'
      cases (h k t ht).symm.trans ht'
      apply Std.Refl.refl
    subst hload
    rw [perform, ends_bind]
    apply (Scheduler.load_backed hs now).mono
    · exact fun _ _ h => hkept h.2
    · exact fun _ _ h => hkept h.2
  by_cases hregister : ∃ c barrier, o = register c barrier
  · have hsurvives : ∀ {s' : Scheduler p σ}, s.board.Commits (Survives E) s'.board →
        ∀ t', s'.grid.find? k = some t' → E t t' := by
      intro s' h t' ht'
      obtain ⟨u, hu, -, hrel⟩ := h.rel k t ht hlive
      cases hu.symm.trans ht'
      apply hrel
    have hrelease : ∀ (j : Key) (u : Tracker),
        Survives E (some u) (some (Board.amend now (Change.Release.apply ⟨j⟩) u)) := by
      intro j u
      obtain ⟨_, ⟨⟩, hrel⟩ := hedits.release ⟨j⟩ u _ rfl
      apply survives_release now ⟨j⟩ hrel
    obtain ⟨c, barrier, rfl⟩ := hregister
    rw [perform, ends_bind]
    apply (Scheduler.commitsOnly_register (P := Survives E) (F := True) c barrier _ _ s).mono
    · exact fun _ _ h => hsurvives (h hs.filed)
    · exact fun _ _ h => hsurvives (h hs.filed).1
    · exact hrelease
    · exact fun _ _ hold _ _ => survives_of_not_live hold
  · have hdescends : ∀ {s' : Scheduler p σ}, s.board.Commits (Descends E) s'.board →
        ∀ t', s'.grid.find? k = some t' → E t t' := by
      intro s' h t' ht'
      obtain ⟨u, hu, hrel⟩ := h.rel k t' ht'
      cases hu.symm.trans ht
      apply hrel
    have hcommits := commitsOnly_of_allowsEdits (p := p) (σ := σ) hedits hload
      (fun c barrier heq => hregister ⟨c, barrier, heq⟩)
      (fun j heq u => descends_of (hresend j heq u))
    apply (hcommits s).mono
    · exact fun _ _ h => hdescends (h hs.filed)
    · exact fun _ _ h => hdescends (h hs.filed).1

/-- Whatever is found for a live chunk of a backed board after an operation has evolved. -/
theorem Operation.perform_evolves {s : Scheduler p σ} (hs : s.board.Backed) (now : Instant)
    (o : Operation) {k : Key} {t : Tracker} (ht : s.grid.find? k = some t)
    (hlive : t.isLive = true) :
  (o.perform now).Ends s (fun _ s' => ∀ t', s'.grid.find? k = some t' → t.Evolves t')
    (fun _ s' => ∀ t', s'.grid.find? k = some t' → t.Evolves t')
  := by
  apply perform_relates hs (allows_descends now).toAllowsEdits _ ht hlive
  exact fun _ _ u => Board.evolves_amend now (Change.Resend.evolves ⟨⟩ u)

/-- Unless chunks are sent again, what is found for a live chunk persists. -/
theorem Operation.perform_persists {s : Scheduler p σ} (hs : s.board.Backed) (now : Instant)
    {o : Operation} (ho : ∀ k, o ≠ resend k) {k : Key} {t : Tracker}
    (ht : s.grid.find? k = some t) (hlive : t.isLive = true) :
  (o.perform now).Ends s (fun _ s' => ∀ t', s'.grid.find? k = some t' → t.Persists t')
    (fun _ s' => ∀ t', s'.grid.find? k = some t' → t.Persists t')
  := by
  apply perform_relates hs (allowsEdits_persists now) _ ht hlive
  exact fun j heq => absurd heq (ho j)

/-- Sending a chunk again changes its tracker alone, unless the store refuses that. -/
theorem Operation.resend_ends {s : Scheduler p σ} (hs : s.grid.WellFiled) (now : Instant)
    (j : Key) :
  ((resend j).perform now).Ends s
    (fun _ s' => ∀ k, s'.grid.find? k =
      if k = j then (s.grid.find? j).map (Board.amend now (Change.Resend.apply ⟨⟩))
      else s.grid.find? k)
    (fun _ s' => s'.grid = s.grid)
  := by
  rw [perform, ends_bind, Scheduler.resend, Scheduler.ends_onBoard]
  apply (Board.adjust_ends s.board now j _).mono
  · rintro _ b ⟨-, h⟩
    apply Board.find?_changedAt (Change.Resend.apply_key _) hs h
  · exact fun _ _ h => h.grid

/--
The retries of a chunk become fewer exactly if it is queued and sent again, they cannot be counted
up, and the store takes it.
-/
theorem Operation.retries_lt_iff {s : Scheduler p σ} (hs : s.board.Backed) (now : Instant)
    (o : Operation) {k : Key} {t t' : Tracker} (ht : s.grid.find? k = some t)
    (hlive : t.isLive = true) (ht' : ((o.perform now).stateAfter s).grid.find? k = some t') :
  t'.retries < t.retries ↔ o = resend k ∧ t.status.resendTarget?.isSome = true ∧
    t.retries = Int32.maxValue ∧ ((o.perform now).outcome s).isOk = true
  := by
  by_cases hresend : ∃ j, o = resend j
  · obtain ⟨j, rfl⟩ := hresend
    rcases (resend_ends hs.filed now j).outcome_cases with ⟨a, ha, hfind⟩ | ⟨e, he, hgrid⟩
    · rw [hfind] at ht'
      split at ht'
      · rename_i heq
        subst heq
        rw [ht, Option.map_some] at ht'
        cases ht'
        rw [Board.amend_retries, Change.Resend.retries_lt_iff, ha]
        simp [Except.isOk, Except.toBool]
      · rename_i hne
        cases ht.symm.trans ht'
        simp [Ne.symm hne]
    · rw [hgrid, ht] at ht'
      cases ht'
      rw [he]
      simp [Except.isOk, Except.toBool]
  · have hno : ∀ j, o ≠ resend j := fun j heq => hresend ⟨j, heq⟩
    have hpersists := (perform_persists hs now hno ht hlive).stateAfter t' ht'
    rw [hpersists.retries]
    simp [hno]

/-! ### Evolution along a run -/

/-- As long as a chunk of a backed board is live, what is found for it evolves. -/
theorem Reachable.evolves {s s' : Scheduler p σ} (hs : s.board.Backed) {k : Key} {t : Tracker}
    (ht : s.grid.find? k = some t)
    (hs' : Reachable (fun s _ => s.grid.isLive k = true) s s') :
  s'.board.Backed ∧ ∀ t', s'.grid.find? k = some t' → t.Evolves t'
  := by
  induction hs' with
  | start =>
    use hs
    intro t' ht'
    cases ht.symm.trans ht'
    apply Std.Refl.refl
  | step now o _ hlive ih =>
    obtain ⟨hbacked, hevolves⟩ := ih
    use (Operation.perform_backed hbacked now o).stateAfter
    intro t' ht'
    obtain ⟨u, hu, hlive⟩ := Grid.isLive_iff.mp hlive
    apply IsTrans.trans t u t' (hevolves u hu)
    apply (Operation.perform_evolves hbacked now o hu hlive).stateAfter t' ht'

/-- A consistent row of a queued chunk which was sent again as often as can be counted. -/
def worn : Tracker :=
  { (Chunk.sample 1 0 []).track default with
    status := .queuedForProcessing
    retries := Int32.maxValue }

end ChunkDispatch
