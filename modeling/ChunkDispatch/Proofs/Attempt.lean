import ChunkDispatch.Error
import Mathlib.Tactic.Use

/-!
# How attempts end

`x.Ends s Q E` says how the attempt `x` ends when it is made at the state `s`: a result and the
state after it satisfy `Q` if it succeeds, an error and the state it leaves satisfy `E` if it
fails.  Each way of putting attempts together has one equation, so that `Ends` of a program is
computed along the program.  Where it is enough to relate the state after to the state before,
`x.Walks T E` says so for every state, and is composed along the program.
-/

namespace ChunkDispatch.Attempt

variable {σ τ α β : Type}

/-- The attempt `x` made at `s` ends in `Q` when it succeeds and in `E` when it fails. -/
def Ends (x : Attempt σ α) (s : σ) (Q : α → σ → Prop) (E : Error → σ → Prop) : Prop :=
  match x s with
  | .ok a s' => Q a s'
  | .error e s' => E e s'

/-- The attempt `x` made at `s` succeeds, and ends in `Q`. -/
def Yields (x : Attempt σ α) (s : σ) (Q : α → σ → Prop) : Prop :=
  x.Ends s Q (fun _ _ => False)

variable {Q : α → σ → Prop} {E : Error → σ → Prop} {s : σ}

theorem ends_of_ok {x : Attempt σ α} {a : α} {s' : σ} (h : x s = .ok a s') :
  x.Ends s Q E ↔ Q a s'
  := by
  rw [Ends, h]

theorem ends_of_error {x : Attempt σ α} {e : Error} {s' : σ} (h : x s = .error e s') :
  x.Ends s Q E ↔ E e s'
  := by
  rw [Ends, h]

theorem yields_iff {x : Attempt σ α} :
  x.Yields s Q ↔ ∃ a s', x s = .ok a s' ∧ Q a s'
  := by
  rw [Yields]
  cases hx : x s with
  | ok a s' =>
    rw [ends_of_ok hx]
    constructor
    · intro h
      use a, s'
    · rintro ⟨_, _, ⟨⟩, h⟩
      apply h
  | error e s' =>
    rw [ends_of_error hx]
    simp

/-- A weaker end is reached as well. -/
theorem Ends.mono {x : Attempt σ α} {Q' : α → σ → Prop} {E' : Error → σ → Prop}
    (h : x.Ends s Q E) (hQ : ∀ a s', Q a s' → Q' a s') (hE : ∀ e s', E e s' → E' e s') :
  x.Ends s Q' E'
  := by
  rw [Ends] at h ⊢
  cases hx : x s with
  | ok a s' =>
    rw [hx] at h
    apply hQ _ _ h
  | error e s' =>
    rw [hx] at h
    apply hE _ _ h

/-- What holds of all results and errors holds of those of an attempt. -/
theorem ends_of_forall {x : Attempt σ α} (hQ : ∀ a s', Q a s') (hE : ∀ e s', E e s') :
  x.Ends s Q E
  := by
  rw [Ends]
  cases x s with
  | ok a s' => apply hQ
  | error e s' => apply hE

/-- An attempt ends in what it comes to. -/
theorem ends_self (x : Attempt σ α) (s : σ) :
  x.Ends s (fun a s' => x s = .ok a s') (fun e s' => x s = .error e s')
  := by
  rw [Ends]
  cases x s <;> rfl

/-- An end which is reached under a condition is reached, and holds under the condition. -/
theorem ends_imp {x : Attempt σ α} {c : Prop} (h : c → x.Ends s Q E) :
  x.Ends s (fun a s' => c → Q a s') (fun e s' => c → E e s')
  := by
  simp only [Ends] at h ⊢
  cases hx : x s with
  | ok a s' =>
    rw [hx] at h
    apply h
  | error e s' =>
    rw [hx] at h
    apply h

/-- An attempt which succeeds may end in anything when it fails. -/
theorem Yields.ends {x : Attempt σ α} {Q' : α → σ → Prop}
    (h : x.Yields s Q) (hQ : ∀ a s', Q a s' → Q' a s') :
  x.Ends s Q' E
  := h.mono hQ (fun _ _ => False.elim)

/-- Two ends which are both reached are reached together. -/
theorem Ends.and {x : Attempt σ α} {Q' : α → σ → Prop} {E' : Error → σ → Prop}
    (h : x.Ends s Q E) (h' : x.Ends s Q' E') :
  x.Ends s (fun a s' => Q a s' ∧ Q' a s') (fun e s' => E e s' ∧ E' e s')
  := by
  rw [Ends] at h h' ⊢
  cases hx : x s with
  | ok a s' =>
    rw [hx] at h h'
    exact ⟨h, h'⟩
  | error e s' =>
    rw [hx] at h h'
    exact ⟨h, h'⟩

theorem Yields.and {x : Attempt σ α} {Q' : α → σ → Prop}
    (h : x.Yields s Q) (h' : x.Yields s Q') :
  x.Yields s (fun a s' => Q a s' ∧ Q' a s')
  := by
  apply (Ends.and h h').mono
  · exact fun _ _ => id
  · exact fun _ _ => And.left

/-- Ends which are each reached are reached together. -/
theorem ends_forall {ι : Type} {x : Attempt σ α} {Q : ι → α → σ → Prop}
    {E : ι → Error → σ → Prop} (h : ∀ i, x.Ends s (Q i) (E i)) :
  x.Ends s (fun a s' => ∀ i, Q i a s') (fun e s' => ∀ i, E i e s')
  := by
  simp only [Ends] at h ⊢
  cases hx : x s with
  | ok a s' =>
    rw [hx] at h
    exact h
  | error e s' =>
    rw [hx] at h
    exact h

theorem Yields.mono {x : Attempt σ α} {Q' : α → σ → Prop}
    (h : x.Yields s Q) (hQ : ∀ a s', Q a s' → Q' a s') :
  x.Yields s Q'
  := h.ends hQ

/-- What holds however an attempt ends holds of the state after it. -/
theorem Ends.stateAfter {x : Attempt σ α} {P : σ → Prop}
    (h : x.Ends s (fun _ => P) (fun _ => P)) :
  P (x.stateAfter s)
  := by
  rw [Ends] at h
  rw [Attempt.stateAfter]
  cases hx : x s with
  | ok a s' => simpa only [hx] using h
  | error e s' => simpa only [hx] using h

theorem ends_of_stateAfter {x : Attempt σ α} {P : σ → Prop} (h : P (x.stateAfter s)) :
  x.Ends s (fun _ => P) (fun _ => P)
  := by
  rw [Ends]
  rw [Attempt.stateAfter] at h
  cases hx : x s with
  | ok a s' => simpa only [hx] using h
  | error e s' => simpa only [hx] using h

theorem Yields.stateAfter {x : Attempt σ α} {P : σ → Prop} (h : x.Yields s (fun _ => P)) :
  P (x.stateAfter s)
  := Ends.stateAfter (h.ends (fun _ _ => id))

theorem ends_of_outcome {x : Attempt σ α} {e : Error} (h : x.outcome s = .error e) :
  x.Ends s (fun _ _ => False) (fun e' _ => e' = e)
  := by
  rw [Ends]
  rw [Attempt.outcome] at h
  cases hx : x s with
  | ok a s' =>
    rw [hx] at h
    cases h
  | error e' s' =>
    rw [hx] at h
    exact Except.error.inj h

theorem yields_of_outcome {x : Attempt σ α} {a : α} (h : x.outcome s = .ok a) :
  x.Yields s (fun a' _ => a' = a)
  := by
  rw [Yields, Ends]
  rw [Attempt.outcome] at h
  cases hx : x s with
  | ok a' s' =>
    rw [hx] at h
    exact Except.ok.inj h
  | error e s' =>
    rw [hx] at h
    cases h

/-- An attempt comes to a result or to an error, with the end that belongs to it. -/
theorem Ends.outcome_cases {x : Attempt σ α} (h : x.Ends s Q E) :
  (∃ a, x.outcome s = .ok a ∧ Q a (x.stateAfter s)) ∨
    ∃ e, x.outcome s = .error e ∧ E e (x.stateAfter s)
  := by
  rw [Ends] at h
  rw [outcome, Attempt.stateAfter]
  cases hx : x s with
  | ok a s' =>
    rw [hx] at h
    exact Or.inl ⟨a, rfl, h⟩
  | error e s' =>
    rw [hx] at h
    exact Or.inr ⟨e, rfl, h⟩

/-- What goes on with an outcome comes to a result if the outcome is one. -/
theorem except_bind_ok_iff {ε : Type} {x : Except ε α} {f : α → Except ε β} {b : β} :
  (x >>= f) = .ok b ↔ ∃ a, x = .ok a ∧ f a = .ok b
  := by
  cases x with
  | error _ => exact iff_of_false (fun h => nomatch h) (fun ⟨_, h, _⟩ => nomatch h)
  | ok a =>
    constructor
    · exact fun h => ⟨a, rfl, h⟩
    · rintro ⟨_, ⟨⟩, h⟩
      exact h

/-- What becomes of the result does not touch the state. -/
theorem stateAfter_bind_pure (x : Attempt σ α) (f : α → β) :
  (x >>= fun a => pure (f a)).stateAfter s = x.stateAfter s
  := by
  simp only [Attempt.stateAfter, bind, EStateM.bind]
  cases x s <;> rfl

/-! ### Programs -/

@[simp]
theorem ends_pure (a : α) :
  (pure a : Attempt σ α).Ends s Q E ↔ Q a s
  := Iff.rfl

@[simp]
theorem ends_bind (x : Attempt σ α) (f : α → Attempt σ β) {Q : β → σ → Prop} :
  (x >>= f).Ends s Q E ↔ x.Ends s (fun a s' => (f a).Ends s' Q E) E
  := by
  unfold Ends
  simp only [bind, EStateM.bind]
  cases x s <;> rfl

@[simp]
theorem ends_get {Q : σ → σ → Prop} :
  (get : Attempt σ σ).Ends s Q E ↔ Q s s
  := Iff.rfl

@[simp]
theorem ends_set (s' : σ) {Q : PUnit → σ → Prop} :
  (set s' : Attempt σ PUnit).Ends s Q E ↔ Q ⟨⟩ s'
  := Iff.rfl

@[simp]
theorem ends_modify (f : σ → σ) {Q : PUnit → σ → Prop} :
  (modify f : Attempt σ PUnit).Ends s Q E ↔ Q ⟨⟩ (f s)
  := Iff.rfl

@[simp]
theorem ends_modifyGet (f : σ → α × σ) :
  (modifyGet f : Attempt σ α).Ends s Q E ↔ Q (f s).1 (f s).2
  := Iff.rfl

@[simp]
theorem ends_within (get : σ → τ) (set : τ → σ → σ) (x : Attempt τ α) :
  (x.within get set).Ends s Q E
    ↔ x.Ends (get s) (fun a t => Q a (set t s)) (fun e t => E e (set t s))
  := by
  unfold Ends within
  cases x (get s) <;> rfl

/-! ### Walks -/

/--
The attempt *walks* along `T` and `E` if the state it is made at and the state it leaves are related
by `T` when it succeeds and by `E` when it fails.
-/
def Walks (T E : σ → σ → Prop) (x : Attempt σ α) : Prop :=
  ∀ s, x.Ends s (fun _ => T s) (fun _ => E s)

/-- Steps along `T` may be put together, and a last one along `E` put behind them. -/
class Composes (T E : σ → σ → Prop) : Prop where
  refl : ∀ s, T s s
  trans : ∀ {s s' s''}, T s s' → T s' s'' → T s s''
  last : ∀ {s s' s''}, T s s' → E s' s'' → E s s''

section Walks

variable {T E : σ → σ → Prop}

theorem walks_ite {c : Prop} [Decidable c] {x y : Attempt σ α} (hx : c → x.Walks T E)
    (hy : ¬ c → y.Walks T E) :
  (if c then x else y).Walks T E
  := by
  split
  · apply hx ‹_›
  · apply hy ‹_›

theorem walks_modify {f : σ → σ} (h : ∀ s, T s (f s)) :
  (modify f : Attempt σ PUnit).Walks T E
  := h

theorem walks_modifyGet {f : σ → α × σ} (h : ∀ s, T s (f s).2) :
  (modifyGet f : Attempt σ α).Walks T E
  := h

/-- Nothing comes after an error. -/
theorem walks_throw (h : ∀ s, E s s) (e : Error) (f : α → Attempt σ β) :
  (throw e >>= f).Walks T E
  := h

theorem walks_within {get : σ → τ} {set : τ → σ → σ} {T' E' : τ → τ → Prop} {x : Attempt τ α}
    (hx : x.Walks T' E') (hT : ∀ s t, T' (get s) t → T s (set t s))
    (hE : ∀ s t, E' (get s) t → E s (set t s)) :
  (x.within get set).Walks T E
  := by
  intro s
  rw [ends_within]
  apply (hx (get s)).mono
  · exact fun _ t => hT s t
  · exact fun _ t => hE s t

/-- What leaves the state which a change of it leaves may read it, and come to any result. -/
theorem walks_bind_of_modify {x : Attempt σ β} {f : σ → σ} {rest : Attempt σ α}
    (hx : (x >>= fun _ => modify f).Walks T E)
    (hrest : ∀ s, rest.Yields s (fun _ s' => s' = f s)) :
  (x >>= fun _ => rest).Walks T E
  := by
  intro s
  have hx := hx s
  rw [ends_bind] at hx ⊢
  apply hx.mono
  · intro _ s' hT
    apply (hrest s').ends
    rintro _ _ rfl
    exact hT
  · exact fun _ _ => id

variable [Composes T E]

theorem walks_pure (a : α) :
  (pure a : Attempt σ α).Walks T E
  := Composes.refl E

theorem walks_get :
  (get : Attempt σ σ).Walks T E
  := Composes.refl E

theorem walks_bind {x : Attempt σ α} {f : α → Attempt σ β} (hx : x.Walks T E)
    (hf : ∀ a, (f a).Walks T E) :
  (x >>= f).Walks T E
  := by
  intro s
  rw [ends_bind]
  apply (hx s).mono
  · intro a s₁ h
    apply (hf a s₁).mono
    · exact fun _ _ => Composes.trans E h
    · exact fun _ _ => Composes.last h
  · exact fun _ _ => id

/-- What becomes of the result does not matter. -/
theorem walks_bind_pure {x : Attempt σ α} (hx : x.Walks T E) (f : α → β) :
  (x >>= fun a => pure (f a)).Walks T E
  := by
  apply walks_bind hx
  exact fun _ => walks_pure _

theorem walks_forM {f : α → Attempt σ PUnit} {ℓ : List α} (hf : ∀ a ∈ ℓ, (f a).Walks T E) :
  (ℓ.forM f).Walks T E
  := by
  induction ℓ with
  | nil => apply walks_pure
  | cons a rest ih =>
    apply walks_bind (hf a List.mem_cons_self)
    intro _
    apply ih
    exact fun b hb => hf b (List.mem_cons_of_mem a hb)

theorem walks_mapM {f : α → Attempt σ β} {ℓ : List α} (hf : ∀ a, (f a).Walks T E) :
  (ℓ.mapM f).Walks T E
  := by
  induction ℓ with
  | nil =>
    rw [List.mapM_nil]
    apply walks_pure
  | cons a rest ih =>
    rw [List.mapM_cons]
    apply walks_bind (hf a)
    intro _
    apply walks_bind ih
    exact fun _ => walks_pure _

end Walks

end ChunkDispatch.Attempt
