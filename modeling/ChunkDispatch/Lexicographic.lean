/-!
# Lexicographic orders

Values with a major and a minor part, each from a linear order, are ordered by the major part
first and by the minor part where the major parts agree.  If the two parts together determine a
value, this is a linear order again.
-/

namespace ChunkDispatch

universe u v w

section Lexicographic

variable {α : Type u} {β : Type v} {γ : Type w}

/-- Below or equal by the major part `f`, then by the minor part `g`. -/
def LexLE [LT α] [LE β] (f : γ → α) (g : γ → β) (x y : γ) : Prop :=
  f x < f y ∨ f x = f y ∧ g x ≤ g y

/-- Strictly below by the major part `f`, then by the minor part `g`. -/
def LexLT [LT α] [LT β] (f : γ → α) (g : γ → β) (x y : γ) : Prop :=
  f x < f y ∨ f x = f y ∧ g x < g y

instance [LT α] [LE β] [DecidableEq α] [DecidableLT α] [DecidableLE β]
    (f : γ → α) (g : γ → β) (x y : γ) : Decidable (LexLE f g x y) :=
  inferInstanceAs (Decidable (f x < f y ∨ f x = f y ∧ g x ≤ g y))

instance [LT α] [LT β] [DecidableEq α] [DecidableLT α] [DecidableLT β]
    (f : γ → α) (g : γ → β) (x y : γ) : Decidable (LexLT f g x y) :=
  inferInstanceAs (Decidable (f x < f y ∨ f x = f y ∧ g x < g y))

variable [LT α] [LE α] [Std.IsLinearOrder α] [Std.LawfulOrderLT α]
variable [LT β] [LE β] [Std.IsLinearOrder β] [Std.LawfulOrderLT β]

omit [LT β] [Std.LawfulOrderLT β] in
theorem isLinearOrder_of_lexLE [LE γ] {f : γ → α} {g : γ → β}
    (hle : ∀ {x y : γ}, x ≤ y ↔ LexLE f g x y)
    (hinj : ∀ {x y : γ}, f x = f y → g x = g y → x = y) :
  Std.IsLinearOrder γ where
  le_refl x := hle.mpr (Or.inr ⟨rfl, Std.le_refl _⟩)
  le_trans x y z hxy hyz := by
    rw [hle] at *
    rcases hxy with hxy | ⟨hxy, hxy'⟩
    · rcases hyz with hyz | ⟨hyz, _⟩
      · exact Or.inl (Std.lt_trans hxy hyz)
      · exact Or.inl (hyz ▸ hxy)
    · rcases hyz with hyz | ⟨hyz, hyz'⟩
      · exact Or.inl (hxy ▸ hyz)
      · exact Or.inr ⟨hxy.trans hyz, Std.le_trans hxy' hyz'⟩
  le_antisymm x y hxy hyx := by
    rw [hle] at *
    rcases hxy with hxy | ⟨hxy, hxy'⟩
    · rcases hyx with hyx | ⟨hyx, _⟩
      · exact absurd (Std.lt_trans hxy hyx) Std.lt_irrefl
      · exact absurd (hyx ▸ hxy) Std.lt_irrefl
    · rcases hyx with hyx | ⟨_, hyx'⟩
      · exact absurd (hxy ▸ hyx) Std.lt_irrefl
      · exact hinj hxy (Std.le_antisymm hxy' hyx')
  le_total x y := by
    rw [hle, hle]
    rcases Std.lt_trichotomy (f x) (f y) with h | h | h
    · exact Or.inl (Or.inl h)
    · rcases Std.le_total (a := g x) (b := g y) with h' | h'
      · exact Or.inl (Or.inr ⟨h, h'⟩)
      · exact Or.inr (Or.inr ⟨h.symm, h'⟩)
    · exact Or.inr (Or.inl h)

theorem lawfulOrderLT_of_lexLT [LE γ] [LT γ] {f : γ → α} {g : γ → β}
    (hle : ∀ {x y : γ}, x ≤ y ↔ LexLE f g x y) (hlt : ∀ {x y : γ}, x < y ↔ LexLT f g x y) :
  Std.LawfulOrderLT γ where
  lt_iff x y := by
    rw [hlt, hle, hle]
    constructor
    · rintro (h | ⟨h, h'⟩)
      · refine ⟨Or.inl h, ?_⟩
        rintro (h' | ⟨h', _⟩)
        · exact Std.lt_irrefl (Std.lt_trans h h')
        · exact Std.lt_irrefl (h' ▸ h)
      · refine ⟨Or.inr ⟨h, Std.le_of_lt h'⟩, ?_⟩
        rintro (h'' | ⟨_, h''⟩)
        · exact Std.lt_irrefl (h ▸ h'')
        · exact Std.not_lt.mpr h'' h'
    · rintro ⟨h | ⟨h, h'⟩, hn⟩
      · exact Or.inl h
      · refine Or.inr ⟨h, ?_⟩
        rw [← Std.not_le]
        exact fun hle => hn (Or.inr ⟨h.symm, hle⟩)

end Lexicographic

end ChunkDispatch
