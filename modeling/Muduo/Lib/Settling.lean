import Muduo.Lib.Machine

namespace Muduo.Lib.Machine

variable {σ ε φ : Type*} {m : Machine σ ε φ} {c : σ → ε → Prop} {I : σ → Prop} {μ : σ → Nat}

/-- Where every step that meets `c` lowers a measure, a run of such steps is no longer than it. -/
theorem Reaches.bounded
    (hstep : ∀ s e t, I s → m.enabled s e → c s e → m.step s e = .ok t → I t ∧ μ t < μ s)
    {s t : σ} {es : List ε} (hi : I s) (h : m.Reaches c s es t) :
    I t ∧ es.length + μ t ≤ μ s := by
  induction es generalizing s with
  | nil =>
    cases h.2
    exact ⟨hi, Nat.le_of_eq (Nat.zero_add _)⟩
  | cons e es ih =>
    obtain ⟨u, hu, hrun⟩ := bind_ok h.2
    obtain ⟨hiu, hlt⟩ := hstep s e u hi h.1.1 h.1.2.1 hu
    obtain ⟨hit, hle⟩ := ih hiu ⟨h.1.2.2 u hu, hrun⟩
    refine ⟨hit, ?_⟩
    simp only [List.length_cons]
    omega

/-- Where, besides, such a step is there for every state that is not at rest, some run of them
comes to rest. -/
theorem exists_rest {Rest : σ → Prop}
    (hstep : ∀ s e t, I s → m.enabled s e → c s e → m.step s e = .ok t → I t ∧ μ t < μ s)
    (hcan : ∀ s, I s → ¬Rest s → ∃ e t, m.enabled s e ∧ c s e ∧ m.step s e = .ok t)
    {s : σ} (hi : I s) : ∃ es t, m.Reaches c s es t ∧ Rest t := by
  induction hn : μ s using Nat.strongRecOn generalizing s with
  | ind n ih =>
    by_cases hr : Rest s
    · exact ⟨[], s, .refl s, hr⟩
    · obtain ⟨e, t, he, hc, ht⟩ := hcan s hi hr
      obtain ⟨hit, hlt⟩ := hstep s e t hi he hc ht
      obtain ⟨es, u, hreach, hrest⟩ := ih (μ t) (hn ▸ hlt) hit rfl
      exact ⟨e :: es, u, .cons he hc ht hreach, hrest⟩

end Muduo.Lib.Machine
