import Muduo.Lib.Machine

namespace Muduo.Lib

/-- What one round of a loop comes to. -/
inductive Turn (σ : Type)
  | again (s : σ)
  | done (s : σ)
  deriving DecidableEq

variable {σ φ : Type} (body : σ → Except φ (Turn σ))

/-- `while` with at most `fuel` rounds; `none` when they do not suffice. -/
def loop : Nat → σ → Option (Except φ σ)
  | 0, _ => none
  | fuel + 1, s =>
    match body s with
    | .error f => some (.error f)
    | .ok (.done t) => some (.ok t)
    | .ok (.again t) => loop fuel t

/-- The states in which a round of the loop begins. -/
inductive Heads (s : σ) : σ → Prop
  | start : Heads s s
  | next {t u : σ} : Heads s t → body t = .ok (.again u) → Heads s u

variable {body} {s t : σ} {f : φ} {fuel fuel' : Nat} {r r' : Except φ σ}

theorem loop_error (h : body s = .error f) : loop body (fuel + 1) s = some (.error f) := by
  simp only [loop, h]

theorem loop_done (h : body s = .ok (.done t)) : loop body (fuel + 1) s = some (.ok t) := by
  simp only [loop, h]

theorem loop_again (h : body s = .ok (.again t)) : loop body (fuel + 1) s = loop body fuel t := by
  simp only [loop, h]

theorem loop_mono (h : loop body fuel s = some r) (hle : fuel ≤ fuel') :
    loop body fuel' s = some r := by
  induction fuel generalizing s fuel' with
  | zero => cases h
  | succ fuel ih =>
    obtain ⟨n, rfl⟩ := Nat.exists_eq_add_of_le' (Nat.le_trans (Nat.le_add_left 1 fuel) hle)
    cases hb : body s with
    | error f =>
      rw [loop_error hb] at h
      exact (loop_error hb).trans h
    | ok turn =>
      cases turn with
      | done t =>
        rw [loop_done hb] at h
        exact (loop_done hb).trans h
      | again t =>
        rw [loop_again hb] at h
        exact (loop_again hb).trans (ih h (Nat.le_of_succ_le_succ hle))

/-- However often the loop may turn, it ends in one way only. -/
theorem loop_unique (h : loop body fuel s = some r) (h' : loop body fuel' s = some r') : r = r' := by
  have hm := loop_mono h (Nat.le_max_left fuel fuel')
  have hm' := loop_mono h' (Nat.le_max_right fuel fuel')
  exact Option.some.inj (hm.symm.trans hm')

/-- What follows the first round follows the loop's beginning. -/
theorem Heads.head {u : σ} (h : body s = .ok (.again t)) (ht : Heads body t u) :
    Heads body s u := by
  induction ht with
  | start => exact .next .start h
  | next _ hu ih => exact .next ih hu

theorem Heads.cases_head {u : σ} (h : Heads body s u) :
    u = s ∨ ∃ t, body s = .ok (.again t) ∧ Heads body t u := by
  induction h with
  | start => exact .inl rfl
  | next _ hu ih =>
    rcases ih with rfl | ⟨t, ht, hheads⟩
    · exact .inr ⟨_, hu, .start⟩
    · exact .inr ⟨t, ht, .next hheads hu⟩

/-- A loop that each round leads back into `I` never ends. -/
theorem loop_never {I : σ → Prop} (h : ∀ s, I s → ∃ t, body s = .ok (.again t) ∧ I t) (hs : I s)
    (fuel : Nat) : loop body fuel s = none := by
  induction fuel generalizing s with
  | zero => rfl
  | succ fuel ih =>
    obtain ⟨t, ht, hi⟩ := h s hs
    exact (loop_again ht).trans (ih hi)

end Muduo.Lib
