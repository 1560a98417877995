import Mathlib.Order.Monotone.Defs
import Mathlib.Order.Nat

namespace Muduo.Lib

/-- One customer is served at each moment of `times`, the next one not before `due`; `served`
counts those already served out of `total`. -/
def serve (due : Nat → Nat) (total served : Nat) : List Nat → Nat
  | [] => served
  | time :: times =>
    if served < total ∧ due served ≤ time then serve due total (served + 1) times
    else serve due total served times

/-- All are served exactly when for each of them enough moments are left from its due time on:
one for itself and one for each behind it. -/
theorem serve_all {due : Nat → Nat} (hdue : Monotone due) {total served : Nat}
    (hle : served ≤ total) {times : List Nat} (hs : times.Pairwise (· ≤ ·)) :
    serve due total served times = total ↔
      ∀ j, served ≤ j → j < total → total - j ≤ times.countP (due j ≤ ·) := by
  induction times generalizing served with
  | nil =>
    simp only [serve, List.countP_nil, Nat.le_zero]
    constructor
    · intro h j hj hlt
      omega
    · intro h
      by_contra hne
      have := h served (Nat.le_refl _) (by omega)
      omega
  | cons time times ih =>
    obtain ⟨hlater, hs⟩ := List.pairwise_cons.mp hs
    have hcount : ∀ j, (time :: times).countP (due j ≤ ·) =
        times.countP (due j ≤ ·) + if due j ≤ time then 1 else 0 := by
      intro j
      rw [List.countP_cons]
      simp only [decide_eq_true_eq]
    have hfull : ∀ j, due j ≤ time → times.countP (due j ≤ ·) = times.length := by
      intro j hj
      rw [List.countP_eq_length]
      exact fun t ht => decide_eq_true (hj.trans (hlater t ht))
    by_cases hnow : served < total ∧ due served ≤ time
    · obtain ⟨hlt, hready⟩ := hnow
      rw [serve, if_pos ⟨hlt, hready⟩, ih (by omega) hs]
      constructor
      · intro h j hj hjt
        rw [hcount]
        rcases Nat.eq_or_lt_of_le hj with rfl | hj
        · rw [if_pos hready, hfull _ hready]
          by_cases hnext : served + 1 < total
          · have := h (served + 1) (Nat.le_refl _) hnext
            have hbound : times.countP (due (served + 1) ≤ ·) ≤ times.length :=
              List.countP_le_length
            omega
          · omega
        · have := h j hj hjt
          omega
      · intro h j hj hjt
        have hfirst := h served (Nat.le_refl _) hlt
        have hself := h j (by omega) hjt
        rw [hcount, if_pos hready, hfull _ hready] at hfirst
        rw [hcount] at hself
        by_cases hj' : due j ≤ time
        · rw [hfull j hj']
          omega
        · rw [if_neg hj'] at hself
          exact hself
    · rw [serve, if_neg hnow, ih hle hs]
      refine forall_congr' fun j => forall_congr' fun hj => forall_congr' fun hjt => ?_
      have hlate : ¬due j ≤ time := fun hready =>
        hnow ⟨by omega, (hdue hj).trans hready⟩
      rw [hcount, if_neg hlate, Nat.add_zero]

end Muduo.Lib
