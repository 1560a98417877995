import Mathlib.Tactic.Common

namespace Muduo.Lib

/-- The binary search of `std::lower_bound` over the positions `first .. first + len`: the
first of them whose element is not less than the value sought. -/
def lowerBound (less : Nat → Bool) (first len : Nat) : Nat :=
  if 0 < len then
    let half := len / 2
    let middle := first + half
    if less middle then lowerBound less (middle + 1) (len - half - 1)
    else lowerBound less first half
  else first
termination_by len

/-- On a partitioned range the search ends at the partition point. -/
theorem lowerBound_eq {less : Nat → Bool} {first len i : Nat} (hf : first ≤ i)
    (hl : i ≤ first + len)
    (hi : ∀ j, first ≤ j → j < first + len → (less j = true ↔ j < i)) :
    lowerBound less first len = i := by
  induction first, len using lowerBound.induct less with
  | case1 first len hpos half middle hless ih =>
    have hmid : middle < i := (hi middle (by omega) (by omega)).mp hless
    rw [lowerBound, if_pos hpos, if_pos hless]
    exact ih hmid (by omega) fun j hj hj' => hi j (by omega) (by omega)
  | case2 first len hpos half middle hless ih =>
    have hmid : ¬middle < i := fun hlt => hless ((hi middle (by omega) (by omega)).mpr hlt)
    rw [lowerBound, if_pos hpos, if_neg hless]
    exact ih hf (by omega) fun j hj hj' => hi j hj (by omega)
  | case3 first len hpos =>
    rw [lowerBound, if_neg hpos]
    omega

variable (less : Nat → Bool) (first len : Nat)

/-- On any range the search stays inside. -/
theorem lowerBound_le : lowerBound less first len ≤ first + len := by
  induction first, len using lowerBound.induct less with
  | case1 first len hpos half middle hless ih =>
    rw [lowerBound, if_pos hpos, if_pos hless]
    exact Nat.le_trans ih (by omega)
  | case2 first len hpos half middle hless ih =>
    rw [lowerBound, if_pos hpos, if_neg hless]
    exact Nat.le_trans ih (by omega)
  | case3 first len hpos =>
    rw [lowerBound, if_neg hpos]
    omega

/-- Where it ends before the end of the range, the element is not less than the value sought. -/
theorem lowerBound_not_less (h : lowerBound less first len < first + len) :
    ¬less (lowerBound less first len) := by
  induction first, len using lowerBound.induct less with
  | case1 first len hpos half middle hless ih =>
    rw [lowerBound, if_pos hpos, if_pos hless] at h ⊢
    exact ih (Nat.lt_of_lt_of_eq h (by omega))
  | case2 first len hpos half middle hless ih =>
    rw [lowerBound, if_pos hpos, if_neg hless] at h ⊢
    by_cases hmid : lowerBound less first half = middle
    · exact hmid ▸ hless
    · have := lowerBound_le less first half
      exact ih (by omega)
  | case3 first len hpos =>
    rw [lowerBound, if_neg hpos] at h
    omega

end Muduo.Lib
