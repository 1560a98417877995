import Mathlib.Data.Int.CardIntervalMod

namespace Muduo.Lib.RoundRobin

variable {n i j b : Nat}

/-- The place after `i` on a round of `n` places. -/
def after (n i : Nat) : Nat := if n ≤ i + 1 then 0 else i + 1

theorem after_mod (hn : 0 < n) (b : Nat) : after n (b % n) = (b + 1) % n := by
  have hlt := Nat.mod_lt b hn
  have hsum : (b + 1) % n = (b % n + 1) % n := by simp
  unfold after
  split
  · have hlast : b % n + 1 = n := by omega
    rw [hsum, hlast, Nat.mod_self]
  · rw [hsum]
    exact (Nat.mod_eq_of_lt (by omega)).symm

/-- How often the first `b` turns come to place `i`. -/
def share (n b i : Nat) : Nat := b.count fun m => m % n = i

theorem share_eq (hi : i < n) : share n b i = b / n + if i < b % n then 1 else 0 := by
  have hcount := Nat.count_modEq_card (b := b) (r := n) (by omega) i
  rw [Nat.mod_eq_of_lt hi] at hcount
  rw [← hcount]
  simp only [share, Nat.ModEq, Nat.mod_eq_of_lt hi]

/-- No place is ever more than one turn ahead of another. -/
theorem share_even (hi : i < n) (hj : j < n) : share n b i ≤ share n b j + 1 := by
  rw [share_eq hi, share_eq hj]
  split <;> split <;> omega

end Muduo.Lib.RoundRobin
