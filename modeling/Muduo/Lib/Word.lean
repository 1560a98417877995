import Mathlib.Algebra.Group.Int.Defs
import Mathlib.Algebra.Group.Nat.Defs
import Mathlib.Tactic.Common

namespace Muduo.Lib.Word

/-- Unsigned machine arithmetic: a word of `w` bits is a natural below `2 ^ w`. -/
@[irreducible] def add (w a b : Nat) : Nat := (a + b) % 2 ^ w

@[irreducible] def sub (w a b : Nat) : Nat := (a + 2 ^ w - b) % 2 ^ w

/-- The two's complement reading of the low `w` bits. -/
def toSigned (w n : Nat) : Int :=
  if 2 * (n % 2 ^ w) < 2 ^ w then (n % 2 ^ w : Nat) else ((n % 2 ^ w : Nat) : Int) - 2 ^ w

/-- The word a signed value converts to. -/
def ofSigned (w : Nat) (i : Int) : Nat := (i % 2 ^ w).toNat

variable (w : Nat) {a b : Nat}

theorem add_of_lt (h : a + b < 2 ^ w) : add w a b = a + b := by
  rw [add, Nat.mod_eq_of_lt h]

theorem sub_of_le (h : b ≤ a) (ha : a < 2 ^ w) : sub w a b = a - b := by
  have he : a + 2 ^ w - b = (a - b) + 2 ^ w := by omega
  rw [sub, he, Nat.add_mod_right, Nat.mod_eq_of_lt (by omega)]

/-- Subtracting more than there is wraps around. -/
theorem sub_of_gt (h : a < b) (hb : b ≤ 2 ^ w) : sub w a b = a + 2 ^ w - b := by
  rw [sub, Nat.mod_eq_of_lt (by omega)]

/-- A sum and what it loses to the wrapping. -/
theorem natCast_add (ha : a < 2 ^ w) (hb : b < 2 ^ w) :
    (add w a b : Int) = a + b - if 2 ^ w ≤ a + b then ((2 ^ w : Nat) : Int) else 0 := by
  rw [add]
  generalize 2 ^ w = n at ha hb ⊢
  by_cases h : n ≤ a + b
  · rw [if_pos h, Nat.mod_eq_sub_mod h, Nat.mod_eq_of_lt (by omega)]
    omega
  · rw [if_neg h, Nat.mod_eq_of_lt (by omega)]
    omega

/-- A difference and what it borrows. -/
theorem natCast_sub (ha : a < 2 ^ w) (hb : b < 2 ^ w) :
    (sub w a b : Int) = a - b + if a < b then ((2 ^ w : Nat) : Int) else 0 := by
  by_cases h : a < b
  · rw [if_pos h, sub_of_gt w h (Nat.le_of_lt hb)]
    omega
  · rw [if_neg h, sub_of_le w (Nat.le_of_not_lt h) ha]
    omega

theorem toSigned_of_lt (h : 2 * a < 2 ^ w) : toSigned w a = a := by
  have hm : a % 2 ^ w = a := Nat.mod_eq_of_lt (by omega)
  simp [toSigned, hm, h]

theorem ofSigned_natCast (h : a < 2 ^ w) : ofSigned w a = a := by
  have hc : ((a : Int) % 2 ^ w) = ((a % 2 ^ w : Nat) : Int) := by push_cast; rfl
  rw [ofSigned, hc, Int.toNat_natCast, Nat.mod_eq_of_lt h]

theorem ofSigned_toSigned (n : Nat) : ofSigned w (toSigned w n) = n % 2 ^ w := by
  have hlt : n % 2 ^ w < 2 ^ w := Nat.mod_lt _ (Nat.two_pow_pos w)
  have hcast : (((2 ^ w : Nat)) : Int) = 2 ^ w := by push_cast; rfl
  unfold toSigned ofSigned
  split
  · rw [Int.emod_eq_of_lt (by omega) (by omega), Int.toNat_natCast]
  · rw [← hcast, Int.sub_emod_right, Int.emod_eq_of_lt (by omega) (by omega), Int.toNat_natCast]

theorem ofSigned_lt (i : Int) : ofSigned w i < 2 ^ w := by
  have hpos : (0 : Int) < ((2 ^ w : Nat) : Int) := Int.natCast_pos.mpr (Nat.two_pow_pos w)
  have hcast : ((2 ^ w : Nat) : Int) = 2 ^ w := by push_cast; rfl
  have hlt := Int.emod_lt_of_pos i hpos
  have hnonneg := Int.emod_nonneg i (Int.ne_of_gt hpos)
  rw [ofSigned, ← hcast]
  omega

/-- A signed value that fits the word survives the conversion. -/
theorem toSigned_ofSigned {i : Int} (h : -2 ^ w ≤ 2 * i) (h' : 2 * i < 2 ^ w) :
    toSigned w (ofSigned w i) = i := by
  have hcast : ((2 ^ w : Nat) : Int) = 2 ^ w := by push_cast; rfl
  have hlt := ofSigned_lt w i
  rw [toSigned, Nat.mod_eq_of_lt hlt]
  rw [ofSigned, ← hcast] at hlt ⊢
  rw [← hcast] at h h'
  generalize 2 ^ w = n at h h' hlt ⊢
  by_cases hi : 0 ≤ i
  · rw [Int.emod_eq_of_lt hi (by omega), if_pos (by omega)]
    omega
  · have hwrap : i % (n : Int) = i + n := by
      rw [← Int.add_emod_right, Int.emod_eq_of_lt (by omega) (by omega)]
    rw [hwrap, if_neg (by omega)]
    omega

theorem toSigned_mod (n : Nat) : toSigned w (n % 2 ^ w) = toSigned w n := by
  rw [toSigned, toSigned, Nat.mod_mod]

end Muduo.Lib.Word
