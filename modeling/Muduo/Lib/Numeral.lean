import Mathlib.Data.Nat.Digits.Lemmas

namespace Muduo.Lib

/-- The digits of a number, the least significant first. Zero has one. -/
def figures (b n : Nat) : List Nat := if n = 0 then [0] else Nat.digits b n

variable {α : Type*} {b d k n : Nat}

theorem figures_of_lt (h : n < b) : figures b n = [n] := by
  by_cases hzero : n = 0
  · rw [figures, if_pos hzero, hzero]
  · rw [figures, if_neg hzero, Nat.digits_of_lt b n hzero h]

theorem figures_of_le (hb : 1 < b) (h : b ≤ n) : figures b n = n % b :: figures b (n / b) := by
  have hpos : 0 < n := by omega
  have hquot : n / b ≠ 0 := Nat.div_ne_zero_iff.mpr ⟨by omega, h⟩
  rw [figures, figures, if_neg hpos.ne', if_neg hquot, Nat.digits_def' hb hpos]

theorem figures_ne_nil (b n : Nat) : figures b n ≠ [] := by
  by_cases hzero : n = 0
  · simp [figures, hzero]
  · rw [figures, if_neg hzero]
    exact Nat.digits_ne_nil_iff_ne_zero.mpr hzero

theorem figures_lt (hb : 1 < b) (h : d ∈ figures b n) : d < b := by
  by_cases hzero : n = 0
  · have hd : d = 0 := by simpa [figures, hzero] using h
    omega
  · rw [figures, if_neg hzero] at h
    exact Nat.digits_lt_base hb h

theorem ofDigits_figures (b n : Nat) : Nat.ofDigits b (figures b n) = n := by
  by_cases hzero : n = 0
  · simp [figures, hzero]
  · rw [figures, if_neg hzero, Nat.ofDigits_digits]

/-- A number below `b ^ k` has `k` digits at most. -/
theorem length_figures_le (hb : 1 < b) (hk : 0 < k) (h : n < b ^ k) :
    (figures b n).length ≤ k := by
  by_cases hzero : n = 0
  · rw [figures, if_pos hzero]
    exact hk
  · rw [figures, if_neg hzero]
    exact (Nat.digits_length_le_iff hb n).mpr h

/-- A number written out, in a sign for each digit. -/
def numeral (sign : Nat → α) (b n : Nat) : List α := (figures b n).reverse.map sign

/-- The number that a row of signs stands for, where all of them are digits. -/
def readNumeral (value : α → Option Nat) (b : Nat) (text : List α) : Option Nat :=
  text.foldlM (fun n a => (value a).map fun d => d + b * n) 0

variable {sign : Nat → α} {value : α → Option Nat}

@[simp] theorem length_numeral (sign : Nat → α) (b n : Nat) :
    (numeral sign b n).length = (figures b n).length := by
  simp [numeral]

theorem numeral_ne_nil (sign : Nat → α) (b n : Nat) : numeral sign b n ≠ [] := by
  simp [numeral, figures_ne_nil]

theorem numeral_of_lt (h : n < b) : numeral sign b n = [sign n] := by
  simp [numeral, figures_of_lt h]

theorem numeral_of_le (hb : 1 < b) (h : b ≤ n) :
    numeral sign b n = numeral sign b (n / b) ++ [sign (n % b)] := by
  simp [numeral, figures_of_le hb h]

theorem mem_numeral (hb : 1 < b) {a : α} (h : a ∈ numeral sign b n) : ∃ d, d < b ∧ sign d = a := by
  obtain ⟨d, hd, rfl⟩ := List.mem_map.mp h
  exact ⟨d, figures_lt hb (List.mem_reverse.mp hd), rfl⟩

/-- Only zero begins with a zero. -/
theorem numeral_head (sign : Nat → α) (hb : 1 < b) (hn : n ≠ 0) :
    ∃ d rest, numeral sign b n = sign d :: rest ∧ d ≠ 0 ∧ d < b := by
  have hne := figures_ne_nil b n
  refine ⟨(figures b n).getLast hne, (figures b n).dropLast.reverse.map sign, ?_, ?_, ?_⟩
  · conv_lhs => rw [numeral, ← List.dropLast_append_getLast hne]
    simp
  · have hlast := Nat.getLast_digit_ne_zero b hn
    simpa [figures, hn] using hlast
  · exact figures_lt hb (List.getLast_mem hne)

theorem readNumeral_reverse {ds : List Nat} (h : ∀ d ∈ ds, value (sign d) = some d) :
    readNumeral value b (ds.reverse.map sign) = some (Nat.ofDigits b ds) := by
  induction ds with
  | nil => rfl
  | cons d ds ih =>
    have hfirst := h d List.mem_cons_self
    have hrest := ih fun d hd => h d (List.mem_cons_of_mem _ hd)
    rw [readNumeral] at hrest ⊢
    rw [List.reverse_cons, List.map_append, List.foldlM_append, hrest]
    simp [hfirst, Nat.ofDigits_cons]

/-- Reading gives back what was written. -/
theorem readNumeral_numeral (hb : 1 < b) (h : ∀ d, d < b → value (sign d) = some d) :
    readNumeral value b (numeral sign b n) = some n := by
  rw [numeral, readNumeral_reverse fun d hd => h d (figures_lt hb hd), ofDigits_figures]

end Muduo.Lib
