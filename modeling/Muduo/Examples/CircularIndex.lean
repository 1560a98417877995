import Mathlib.Data.Int.ModEq
import Mathlib.Logic.Function.Iterate
import Muduo.Examples.TimingWheel

namespace Muduo.Examples.CircularIndex
open Muduo.Lib

variable {i : CircularIndex} {a b j k v : Nat}

/-- An index below `max`; both are a `size_t`. -/
structure WellFormed (i : CircularIndex) : Prop where
  lt : i.index < i.max
  word : i.max < 2 ^ 64

theorem WellFormed.pos (h : i.WellFormed) : 0 < i.max := Nat.lt_of_le_of_lt (Nat.zero_le _) h.lt

@[simp] theorem add_max (i : CircularIndex) (v : Nat) : (i.add v).max = i.max := by
  rw [CircularIndex.add]

@[simp] theorem sub_max (i : CircularIndex) (v : Nat) : (i.sub v).max = i.max := by
  rw [CircularIndex.sub]

theorem add_lt (h : i.WellFormed) : (i.add v).index < i.max := by
  rw [CircularIndex.add]
  exact Nat.mod_lt _ h.pos

theorem sub_lt (h : i.WellFormed) : (i.sub v).index < i.max := by
  rw [CircularIndex.sub]
  exact Nat.mod_lt _ h.pos

theorem WellFormed.add (h : i.WellFormed) : (i.add v).WellFormed := by
  constructor
  · rw [add_max]
    exact add_lt h
  · rw [add_max]
    exact h.word

theorem WellFormed.sub (h : i.WellFormed) : (i.sub v).WellFormed := by
  constructor
  · rw [sub_max]
    exact sub_lt h
  · rw [sub_max]
    exact h.word

theorem add_index (h : i.index + v < 2 ^ 64) : (i.add v).index = (i.index + v) % i.max := by
  rw [CircularIndex.add, Word.add_of_lt 64 h]

/-- `index_ - value` borrows a word. -/
def Borrows (i : CircularIndex) (v : Nat) : Prop := i.index < v
  deriving Decidable

/-- Adding `max_` after the remainder is taken drops a word. -/
def Carries (i : CircularIndex) (v : Nat) : Prop :=
  2 ^ 64 ≤ Word.sub 64 i.index v % i.max + i.max
  deriving Decidable

def word (p : Prop) [Decidable p] : Int := if p then 2 ^ 64 else 0

/-- What `sub` computes: the words that are borrowed and dropped are in the result. -/
theorem sub_index (h : i.WellFormed) (hv : v < 2 ^ 64) : ((i.sub v).index : Int) =
    ((i.index : Int) - v + word (i.Borrows v) - word (i.Carries v)) % i.max := by
  have hindex := Nat.lt_trans h.lt h.word
  have hsub : (Word.sub 64 i.index v : Int) = i.index - v + word (i.Borrows v) :=
    Word.natCast_sub 64 hindex hv
  have hmod := Nat.lt_trans (Nat.mod_lt (Word.sub 64 i.index v) h.pos) h.word
  have hadd := Word.natCast_add 64 hmod h.word
  have hdrop : (if 2 ^ 64 ≤ Word.sub 64 i.index v % i.max + i.max then ((2 ^ 64 : Nat) : Int)
      else 0) = word (i.Carries v) := rfl
  rw [CircularIndex.sub, Int.natCast_mod, hadd, hdrop, Int.natCast_mod, hsub]
  generalize (i.index : Int) - v + word (i.Borrows v) = d
  have hregroup : d % (i.max : Int) + i.max - word (i.Carries v) =
      d - word (i.Carries v) + i.max * (1 - d / i.max) := by
    rw [Int.emod_def]
    ring
  rw [hregroup, Int.add_mul_emod_self_left]

/-- `sub` is exact where as much is dropped as is borrowed, modulo `max_`. -/
theorem sub_eq_iff (h : i.WellFormed) (hv : v < 2 ^ 64) :
    ((i.sub v).index : Int) = ((i.index : Int) - v) % i.max ↔
      i.max ∣ 2 ^ 64 ∨ (i.Borrows v ↔ i.Carries v) := by
  have hcast : (i.max : Int) ∣ 2 ^ 64 ↔ i.max ∣ 2 ^ 64 := by
    rw [← Int.natCast_dvd_natCast]
    rfl
  rw [sub_index h hv, Int.emod_eq_emod_iff_emod_sub_eq_zero, ← Int.dvd_iff_emod_eq_zero, ← hcast]
  have hrest : (i.index : Int) - v + word (i.Borrows v) - word (i.Carries v) - (i.index - v) =
      word (i.Borrows v) - word (i.Carries v) := by ring
  rw [hrest]
  by_cases hb : i.Borrows v
  · by_cases hc : i.Carries v
    · simp [word, hb, hc]
    · simp [word, hb, hc]
  · by_cases hc : i.Carries v
    · simp [word, hb, hc]
    · simp [word, hb, hc]

theorem carries_iff (h : i.WellFormed) (hv : v < 2 ^ 64) : i.Carries v ↔
    if i.Borrows v then i.index + 2 ^ 64 < v + i.max ∧ v ≤ i.index + i.max
    else 2 ^ 64 + v ≤ i.index + i.max := by
  have hlt := h.lt
  have hword := h.word
  by_cases hb : i.Borrows v
  · rw [if_pos hb]
    unfold Borrows at hb
    unfold Carries
    rw [Word.sub_of_gt 64 hb (Nat.le_of_lt hv)]
    by_cases hless : i.index + 2 ^ 64 - v < i.max
    · rw [Nat.mod_eq_of_lt hless]
      omega
    · have hmod := Nat.mod_le (i.index + 2 ^ 64 - v - i.max) i.max
      rw [Nat.mod_eq_sub_mod (by omega)]
      omega
  · rw [if_neg hb]
    unfold Borrows at hb
    unfold Carries
    rw [Word.sub_of_le 64 (by omega) (by omega), Nat.mod_eq_of_lt (by omega)]
    omega

/-- When a single `sub` is exact. -/
theorem sub_exact_iff (h : i.WellFormed) (hv : v < 2 ^ 64) :
    ((i.sub v).index : Int) = ((i.index : Int) - v) % i.max ↔
      i.max ∣ 2 ^ 64 ∨ (v ≤ i.index ∧ i.index + i.max < 2 ^ 64 + v) ∨
        (i.index + 2 ^ 64 < v + i.max ∧ v ≤ i.index + i.max) := by
  have hword := h.word
  rw [sub_eq_iff h hv, carries_iff h hv]
  apply or_congr_right
  by_cases hb : i.Borrows v
  · simp only [hb, if_true, true_iff]
    unfold Borrows at hb
    omega
  · simp only [hb, if_false, false_iff]
    unfold Borrows at hb
    omega

theorem dec_index (h : i.WellFormed) (hmax : i.max ∣ 2 ^ 64) :
    (i.dec.index : Int) = ((i.index : Int) - 1) % i.max :=
  (sub_exact_iff h (by decide)).mpr (Or.inl hmax)

theorem ext_index {c d : CircularIndex} (hindex : c.index = d.index) (hmax : c.max = d.max) :
    c = d := by
  obtain ⟨index, max⟩ := c
  obtain ⟨index', max'⟩ := d
  simp only at hindex hmax
  rw [hindex, hmax]

theorem iterate_max (i : CircularIndex) (k : Nat) : (dec^[k] i).max = i.max := by
  induction k with
  | zero => rfl
  | succ k ih =>
    rw [Function.iterate_succ_apply', ← ih]
    exact sub_max _ 1

theorem WellFormed.iterate (h : i.WellFormed) (k : Nat) : (dec^[k] i).WellFormed := by
  induction k with
  | zero => exact h
  | succ k ih =>
    rw [Function.iterate_succ_apply']
    exact ih.sub

/-- Where the size divides the word, `k` steps back are taken modulo the size. -/
theorem iterate_index (h : i.WellFormed) (hmax : i.max ∣ 2 ^ 64) (k : Nat) :
    ((dec^[k] i).index : Int) = ((i.index : Int) - k) % i.max := by
  induction k with
  | zero =>
    have hlt := h.lt
    simp only [Function.iterate_zero, id_eq, Nat.cast_zero, sub_zero]
    rw [Int.emod_eq_of_lt (by omega) (by omega)]
  | succ k ih =>
    have hstep := dec_index (h.iterate k) ((iterate_max i k).symm ▸ hmax)
    rw [iterate_max, ih] at hstep
    have hmod : ((i.index : Int) - k) % i.max - 1 ≡ i.index - k - 1 [ZMOD i.max] :=
      (Int.mod_modEq _ _).sub_right 1
    rw [Function.iterate_succ_apply', hstep, hmod, Nat.cast_succ, sub_sub]

/-- The steps back after which an index is met. -/
theorem iterate_index_iff (h : i.WellFormed) (hmax : i.max ∣ 2 ^ 64) (hj : j < i.max) (k : Nat) :
    (dec^[k] i).index = j ↔ (k : Int) ≡ i.index - j [ZMOD i.max] := by
  have hindex := iterate_index h hmax k
  have hj' : (j : Int) % i.max = j := Int.emod_eq_of_lt (by omega) (by omega)
  constructor
  · intro heq
    rw [heq, ← hj'] at hindex
    have hsub := (Int.ModEq.refl (i.index : Int)).sub (n := i.max) hindex
    rw [sub_sub_cancel] at hsub
    exact hsub.symm
  · intro hk
    have hsub := (Int.ModEq.refl (i.index : Int)).sub hk
    rw [sub_sub_cancel] at hsub
    rw [hsub, hj'] at hindex
    exact_mod_cast hindex

/-- All the way round: each index once, and back. -/
structure Tour (i : CircularIndex) : Prop where
  visits : ∀ j < i.max, ∃! k, k < i.max ∧ (dec^[k] i).index = j
  returns : dec^[i.max] i = i

theorem tour_of_dvd (h : i.WellFormed) (hmax : i.max ∣ 2 ^ 64) : i.Tour := by
  have hlt := h.lt
  constructor
  · intro j hj
    have hpos : (0 : Int) < i.max := by omega
    have hlow := Int.emod_nonneg ((i.index : Int) - j) hpos.ne'
    have hhigh := Int.emod_lt_of_pos ((i.index : Int) - j) hpos
    have hvisit := iterate_index_iff h hmax hj
    refine ⟨(((i.index : Int) - j) % i.max).toNat, ⟨by omega, ?_⟩, ?_⟩
    · rw [hvisit, Int.toNat_of_nonneg hlow]
      exact Int.mod_modEq _ _
    · intro k hk
      have hmod := (hvisit k).mp hk.2
      have hk' : (k : Int) % i.max = k := Int.emod_eq_of_lt (by omega) (by omega)
      rw [Int.ModEq, hk'] at hmod
      omega
  · have hindex := iterate_index h hmax i.max
    rw [Int.sub_emod_right, Int.emod_eq_of_lt (by omega) (by omega)] at hindex
    exact ext_index (by exact_mod_cast hindex) (iterate_max i i.max)

/-- The step after the last is the first again. -/
theorem Tour.next (h : i.Tour) (hk : k < i.max) :
    (if k + 1 = i.max then 0 else k + 1) < i.max ∧
      dec^[if k + 1 = i.max then 0 else k + 1] i = dec (dec^[k] i) := by
  by_cases hlast : k + 1 = i.max
  · have hreturns := h.returns
    rw [← hlast, Function.iterate_succ_apply'] at hreturns
    rw [if_pos hlast]
    exact ⟨by omega, hreturns.symm⟩
  · rw [if_neg hlast]
    exact ⟨by omega, Function.iterate_succ_apply' _ _ _⟩

/-- A tour comes to no index from two sides. -/
theorem Tour.dec_injective (h : i.Tour) (hi : i.WellFormed) (ha : a < i.max) (hb : b < i.max)
    (heq : dec ⟨a, i.max⟩ = dec ⟨b, i.max⟩) : a = b := by
  obtain ⟨k, ⟨hk, hka⟩, -⟩ := h.visits a ha
  obtain ⟨l, ⟨hl, hlb⟩, -⟩ := h.visits b hb
  have hat : dec^[k] i = ⟨a, i.max⟩ := ext_index hka (iterate_max i k)
  have hbt : dec^[l] i = ⟨b, i.max⟩ := ext_index hlb (iterate_max i l)
  obtain ⟨hk', hkdec⟩ := h.next hk
  obtain ⟨hl', hldec⟩ := h.next hl
  rw [hat] at hkdec
  rw [hbt, ← heq, ← hkdec] at hldec
  have hin := (hi.iterate (if k + 1 = i.max then 0 else k + 1)).lt
  rw [iterate_max] at hin
  have hsame : (if k + 1 = i.max then 0 else k + 1) = if l + 1 = i.max then 0 else l + 1 := by
    obtain ⟨m, -, hm⟩ := h.visits _ hin
    rw [hm _ ⟨hk', rfl⟩, hm _ ⟨hl', congrArg CircularIndex.index hldec⟩]
  have hkl : k = l := by
    split at hsame
    · split at hsame <;> omega
    · split at hsame <;> omega
  rw [hkl, hbt] at hat
  exact (CircularIndex.mk.inj hat).1.symm

section

variable {n : Nat}

theorem dec_meet (h : ((dec ⟨a, n⟩).index : Int) = (dec ⟨b, n⟩).index) :
    dec ⟨a, n⟩ = dec ⟨b, n⟩ :=
  ext_index (by exact_mod_cast h) ((sub_max _ 1).trans (sub_max _ 1).symm)

/-- Zero borrows a word, and what is left of the word by `n` does not. -/
theorem collision_of_le (hpos : 0 < n) (hhalf : n ≤ 2 ^ 63) (hnot : ¬n ∣ 2 ^ 64) :
    ∃ a b, a < n ∧ b < n ∧ a ≠ b ∧ dec ⟨a, n⟩ = dec ⟨b, n⟩ := by
  have hword : n < 2 ^ 64 := by omega
  have hrest : 2 ^ 64 % n < n := Nat.mod_lt _ hpos
  have hne : 2 ^ 64 % n ≠ 0 := fun h => hnot (Nat.dvd_of_mod_eq_zero h)
  refine ⟨0, 2 ^ 64 % n, hpos, hrest, hne.symm, dec_meet ?_⟩
  have hzero : WellFormed ⟨0, n⟩ := ⟨hpos, hword⟩
  have hleft : WellFormed ⟨2 ^ 64 % n, n⟩ := ⟨hrest, hword⟩
  have hb : Borrows ⟨0, n⟩ 1 := Nat.zero_lt_one
  have hb' : ¬Borrows ⟨2 ^ 64 % n, n⟩ 1 := by
    unfold Borrows
    exact fun h => hne (Nat.lt_one_iff.mp h)
  have hc : ¬Carries ⟨0, n⟩ 1 := by
    rw [carries_iff hzero (by decide), if_pos hb]
    simp only
    omega
  have hc' : ¬Carries ⟨2 ^ 64 % n, n⟩ 1 := by
    rw [carries_iff hleft (by decide), if_neg hb']
    simp only
    omega
  have hmod : ((2 ^ 64 % n : Nat) : Int) - 1 ≡ 2 ^ 64 - 1 [ZMOD n] := by
    rw [Int.natCast_mod]
    exact (Int.mod_modEq _ _).sub_right 1
  rw [dec, dec, sub_index hzero (by decide), sub_index hleft (by decide)]
  simp only [word, hb, hb', hc, hc', if_true, if_false, Nat.cast_zero, Nat.cast_one, zero_sub,
    add_zero, sub_zero]
  rw [hmod, Int.add_comm]
  rfl

/-- Behind the middle of the word two indices meet at zero: the sum drops a word for the second. -/
theorem collision_of_gt (hhalf : 2 ^ 63 < n) (hword : n < 2 ^ 64) :
    ∃ a b, a < n ∧ b < n ∧ a ≠ b ∧ dec ⟨a, n⟩ = dec ⟨b, n⟩ := by
  have hlt : 2 ^ 64 - n + 1 < n := by omega
  have hone : 1 < n := by omega
  refine ⟨1, 2 ^ 64 - n + 1, hone, hlt, by omega, dec_meet ?_⟩
  have hfirst : WellFormed ⟨1, n⟩ := ⟨hone, hword⟩
  have hsecond : WellFormed ⟨2 ^ 64 - n + 1, n⟩ := ⟨hlt, hword⟩
  have hb : ¬Borrows ⟨1, n⟩ 1 := Nat.lt_irrefl 1
  have hb' : ¬Borrows ⟨2 ^ 64 - n + 1, n⟩ 1 := by
    unfold Borrows
    exact Nat.not_lt.mpr (Nat.le_add_left 1 _)
  have hc : ¬Carries ⟨1, n⟩ 1 := by
    rw [carries_iff hfirst (by decide), if_neg hb]
    simp only
    omega
  have hc' : Carries ⟨2 ^ 64 - n + 1, n⟩ 1 := by
    rw [carries_iff hsecond (by decide), if_neg hb']
    simp only
    omega
  have hback : ((2 ^ 64 - n + 1 : Nat) : Int) - 1 - 2 ^ 64 = -n := by omega
  rw [dec, dec, sub_index hfirst (by decide), sub_index hsecond (by decide)]
  simp only [word, hb, hb', hc, hc', if_true, if_false, add_zero, hback, Nat.cast_one, sub_self,
    Int.zero_emod, Int.neg_emod_self]

/-- A size that does not divide the word has two indices with the same one before them. -/
theorem dec_collision (hpos : 0 < n) (hword : n < 2 ^ 64) (hnot : ¬n ∣ 2 ^ 64) :
    ∃ a b, a < n ∧ b < n ∧ a ≠ b ∧ dec ⟨a, n⟩ = dec ⟨b, n⟩ := by
  by_cases hhalf : n ≤ 2 ^ 63
  · exact collision_of_le hpos hhalf hnot
  · exact collision_of_gt (Nat.lt_of_not_le hhalf) hword

end

/-- Arithmetic modulo `max`: `add` where it does not wrap, `sub`, the neighbours, one step
forth and back, and the way round. -/
structure Modular (i : CircularIndex) (v : Nat) : Prop where
  below : (i.add v).index < i.max ∧ (i.sub v).index < i.max
  add : i.index + v < 2 ^ 64 → (i.add v).index = (i.index + v) % i.max
  sub : ((i.sub v).index : Int) = ((i.index : Int) - v) % i.max
  getInc : i.getInc = (i.index + 1) % i.max
  getDec : (i.getDec : Int) = ((i.index : Int) - 1) % i.max
  inverse : i.inc.dec = i ∧ i.dec.inc = i
  tour : i.Tour

theorem inc_index (h : i.WellFormed) : i.inc.index = (i.index + 1) % i.max := by
  have hlt := h.lt
  have hword := h.word
  exact add_index (by omega)

theorem inverse_of_dvd (h : i.WellFormed) (hmax : i.max ∣ 2 ^ 64) :
    i.inc.dec = i ∧ i.dec.inc = i := by
  have hlt := h.lt
  have hself : (i.index : Int) % i.max = i.index := Int.emod_eq_of_lt (by omega) (by omega)
  have hinc := inc_index h
  have hdec := dec_index h hmax
  have hincMax : i.inc.max = i.max := add_max i 1
  have hdecMax : i.dec.max = i.max := sub_max i 1
  constructor
  · have hindex := dec_index (h.add (v := 1)) (hincMax.symm ▸ hmax)
    have hback : ((i.index : Int) + 1) % i.max - 1 ≡ i.index + 1 - 1 [ZMOD i.max] :=
      (Int.mod_modEq _ _).sub_right 1
    change (i.inc.dec.index : Int) = (i.inc.index - 1) % i.inc.max at hindex
    rw [hincMax, hinc, Int.natCast_mod, Nat.cast_add, Nat.cast_one, hback, add_sub_cancel_right,
      hself] at hindex
    exact ext_index (by exact_mod_cast hindex) ((sub_max _ 1).trans hincMax)
  · have hindex := inc_index (h.sub (v := 1))
    have hback : ((i.index : Int) - 1) % i.max + 1 ≡ i.index - 1 + 1 [ZMOD i.max] :=
      (Int.mod_modEq _ _).add_right 1
    change i.dec.inc.index = (i.dec.index + 1) % i.dec.max at hindex
    rw [hdecMax] at hindex
    have hcast : (i.dec.inc.index : Int) = i.index := by
      rw [hindex, Int.natCast_mod, Nat.cast_add, hdec, Nat.cast_one, hback, sub_add_cancel, hself]
    exact ext_index (by exact_mod_cast hcast) ((add_max _ 1).trans hdecMax)

/-- The index counts modulo `max` exactly where `max` divides the word. -/
theorem modular_iff (h : i.WellFormed) (hv : v < 2 ^ 64) : i.Modular v ↔ i.max ∣ 2 ^ 64 := by
  constructor
  · intro hmodular
    by_contra hnot
    obtain ⟨a, b, ha, hb, hne, heq⟩ := dec_collision h.pos h.word hnot
    exact hne (hmodular.tour.dec_injective h ha hb heq)
  · intro hmax
    exact {
      below := ⟨add_lt h, sub_lt h⟩
      add := add_index
      sub := (sub_exact_iff h hv).mpr (Or.inl hmax)
      getInc := inc_index h
      getDec := dec_index h hmax
      inverse := inverse_of_dvd h hmax
      tour := tour_of_dvd h hmax }

theorem modular_iff_sample : Modular ⟨3, 8⟩ 5 ↔ 8 ∣ 2 ^ 64 :=
  modular_iff ⟨by decide, by decide⟩ (by decide)

/-- One step back from the first of ten leads to the sixth. -/
theorem not_modular_ten : ¬Modular ⟨0, 10⟩ 1 := by
  intro h
  have hsub := h.sub
  revert hsub
  unfold CircularIndex.sub Word.sub Word.add
  decide

end Muduo.Examples.CircularIndex
