import Mathlib.Data.List.Basic
import Muduo.Lib.Machine

namespace Muduo.Lib

/-- What stands at the front of the bytes received so far: nothing to act on yet, an item of
`n` bytes, or something the reader fails on. -/
inductive Front (α φ : Type)
  | wait
  | item (a : α) (n : Nat)
  | fault (f : φ)
  deriving DecidableEq

/-- A reader that takes items off the front, and does not change its mind when more arrives. -/
structure Scanner (α β φ : Type) where
  front : List β → Front α φ
  bounds : ∀ {b a n}, front b = .item a n → 0 < n ∧ n ≤ b.length
  stable : ∀ {b} c, front b ≠ .wait → front (b ++ c) = front b

namespace Scanner

variable {α β φ : Type} (s : Scanner α β φ)

/-- The items up to the first that is not complete, with what is left. -/
def scan (b : List β) : Except φ (List α × List β) :=
  match _h : s.front b with
  | .wait => .ok ([], b)
  | .fault f => .error f
  | .item a n => do
    let (as, rest) ← scan (b.drop n)
    .ok (a :: as, rest)
termination_by b.length
decreasing_by
  rw [List.length_drop]
  have := s.bounds _h
  omega

variable {s} {b r : List β} {a : α} {as : List α} {n : Nat} {f : φ}

theorem scan_wait (h : s.front b = .wait) : s.scan b = .ok ([], b) := by
  rw [scan]
  split
  · rfl
  · rename_i hf
    cases h.symm.trans hf
  · rename_i hi
    cases h.symm.trans hi

theorem scan_fault (h : s.front b = .fault f) : s.scan b = .error f := by
  rw [scan]
  split
  · rename_i hw
    cases h.symm.trans hw
  · rename_i hf
    cases h.symm.trans hf
    rfl
  · rename_i hi
    cases h.symm.trans hi

theorem scan_item (h : s.front b = .item a n) :
    s.scan b = s.scan (b.drop n) >>= fun t => .ok (a :: t.1, t.2) := by
  rw [scan]
  split
  · rename_i hw
    cases h.symm.trans hw
  · rename_i hf
    cases h.symm.trans hf
  · rename_i hi
    cases h.symm.trans hi
    rfl

theorem scan_rest (h : s.scan b = .ok (as, r)) : s.front r = .wait := by
  induction b using scan.induct s generalizing as with
  | case1 b hw =>
    rw [scan_wait hw] at h
    cases h
    exact hw
  | case2 b f hf =>
    rw [scan_fault hf] at h
    cases h
  | case3 b a n hi ih =>
    rw [scan_item hi] at h
    obtain ⟨t, ht, hr⟩ := bind_ok h
    cases hr
    exact ih ht

/-- Scanning goes on where it stopped. -/
theorem scan_append (x y : List β) :
    s.scan (x ++ y) = s.scan x >>= fun t =>
      s.scan (t.2 ++ y) >>= fun u => .ok (t.1 ++ u.1, u.2) := by
  induction x using scan.induct s with
  | case1 x hw =>
    rw [scan_wait hw, ok_bind]
    cases s.scan (x ++ y) <;> rfl
  | case2 x f hf =>
    have hne : s.front x ≠ .wait := by simp [hf]
    rw [scan_fault hf, error_bind, scan_fault ((s.stable y hne).trans hf)]
  | case3 x a n hi ih =>
    have hne : s.front x ≠ .wait := by simp [hi]
    have hle := (s.bounds hi).2
    rw [scan_item hi, scan_item ((s.stable y hne).trans hi), List.drop_append_of_le_length hle, ih]
    cases s.scan (x.drop n) with
    | error f => rfl
    | ok t =>
      simp only [ok_bind]
      cases s.scan (t.2 ++ y) <;> rfl

variable {encode : α → List β}

/-- Where an item is recognised only from its encoding, the bytes used up are the encodings of
the items. -/
theorem scan_encoded (he : ∀ b a n, s.front b = .item a n → b.take n = encode a)
    (h : s.scan b = .ok (as, r)) : b = as.flatMap encode ++ r := by
  induction b using scan.induct s generalizing as with
  | case1 b hw =>
    rw [scan_wait hw] at h
    cases h
    rfl
  | case2 b f hf =>
    rw [scan_fault hf] at h
    cases h
  | case3 b a n hi ih =>
    rw [scan_item hi] at h
    obtain ⟨t, ht, hr⟩ := bind_ok h
    cases hr
    rw [List.flatMap_cons, ← he b a n hi, List.append_assoc, ← ih ht, List.take_append_drop]

theorem scan_fails (he : ∀ b a n, s.front b = .item a n → b.take n = encode a)
    (h : s.scan b = .error f) :
    ∃ (as : List α) (r : List β), b = as.flatMap encode ++ r ∧ s.front r = .fault f ∧
      ∀ a ∈ as, ∃ b n, s.front b = .item a n := by
  induction b using scan.induct s with
  | case1 b hw =>
    rw [scan_wait hw] at h
    cases h
  | case2 b g hf =>
    rw [scan_fault hf] at h
    cases h
    exact ⟨[], b, rfl, hf, by simp⟩
  | case3 b a n hi ih =>
    rw [scan_item hi] at h
    cases ht : s.scan (b.drop n) with
    | ok t => simp [ht] at h
    | error g =>
      rw [ht, error_bind] at h
      cases h
      obtain ⟨as, r, hb, hr, has⟩ := ih ht
      refine ⟨a :: as, r, ?_, hr, ?_⟩
      · rw [List.flatMap_cons, List.append_assoc, ← hb, ← he b a n hi, List.take_append_drop]
      · intro c hc
        rcases List.mem_cons.mp hc with rfl | hc
        · exact ⟨b, n, hi⟩
        · exact has c hc

theorem scan_mem (h : s.scan b = .ok (as, r)) : ∀ a ∈ as, ∃ b n, s.front b = .item a n := by
  induction b using scan.induct s generalizing as with
  | case1 b hw =>
    rw [scan_wait hw] at h
    cases h
    simp
  | case2 b f hf =>
    rw [scan_fault hf] at h
    cases h
  | case3 b a n hi ih =>
    rw [scan_item hi] at h
    obtain ⟨t, ht, hr⟩ := bind_ok h
    cases hr
    intro c hc
    rcases List.mem_cons.mp hc with rfl | hc
    · exact ⟨b, n, hi⟩
    · exact ih ht c hc

end Scanner

end Muduo.Lib
