import Mathlib.Data.List.Infix

namespace Muduo.Lib

variable {α : Type*} {b x y : List α}

/-- The first part of a stream lies in its first piece or covers it. -/
theorem prefix_split (h : b <+: x ++ y) :
    (b <+: x ∧ b.length < x.length) ∨ ∃ b', b = x ++ b' ∧ b' <+: y := by
  by_cases hlen : b.length < x.length
  · exact .inl ⟨List.prefix_of_prefix_length_le h (List.prefix_append x y) hlen.le, hlen⟩
  · obtain ⟨b', rfl⟩ := List.prefix_of_prefix_length_le (List.prefix_append x y) h
      (Nat.le_of_not_lt hlen)
    exact .inr ⟨b', rfl, (List.prefix_append_right_inj x).mp h⟩

end Muduo.Lib
