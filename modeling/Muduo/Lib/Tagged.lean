import Mathlib.Data.List.Basic

namespace Muduo.Lib

variable {κ α : Type*} [DecidableEq κ] {k k' : κ}

/-- The items of `k` in a list of items that carry their owners. -/
def tagged (k : κ) (xs : List (κ × α)) : List α :=
  xs.filterMap fun x => if x.1 = k then some x.2 else none

@[simp] theorem tagged_nil : tagged k ([] : List (κ × α)) = [] := rfl

@[simp] theorem tagged_append (xs ys : List (κ × α)) :
    tagged k (xs ++ ys) = tagged k xs ++ tagged k ys := List.filterMap_append

@[simp] theorem tagged_cons_self (a : α) (xs : List (κ × α)) :
    tagged k ((k, a) :: xs) = a :: tagged k xs := by
  simp [tagged]

theorem tagged_cons_ne (h : k' ≠ k) (a : α) (xs : List (κ × α)) :
    tagged k ((k', a) :: xs) = tagged k xs := by
  simp [tagged, h]

@[simp] theorem tagged_map_self (as : List α) : tagged k (as.map (k, ·)) = as := by
  induction as with
  | nil => rfl
  | cons a as ih => rw [List.map_cons, tagged_cons_self, ih]

theorem tagged_map_ne (h : k' ≠ k) (as : List α) : tagged k (as.map (k', ·)) = [] := by
  induction as with
  | nil => rfl
  | cons a as ih => rw [List.map_cons, tagged_cons_ne h, ih]

end Muduo.Lib
