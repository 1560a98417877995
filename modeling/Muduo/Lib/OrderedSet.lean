import Mathlib.Data.List.Sort
import Mathlib.Order.Basic

namespace Muduo.Lib

/-- A finite set kept in order, as `std::set` keeps it. -/
structure OrderedSet (α : Type) [LinearOrder α] where
  elems : List α
  sorted : elems.Pairwise (· < ·)

namespace OrderedSet

variable {α : Type} [LinearOrder α] {s : OrderedSet α} {a b : α}

instance : Membership α (OrderedSet α) := ⟨fun s a => a ∈ s.elems⟩

instance (a : α) (s : OrderedSet α) : Decidable (a ∈ s) := inferInstanceAs (Decidable (a ∈ s.elems))

theorem mem_def : a ∈ s ↔ a ∈ s.elems := Iff.rfl

def size (s : OrderedSet α) : Nat := s.elems.length

def empty : OrderedSet α := ⟨[], .nil⟩

@[simp] theorem not_mem_empty : a ∉ (empty : OrderedSet α) := List.not_mem_nil

@[simp] theorem size_empty : (empty : OrderedSet α).size = 0 := rfl

theorem nodup (s : OrderedSet α) : s.elems.Nodup := s.sorted.imp fun h => ne_of_lt h

/-- `insert`, for an element that may be there already. -/
def insert (s : OrderedSet α) (a : α) : OrderedSet α :=
  if h : a ∈ s then s
  else
    ⟨s.elems.orderedInsert (· ≤ ·) a, by
      have hle : (s.elems.orderedInsert (· ≤ ·) a).Pairwise (· ≤ ·) :=
        List.Pairwise.orderedInsert a _ (s.sorted.imp le_of_lt)
      have hne : (s.elems.orderedInsert (· ≤ ·) a).Nodup :=
        (List.perm_orderedInsert _ a _).nodup_iff.mpr (List.nodup_cons.mpr ⟨h, s.nodup⟩)
      exact hle.imp₂ (fun _ _ h h' => lt_of_le_of_ne h h') hne⟩

@[simp] theorem mem_insert : b ∈ s.insert a ↔ b = a ∨ b ∈ s := by
  unfold insert
  split
  · rename_i h
    refine ⟨.inr, ?_⟩
    rintro (rfl | hb)
    · exact h
    · exact hb
  · exact List.mem_orderedInsert ..

theorem size_insert (h : a ∉ s) : (s.insert a).size = s.size + 1 := by
  rw [insert, dif_neg h]
  exact List.orderedInsert_length ..

/-- `erase`; how many elements go is 1 or 0, as the element is in the set or not. -/
def erase (s : OrderedSet α) (a : α) : OrderedSet α :=
  ⟨s.elems.erase a, s.sorted.sublist List.erase_sublist⟩

@[simp] theorem mem_erase : b ∈ s.erase a ↔ b ≠ a ∧ b ∈ s := s.nodup.mem_erase_iff

theorem size_erase (h : a ∈ s) : (s.erase a).size + 1 = s.size := by
  have hpos : 0 < s.elems.length := List.length_pos_of_mem h
  change (s.elems.erase a).length + 1 = s.elems.length
  rw [List.length_erase_of_mem h]
  omega

/-- What lies before `lower_bound(a)`. -/
def below (s : OrderedSet α) (a : α) : List α := s.elems.takeWhile (· < a)

/-- What lies at and behind `lower_bound(a)`. -/
def above (s : OrderedSet α) (a : α) : OrderedSet α :=
  ⟨s.elems.dropWhile (· < a), s.sorted.sublist (List.dropWhile_sublist _)⟩

theorem size_above (s : OrderedSet α) (a : α) : (s.above a).size + (s.below a).length = s.size := by
  change (s.elems.dropWhile (· < a)).length + (s.elems.takeWhile (· < a)).length = s.elems.length
  rw [Nat.add_comm, ← List.length_append, List.takeWhile_append_dropWhile]

/-- In order, the smaller elements come first. -/
theorem split_sorted {l : List α} (h : l.Pairwise (· < ·)) (a : α) :
    (∀ b, b ∈ l.takeWhile (· < a) ↔ b ∈ l ∧ b < a) ∧
      ∀ b, b ∈ l.dropWhile (· < a) ↔ b ∈ l ∧ a ≤ b := by
  induction l with
  | nil => simp
  | cons c l ih =>
    obtain ⟨hc, hl⟩ := List.pairwise_cons.mp h
    obtain ⟨htake, hdrop⟩ := ih hl
    by_cases hca : c < a
    · simp only [List.takeWhile_cons, List.dropWhile_cons, hca, decide_true, if_true,
        List.mem_cons, htake, hdrop]
      refine ⟨fun b => ⟨?_, ?_⟩, fun b => ⟨fun hb => ⟨.inr hb.1, hb.2⟩, ?_⟩⟩
      · rintro (rfl | hb)
        · exact ⟨.inl rfl, hca⟩
        · exact ⟨.inr hb.1, hb.2⟩
      · rintro ⟨rfl | hb, hlt⟩
        · exact .inl rfl
        · exact .inr ⟨hb, hlt⟩
      · rintro ⟨rfl | hb, hle⟩
        · exact absurd hca (not_lt_of_ge hle)
        · exact ⟨hb, hle⟩
    · simp only [List.takeWhile_cons, List.dropWhile_cons, hca, decide_false, Bool.false_eq_true,
        if_false, List.not_mem_nil, List.mem_cons, false_iff]
      have hle : ∀ b, b = c ∨ b ∈ l → a ≤ b := by
        rintro b (rfl | hb)
        · exact le_of_not_gt hca
        · exact le_trans (le_of_not_gt hca) (le_of_lt (hc b hb))
      exact ⟨fun b hb => not_lt_of_ge (hle b hb.1) hb.2, fun b => ⟨fun hb => ⟨hb, hle b hb⟩, And.left⟩⟩

theorem mem_below : b ∈ s.below a ↔ b ∈ s ∧ b < a := (split_sorted s.sorted a).1 b

theorem mem_above : b ∈ s.above a ↔ b ∈ s ∧ a ≤ b := (split_sorted s.sorted a).2 b

theorem below_sorted (s : OrderedSet α) (a : α) : (s.below a).Pairwise (· < ·) :=
  s.sorted.sublist (List.takeWhile_sublist _)

end OrderedSet

end Muduo.Lib
